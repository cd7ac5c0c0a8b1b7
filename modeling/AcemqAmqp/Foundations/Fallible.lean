import Mathlib.Data.List.Forall2

/-!
# Computations that can fail

How a computation in `Except` that succeeds came about, part by part.
-/

namespace Fallible

variable {ε α β γ : Type}

theorem ok_bind (a : α) (f : α → Except ε β) : Except.ok a >>= f = f a := rfl

theorem error_bind (e : ε) (f : α → Except ε β) : Except.error e >>= f = .error e := rfl

theorem bind_ok_iff {x : Except ε α} {f : α → Except ε β} {b : β} :
    x >>= f = .ok b ↔ ∃ a, x = .ok a ∧ f a = .ok b := by
  cases x with
  | error e => simp [bind, Except.bind]
  | ok a => simp [bind, Except.bind]

theorem map_ok_iff {x : Except ε α} {f : α → β} {b : β} :
    x.map f = .ok b ↔ ∃ a, x = .ok a ∧ f a = b := by
  cases x with
  | error e => simp [Except.map]
  | ok a => simp [Except.map]

theorem map_error_iff {x : Except ε α} {f : α → β} {e : ε} : x.map f = .error e ↔ x = .error e := by
  cases x with
  | error e' => simp [Except.map]
  | ok a => simp [Except.map]

/-- A list is gone through without a failure when every element is. -/
theorem mapM_ok_iff {f : α → Except ε β} {l : List α} {m : List β} :
    l.mapM f = .ok m ↔ List.Forall₂ (fun a b ↦ f a = .ok b) l m := by
  induction l generalizing m with
  | nil => simp [pure, Except.pure, eq_comm]
  | cons a l ih =>
      rw [List.mapM_cons, bind_ok_iff, List.forall₂_cons_left_iff]
      refine exists_congr fun b ↦ ?_
      rw [bind_ok_iff]
      constructor
      · rintro ⟨hb, m', hm', heq⟩
        exact ⟨m', hb, ih.mp hm', (Except.ok.inj heq).symm⟩
      · rintro ⟨m', hb, hm', rfl⟩
        exact ⟨hb, m', ih.mpr hm', rfl⟩

/-- Going through a list with a function that succeeds, with `g`, on the elements in `P`. -/
theorem mapM_ok_iff_map {f : α → Except ε β} {g : α → β} {P : α → Prop}
    (h : ∀ a b, f a = .ok b ↔ b = g a ∧ P a) {l : List α} {m : List β} :
    l.mapM f = .ok m ↔ m = l.map g ∧ ∀ a ∈ l, P a := by
  simp only [mapM_ok_iff, h]
  induction l generalizing m with
  | nil => simp
  | cons a l ih =>
      simp only [List.forall₂_cons_left_iff, ih, List.map_cons, List.forall_mem_cons]
      constructor
      · rintro ⟨b, m, ⟨rfl, ha⟩, ⟨rfl, hl⟩, rfl⟩
        exact ⟨rfl, ha, hl⟩
      · rintro ⟨rfl, ha, hl⟩
        exact ⟨_, _, ⟨rfl, ha⟩, ⟨rfl, hl⟩, rfl⟩

theorem mem_of_mapM_ok {f : α → Except ε β} {l : List α} {m : List β} {b : β} (h : l.mapM f = .ok m) :
    b ∈ m ↔ ∃ a ∈ l, f a = .ok b := by
  induction mapM_ok_iff.mp h with
  | nil => simp
  | cons hab hrest ih =>
      rw [List.mem_cons, ih (mapM_ok_iff.mpr hrest), List.exists_mem_cons_iff, hab, Except.ok.injEq, eq_comm]

theorem mapM_isOk_iff {f : α → Except ε β} {l : List α} :
    (∃ m, l.mapM f = .ok m) ↔ ∀ a ∈ l, ∃ b, f a = .ok b := by
  simp only [mapM_ok_iff]
  induction l with
  | nil => simp
  | cons a l ih => simp [List.forall₂_cons_left_iff, ← ih]

end Fallible
