import AcemqAmqp.Foundations.Expansion

/-!
# Programs that do something at most once

Some questions of a program stand for one deed.  Along every run at most one of
them is asked, whatever it is answered with, and what the program returns says
whether the deed was done.  Programs that answer for others keep this, as long
as they leave the deed alone.
-/

namespace Interaction

/-- What counts as the deed, which form of it is right, and which answers say that it was done. -/
structure Deed (I : Interface) where
  is : I.Act → Prop
  right : I.Act → Prop
  done : (q : I.Act) → I.Ans q → Prop

namespace Deed

variable {I J : Interface} (deed : Deed I) {t t' : List (Event I)}

def Untouched (t : List (Event I)) : Prop := ∀ event ∈ t, ¬deed.is event.1

def Done (t : List (Event I)) : Prop := ∃ event ∈ t, deed.is event.1 ∧ deed.done event.1 event.2

/-- The same deed, beside another interface. -/
def beside (J : Interface) : Deed (I.sum J) where
  is
    | .inl q => deed.is q
    | .inr _ => False
  right
    | .inl q => deed.right q
    | .inr _ => True
  done
    | .inl q => deed.done q
    | .inr _ => fun _ ↦ True

variable {deed}

theorem untouched_nil : deed.Untouched ([] : List (Event I)) := fun _ hmem ↦ absurd hmem List.not_mem_nil

theorem untouched_append : deed.Untouched (t ++ t') ↔ deed.Untouched t ∧ deed.Untouched t' :=
  List.forall_mem_append

theorem untouched_snoc {q : I.Act} {r : I.Ans q} :
    deed.Untouched (t ++ [⟨q, r⟩]) ↔ deed.Untouched t ∧ ¬deed.is q := by
  rw [untouched_append]
  exact and_congr_right fun _ ↦ List.forall_mem_singleton

theorem Done.append (h : deed.Done t) (t' : List (Event I)) : deed.Done (t ++ t') := by
  obtain ⟨event, hmem, hdone⟩ := h
  exact ⟨event, List.mem_append_left _ hmem, hdone⟩

theorem done_snoc {q : I.Act} {r : I.Ans q} :
    deed.Done (t ++ [⟨q, r⟩]) ↔ deed.Done t ∨ deed.is q ∧ deed.done q r := by
  constructor
  · rintro ⟨event, hmem, hdone⟩
    obtain hold | hnew := List.mem_append.mp hmem
    · exact .inl ⟨event, hold, hdone⟩
    · obtain rfl := List.mem_singleton.mp hnew
      exact .inr hdone
  · rintro (hold | hnew)
    · exact hold.append _
    · exact ⟨⟨q, r⟩, List.mem_append_right _ (List.mem_singleton_self _), hnew⟩

end Deed

namespace Program

variable {I J : Interface} {ε α β : Type} {deed : Deed I} {finished : α → Prop} {t : List (Event I)}

/-- After the events `t` the program asks for the deed only if nobody has, and what it returns
says whether the deed is done. -/
structure Once (deed : Deed I) (finished : α → Prop) (t : List (Event I)) (p : Program I ε α) : Prop where
  asks : p.Asks (Anything I) fun t' q ↦ deed.is q → deed.right q ∧ deed.Untouched (t ++ t')
  ends : p.Always (Anything I) fun t' x ↦ onEnd x
    (fun a ↦ (finished a → deed.Done (t ++ t')) ∧ (¬finished a → deed.Untouched (t ++ t'))) fun _ ↦ True

theorem once_ret {a : α} : Once deed finished t (ret a : Program I ε α) ↔
    (finished a → deed.Done t) ∧ (¬finished a → deed.Untouched t) := by
  constructor
  · intro h
    simpa using h.ends
  · exact fun h ↦ ⟨trivial, by simpa using h⟩

theorem once_raise (e : ε) : Once deed finished t (raise e : Program I ε α) := ⟨trivial, trivial⟩

theorem once_ask {q : I.Act} {next : I.Ans q → Program I ε α} : Once deed finished t (ask q next) ↔
    (deed.is q → deed.right q ∧ deed.Untouched t) ∧ ∀ r, Once deed finished (t ++ [⟨q, r⟩]) (next r) := by
  constructor
  · rintro ⟨⟨hq, hasks⟩, hends⟩
    refine ⟨by simpa using hq, fun r ↦ ⟨?_, ?_⟩⟩
    · simpa only [List.append_assoc, List.singleton_append] using hasks r trivial
    · simpa only [List.append_assoc, List.singleton_append] using hends r trivial
  · rintro ⟨hq, hnext⟩
    refine ⟨⟨by simpa using hq, fun r _ ↦ ?_⟩, fun r _ ↦ ?_⟩
    · simpa only [List.append_assoc, List.singleton_append] using (hnext r).asks
    · simpa only [List.append_assoc, List.singleton_append] using (hnext r).ends

/-- A program that leaves the deed alone. -/
theorem once_of_quiet {p : Program I ε α} (hp : p.Asks (Anything I) fun _ q ↦ ¬deed.is q)
    (ht : deed.Untouched t) : Once deed (fun _ ↦ False) t p := by
  induction p generalizing t with
  | ret a => exact once_ret.mpr ⟨False.elim, fun _ ↦ ht⟩
  | raise e => exact once_raise e
  | ask q next ih =>
      exact once_ask.mpr ⟨fun hq ↦ absurd hq hp.1, fun r ↦
        ih r (hp.2 r trivial) (Deed.untouched_snoc.mpr ⟨ht, hp.1⟩)⟩

theorem Once.bind {finished' : β → Prop} {p : Program I ε α} {f : α → Program I ε β}
    (hp : Once deed finished t p)
    (hf : ∀ a t', (finished a → deed.Done (t ++ t')) → (¬finished a → deed.Untouched (t ++ t')) →
      Once deed finished' (t ++ t') (f a)) : Once deed finished' t (p.bind f) := by
  induction p generalizing t with
  | ret a =>
      obtain ⟨hdone, huntouched⟩ := once_ret.mp hp
      simpa using hf a [] (by simpa using hdone) (by simpa using huntouched)
  | raise e => exact once_raise e
  | ask q next ih =>
      obtain ⟨hq, hnext⟩ := once_ask.mp hp
      refine once_ask.mpr ⟨hq, fun r ↦ ih r (hnext r) fun a t' ↦ ?_⟩
      rw [List.append_assoc]
      exact hf a ([⟨q, r⟩] ++ t')

/-- First something that leaves the deed alone. -/
theorem Once.after_quiet {finished : β → Prop} {p : Program I ε α} {f : α → Program I ε β}
    (hp : p.Asks (Anything I) fun _ q ↦ ¬deed.is q) (ht : deed.Untouched t)
    (hf : ∀ a t', deed.Untouched t' → Once deed finished t' (f a)) : Once deed finished t (p.bind f) :=
  (once_of_quiet hp ht).bind fun a _ _ huntouched ↦ hf a _ (huntouched id)

/-- The same of a program that does not raise. -/
theorem once_andThen {p : Program I Empty α} {f : α → Program I ε β} {finished : β → Prop}
    (hp : p.Asks (Anything I) fun _ q ↦ ¬deed.is q)
    (hf : ∀ a t', deed.Untouched t' → Once deed finished (t ++ t') (f a)) :
    Once deed finished t (p.andThen f) := by
  induction p generalizing t with
  | ret a =>
      rw [andThen]
      simpa using hf a [] Deed.untouched_nil
  | raise e => exact e.elim
  | ask q next ih =>
      refine once_ask.mpr ⟨fun hq ↦ absurd hq hp.1, fun r ↦ ih r (hp.2 r trivial) fun a t' ht' ↦ ?_⟩
      rw [List.append_assoc]
      exact hf a _ (Deed.untouched_append.mpr ⟨by simpa [Deed.Untouched] using hp.1, ht'⟩)

section expand

variable {h : (q : I.Act) → Program (I.sum J) Empty (I.Ans q)}

/-- The deed is left to the program, and nobody who answers for it asks for it. -/
theorem Once.expand {p : Program I ε α} {u : List (Event (I.sum J))}
    (hdeed : ∀ q, deed.is q → h q = perform (I := I.sum J) (.inl q))
    (hquiet : ∀ q, ¬deed.is q → (h q).Asks (Anything _) fun _ q' ↦ ¬(deed.beside J).is q')
    (hp : Once deed finished t p) (huntouched : deed.Untouched t → (deed.beside J).Untouched u)
    (hdone : deed.Done t → (deed.beside J).Done u) :
    Once (deed.beside J) finished u (p.expand h) := by
  induction p generalizing t u with
  | ret a =>
      obtain ⟨hfinished, hnot⟩ := once_ret.mp hp
      exact once_ret.mpr ⟨fun ha ↦ hdone (hfinished ha), fun ha ↦ huntouched (hnot ha)⟩
  | raise e => exact once_raise e
  | ask q next ih =>
      obtain ⟨hq, hnext⟩ := once_ask.mp hp
      by_cases his : deed.is q
      · rw [Program.expand, hdeed q his]
        refine once_ask.mpr ⟨fun _ ↦ ⟨(hq his).1, huntouched (hq his).2⟩, fun r ↦ ih r (hnext r) ?_ ?_⟩
        · exact fun hnone ↦ absurd his (Deed.untouched_snoc.mp hnone).2
        · intro hsome
          obtain hold | hnew := Deed.done_snoc.mp hsome
          · exact (hdone hold).append _
          · exact Deed.done_snoc.mpr (.inr hnew)
      · refine once_andThen (hquiet q his) fun r u' hu' ↦ ih r (hnext r) (fun hnone ↦ ?_) fun hsome ↦ ?_
        · exact Deed.untouched_append.mpr ⟨huntouched (Deed.untouched_snoc.mp hnone).1, hu'⟩
        · obtain hold | hnew := Deed.done_snoc.mp hsome
          · exact (hdone hold).append _
          · exact absurd hnew.1 his

end expand

end Program

end Interaction
