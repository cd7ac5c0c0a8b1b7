import Mathlib.Data.List.Sort

/-!
# Sorting and choosing

A stable sort commutes with leaving elements out, and the front of a sorted
list is found in another arrangement of it exactly when that front is in order
and nothing behind it belongs before it.
-/

namespace Sorting

open List

variable {α : Type} {r : α → α → Prop} [DecidableRel r]

theorem orderedInsert_of_forall_rel {a : α} {l : List α} (h : ∀ b ∈ l, r a b) :
    l.orderedInsert r a = a :: l := by
  cases l with
  | nil => rfl
  | cons b l => exact if_pos (h b mem_cons_self)

variable [IsTrans α r]

theorem filter_orderedInsert (p : α → Bool) (a : α) {l : List α} (hl : l.Pairwise r) :
    (l.orderedInsert r a).filter p =
      if p a then (l.filter p).orderedInsert r a else l.filter p := by
  induction l with
  | nil => by_cases ha : p a <;> simp [ha]
  | cons b l ih =>
      obtain ⟨hb, hl⟩ := pairwise_cons.mp hl
      by_cases hab : r a b
      · have hfront : ∀ c ∈ (b :: l).filter p, r a c := by
          intro c hc
          rcases mem_cons.mp (mem_of_mem_filter hc) with rfl | hc
          · exact hab
          · exact trans_of r hab (hb c hc)
        rw [orderedInsert, if_pos hab, orderedInsert_of_forall_rel hfront, filter_cons]
      · rw [orderedInsert, if_neg hab, filter_cons, ih hl]
        by_cases hpa : p a <;> by_cases hpb : p b <;> simp [hpa, hpb, hab]

variable [Std.Total r]

/-- A stable sort commutes with leaving elements out. -/
theorem filter_insertionSort (p : α → Bool) (l : List α) :
    (l.insertionSort r).filter p = (l.filter p).insertionSort r := by
  induction l with
  | nil => rfl
  | cons a l ih =>
      rw [insertionSort_cons, filter_orderedInsert p a (pairwise_insertionSort r l), ih, filter_cons]
      by_cases ha : p a <;> simp [ha]

/-- A stable sort commutes with changing the elements and leaving some out, when the change keeps the
order and what is left out stays out. -/
theorem insertionSort_filter_map {p : α → Bool} {f : α → α} (hr : ∀ a b, r a b ↔ r (f a) (f b))
    (hp : ∀ a, p (f a) = true → p a = true) (l : List α) :
    ((l.map f).filter p).insertionSort r = (((l.filter p).insertionSort r).map f).filter p := by
  have hfilter : (fun a ↦ (p ∘ f) a && p a) = p ∘ f := by
    funext a
    exact Bool.and_eq_left_iff_imp.mpr (hp a)
  rw [← filter_insertionSort, ← filter_insertionSort, ← map_insertionSort r r f l fun a _ b _ ↦ hr a b, filter_map,
    filter_map, filter_filter, hfilter]

/-- The first `n` of a sorted list are the first `n` of another arrangement of
it exactly when those are in order and all that follows comes after them. -/
theorem take_insertionSort_eq_iff {l m : List α} (hm : m.Perm l)
    (hanti : ∀ a ∈ l, ∀ b ∈ l, r a b → r b a → a = b) (n : ℕ) :
    (l.insertionSort r).take n = m.take n ↔
      (m.take n).Pairwise r ∧ ∀ a ∈ m.take n, ∀ b ∈ m.drop n, r a b := by
  have hsorted := pairwise_insertionSort r l
  have hperm := perm_insertionSort r l
  constructor
  · intro h
    have hdrop : (m.drop n).Perm ((l.insertionSort r).drop n) := by
      have hall : (m.take n ++ m.drop n).Perm (m.take n ++ (l.insertionSort r).drop n) := by
        rw [take_append_drop, ← h, take_append_drop]
        exact hm.trans hperm.symm
      exact (perm_append_left_iff _).mp hall
    rw [← take_append_drop n (l.insertionSort r), h, pairwise_append] at hsorted
    exact ⟨hsorted.1, fun a ha b hb ↦ hsorted.2.2 a ha b (hdrop.mem_iff.mp hb)⟩
  · rintro ⟨hfront, hcross⟩
    have hrest := perm_insertionSort r (m.drop n)
    have hpermuted : (m.take n ++ (m.drop n).insertionSort r).Perm l := by
      have hback := hrest.append_left (m.take n)
      rw [take_append_drop] at hback
      exact hback.trans hm
    have hpairwise : (m.take n ++ (m.drop n).insertionSort r).Pairwise r :=
      pairwise_append.mpr ⟨hfront, pairwise_insertionSort r _,
        fun a ha b hb ↦ hcross a ha b (hrest.mem_iff.mp hb)⟩
    have hsame : l.insertionSort r = m.take n ++ (m.drop n).insertionSort r :=
      (hperm.trans hpermuted.symm).eq_of_pairwise
        (fun a b ha hb ↦ hanti a (hperm.mem_iff.mp ha) b (hpermuted.mem_iff.mp hb))
        hsorted hpairwise
    rw [hsame, take_append, take_take, min_self, length_take]
    rcases le_total n m.length with hn | hn
    · simp [min_eq_left hn]
    · simp [drop_eq_nil_of_le hn]

end Sorting
