import Mathlib.Data.List.Basic
import Mathlib.Order.Basic
import Mathlib.Tactic.Common

/-!
# Cutting texts

A text, as the list of its characters, cut at the first or the last of a
character, as `partition` and `rpartition` cut it.
-/

namespace Cutting

/-- `text.partition(c)`: what precedes the first `c`, whether there is one, and what follows it. -/
def partition (c : Char) (text : List Char) : List Char × Bool × List Char :=
  (text.takeWhile (· ≠ c), decide (c ∈ text), (text.dropWhile (· ≠ c)).drop 1)

/-- `text.rpartition(c)`: the same of the last `c`. -/
def rpartition (c : Char) (text : List Char) : List Char × Bool × List Char :=
  if c ∈ text then
    (((text.reverse.dropWhile (· ≠ c)).drop 1).reverse, true, (text.reverse.takeWhile (· ≠ c)).reverse)
  else ([], false, text)

theorem takeWhile_ne {c : Char} {before after : List Char} (h : c ∉ before) :
    (before ++ c :: after).takeWhile (· ≠ c) = before ∧
      (before ++ c :: after).dropWhile (· ≠ c) = c :: after := by
  induction before with
  | nil => simp
  | cons x before ih =>
      rw [List.mem_cons, not_or] at h
      simpa [Ne.symm h.1] using ih h.2

theorem takeWhile_ne_self {c : Char} {text : List Char} (h : c ∉ text) :
    text.takeWhile (· ≠ c) = text ∧ text.dropWhile (· ≠ c) = [] := by
  induction text with
  | nil => simp
  | cons x text ih =>
      rw [List.mem_cons, not_or] at h
      simpa [Ne.symm h.1] using ih h.2

theorem partition_append {c : Char} {before after : List Char} (h : c ∉ before) :
    partition c (before ++ c :: after) = (before, true, after) := by
  rw [partition, (takeWhile_ne h).1, (takeWhile_ne h).2]
  simp

theorem partition_notMem {c : Char} {text : List Char} (h : c ∉ text) :
    partition c text = (text, false, []) := by
  rw [partition, (takeWhile_ne_self h).1, (takeWhile_ne_self h).2, decide_eq_false h]
  rfl

theorem rpartition_append {c : Char} {before after : List Char} (h : c ∉ after) :
    rpartition c (before ++ c :: after) = (before, true, after) := by
  have hreverse : (before ++ c :: after).reverse = after.reverse ++ c :: before.reverse := by simp
  have hcut := @takeWhile_ne c after.reverse before.reverse (mt List.mem_reverse.mp h)
  rw [rpartition, if_pos (by simp), hreverse, hcut.1, hcut.2]
  simp

/-- A text is its parts around the first `c`. -/
theorem partition_cases (c : Char) (text : List Char) :
    c ∉ text ∧ partition c text = (text, false, []) ∨
      ∃ before after, text = before ++ c :: after ∧ c ∉ before ∧ partition c text = (before, true, after) := by
  by_cases h : c ∈ text
  · obtain ⟨before, after, rfl, hbefore⟩ := List.eq_append_cons_of_mem h
    exact .inr ⟨before, after, rfl, hbefore, partition_append hbefore⟩
  · exact .inl ⟨h, partition_notMem h⟩

/-- A text in which the character was found is what is before it and what is behind it. -/
theorem partition_found {c : Char} {text : List Char} (h : (partition c text).2.1 = true) :
    text = (partition c text).1 ++ c :: (partition c text).2.2 := by
  obtain ⟨before, after, htext, hnot⟩ := List.eq_append_cons_of_mem (of_decide_eq_true h)
  rw [htext, partition_append hnot]

theorem length_partition_le (c : Char) (text : List Char) : (partition c text).2.2.length ≤ text.length := by
  rw [partition, List.length_drop]
  exact Nat.le_trans (Nat.sub_le _ _) (List.dropWhile_suffix _).length_le

theorem notMem_partition (c : Char) (text : List Char) : c ∉ (partition c text).1 := by
  rcases partition_cases c text with ⟨h, heq⟩ | ⟨before, after, -, h, heq⟩
  · rwa [heq]
  · rwa [heq]

theorem mem_of_partition {c x : Char} {text : List Char}
    (h : x ∈ (partition c text).1 ∨ x ∈ (partition c text).2.2) : x ∈ text := by
  rcases partition_cases c text with ⟨-, heq⟩ | ⟨before, after, rfl, -, heq⟩
  · rw [heq] at h
    simpa using h
  · rw [heq] at h
    simp only [List.mem_append, List.mem_cons]
    tauto

/-- What is cut at a delimiter and what follows it are put back with the delimiter. -/
theorem partition_rejoin {c : Char} {before : List Char} (h : c ∉ before) (after : List Char) :
    ((partition c (before ++ if after ≠ [] then c :: after else [])).1,
      (partition c (before ++ if after ≠ [] then c :: after else [])).2.2) = (before, after) := by
  by_cases hafter : after = []
  · rw [if_neg (not_not.mpr hafter), List.append_nil, partition_notMem h, hafter]
  · rw [if_pos hafter, partition_append h]

end Cutting
