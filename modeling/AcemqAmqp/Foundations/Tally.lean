import AcemqAmqp.Foundations.Dict
import Mathlib.Data.Multiset.AddSub

/-!
# Counters

A dictionary that counts how often a key is held, and forgets a key that is
held no longer.  It stands for the multiset of what is held.
-/

namespace Dict

variable {α : Type} [DecidableEq α] {d : Dict α ℤ} {m : Multiset α} {a b : α}

/-- `counter[a]`. -/
def tally (d : Dict α ℤ) (a : α) : ℤ := (d.get? a).getD 0

/-- `counter[a] += 1`. -/
def tallied (d : Dict α ℤ) (a : α) : Dict α ℤ := d.set a (d.tally a + 1)

/-- `counter[a] -= 1`, and `del counter[a]` when nothing is left. -/
def untallied (d : Dict α ℤ) (a : α) : Dict α ℤ :=
  if d.tally a - 1 ≤ 0 then (d.set a (d.tally a - 1)).erase a else d.set a (d.tally a - 1)

/-- The counter counts what is held, and nothing else. -/
def Tallies (d : Dict α ℤ) (m : Multiset α) : Prop :=
  ∀ a, d.get? a = if a ∈ m then some (m.count a : ℤ) else none

theorem tallies_empty : Tallies (∅ : Dict α ℤ) 0 := fun a ↦ by simp

theorem Tallies.mem_iff (h : d.Tallies m) : a ∈ d ↔ a ∈ m := by
  rw [mem_iff_get?, h a]
  split <;> simp_all

theorem Tallies.tally (h : d.Tallies m) (a : α) : d.tally a = m.count a := by
  rw [Dict.tally, h a]
  split
  · rfl
  · rename_i hnot
    rw [Multiset.count_eq_zero_of_notMem hnot]
    rfl

theorem Tallies.tallied (h : d.Tallies m) (a : α) : (d.tallied a).Tallies (a ::ₘ m) := by
  intro b
  rw [Dict.tallied, get?_set, h.tally]
  by_cases hb : b = a
  · subst hb
    simp
  · rw [if_neg hb, h b, Multiset.count_cons_of_ne hb]
    simp [hb]

theorem Tallies.untallied (h : d.Tallies m) (ha : a ∈ m) : (d.untallied a).Tallies (m.erase a) := by
  have hpos : 0 < m.count a := Multiset.count_pos.mpr ha
  intro b
  by_cases hb : b = a
  · subst hb
    have hcount := Multiset.count_erase_self b m
    rw [Dict.untallied, h.tally]
    split
    · rename_i hlast
      have hgone : b ∉ m.erase b := by
        rw [← Multiset.count_eq_zero]
        omega
      rw [get?_erase, if_pos rfl, if_neg hgone]
    · rename_i hleft
      have hkept : b ∈ m.erase b := by
        rw [← Multiset.count_pos]
        omega
      rw [get?_set_self, if_pos hkept, hcount]
      congr 1
      omega
  · have hsame : (d.untallied a).get? b = d.get? b := by
      rw [Dict.untallied]
      split
      · rw [get?_erase, if_neg hb, get?_set_ne hb]
      · exact get?_set_ne hb
    rw [hsame, h b]
    simp only [Multiset.count_erase_of_ne hb, Multiset.mem_erase_of_ne hb]

end Dict
