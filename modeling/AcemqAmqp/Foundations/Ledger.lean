import Mathlib.Data.List.Nodup
import Mathlib.Data.List.Range

/-!
# Ledgers

A ledger has entries that fall into groups.  An entry is made once and for ever, and
gets two numbers that count from one: its identifier among all entries, and its
version within its group.
-/

variable {α γ : Type}

structure Ledger (α : Type) where
  entries : List α
  nodup : entries.Nodup

namespace Ledger

def empty : Ledger α := ⟨[], List.nodup_nil⟩

variable [DecidableEq α] [DecidableEq γ] (group : α → γ) (l : Ledger α) {a b : α} {g : γ}

def identifier (a : α) : ℕ := l.entries.idxOf a + 1

/-- How many entries a group has. -/
def size (g : γ) : ℕ := l.entries.countP fun a ↦ group a = g

def version (a : α) : ℕ := (l.entries.take (l.identifier a)).countP fun b ↦ group b = group a

def enter (a : α) : Ledger α :=
  if ha : a ∈ l.entries then l
  else ⟨l.entries ++ [a], List.nodup_append.mpr ⟨l.nodup, List.nodup_singleton a, by
    rintro b hb c hc rfl
    exact ha (List.mem_singleton.mp hc ▸ hb)⟩⟩

variable {l group}

theorem enter_of_mem (ha : a ∈ l.entries) : l.enter a = l := dif_pos ha

theorem entries_enter (ha : a ∉ l.entries) : (l.enter a).entries = l.entries ++ [a] := by
  rw [enter, dif_neg ha]

theorem mem_enter : b ∈ (l.enter a).entries ↔ b ∈ l.entries ∨ b = a := by
  by_cases ha : a ∈ l.entries
  · rw [enter_of_mem ha]
    exact ⟨.inl, fun h ↦ h.elim id fun hb ↦ hb ▸ ha⟩
  · rw [entries_enter ha, List.mem_append, List.mem_singleton]

theorem identifier_inj (ha : a ∈ l.entries) : l.identifier a = l.identifier b ↔ a = b := by
  rw [identifier, identifier, Nat.add_right_cancel_iff, List.idxOf_inj ha]

/-- What has been entered keeps its numbers. -/
theorem identifier_enter_of_mem (hb : b ∈ l.entries) : (l.enter a).identifier b = l.identifier b := by
  by_cases ha : a ∈ l.entries
  · rw [enter_of_mem ha]
  · rw [identifier, entries_enter ha, List.idxOf_append_of_mem hb, identifier]

theorem version_enter_of_mem (hb : b ∈ l.entries) :
    (l.enter a).version group b = l.version group b := by
  by_cases ha : a ∈ l.entries
  · rw [enter_of_mem ha]
  · have hlength : l.identifier b ≤ l.entries.length := List.idxOf_lt_length_of_mem hb
    rw [version, identifier_enter_of_mem hb, entries_enter ha, List.take_append_of_le_length hlength, version]

theorem identifier_enter_self (ha : a ∉ l.entries) : (l.enter a).identifier a = l.entries.length + 1 := by
  rw [identifier, entries_enter ha, List.idxOf_append_of_notMem ha, List.idxOf_cons_self, Nat.add_zero]

theorem version_enter_self (ha : a ∉ l.entries) :
    (l.enter a).version group a = l.size group (group a) + 1 := by
  have hall : (l.entries ++ [a]).take (l.entries.length + 1) = l.entries ++ [a] :=
    List.take_of_length_le (by rw [List.length_append, List.length_singleton])
  rw [version, identifier_enter_self ha, entries_enter ha, hall, List.countP_append]
  simp [size]

theorem size_enter (ha : a ∉ l.entries) :
    (l.enter a).size group g = l.size group g + if group a = g then 1 else 0 := by
  rw [size, entries_enter ha, List.countP_append, List.countP_singleton, size]
  simp

/-- Ledgers are made by entering one entry after the other. -/
theorem induction {P : Ledger α → Prop} (hempty : P empty)
    (henter : ∀ (l : Ledger α) (a : α), a ∉ l.entries → P l → P (l.enter a)) (l : Ledger α) : P l := by
  obtain ⟨entries, hnodup⟩ := l
  induction entries using List.reverseRecOn with
  | nil => exact hempty
  | append_singleton entries a ih =>
      obtain ⟨hold, -, hnew⟩ := List.nodup_append.mp hnodup
      have ha : a ∉ entries := fun hmem ↦ hnew a hmem a (List.mem_singleton_self a) rfl
      have hlast : (⟨entries, hold⟩ : Ledger α).enter a = ⟨entries ++ [a], hnodup⟩ := dif_neg ha
      exact hlast ▸ henter ⟨entries, hold⟩ a ha (ih hold)

/-- The identifiers are the numbers from one on. -/
theorem map_identifier (l : Ledger α) : l.entries.map l.identifier = List.range' 1 l.entries.length := by
  induction l using induction with
  | hempty => rfl
  | henter l a ha ih =>
      have hold : l.entries.map (l.enter a).identifier = l.entries.map l.identifier :=
        List.map_congr_left fun b hb ↦ identifier_enter_of_mem hb
      rw [entries_enter ha, List.map_append, hold, ih, List.map_singleton, identifier_enter_self ha,
        List.length_append, List.length_singleton, List.range'_1_concat, Nat.add_comm 1]

/-- So are the versions of a group, in the order of the identifiers. -/
theorem map_version (l : Ledger α) (g : γ) :
    (l.entries.filter fun a ↦ group a = g).map (l.version group) = List.range' 1 (l.size group g) := by
  induction l using induction with
  | hempty => rfl
  | henter l a ha ih =>
      have hold : (l.entries.filter fun a ↦ group a = g).map ((l.enter a).version group) =
          (l.entries.filter fun a ↦ group a = g).map (l.version group) :=
        List.map_congr_left fun b hb ↦ version_enter_of_mem (List.mem_of_mem_filter hb)
      rw [size_enter ha, entries_enter ha, List.filter_append, List.map_append, hold, ih]
      by_cases hg : group a = g
      · rw [List.filter_singleton, if_pos hg, decide_eq_true hg, cond_true, List.map_singleton,
          version_enter_self ha, hg, List.range'_1_concat, Nat.add_comm 1]
      · simp [hg]

def enterAll (l : Ledger α) (as : List α) : Ledger α := as.foldl enter l

theorem enterAll_append (as bs : List α) : l.enterAll (as ++ bs) = (l.enterAll as).enterAll bs :=
  List.foldl_append ..

theorem enterAll_of_mem {as : List α} (h : ∀ a ∈ as, a ∈ l.entries) : l.enterAll as = l := by
  induction as with
  | nil => rfl
  | cons a as ih =>
      obtain ⟨ha, has⟩ := List.forall_mem_cons.mp h
      calc l.enterAll (a :: as) = (l.enter a).enterAll as := rfl
        _ = l.enterAll as := by rw [enter_of_mem ha]
        _ = l := ih has

/-- A ledger is what its entries make of an empty one. -/
theorem enterAll_entries (l : Ledger α) : empty.enterAll l.entries = l := by
  induction l using induction with
  | hempty => rfl
  | henter l a ha ih =>
      rw [entries_enter ha, enterAll_append, ih]
      rfl

theorem identifier_enterAll {as : List α} (hb : b ∈ l.entries) :
    (l.enterAll as).identifier b = l.identifier b := by
  induction as generalizing l with
  | nil => rfl
  | cons a as ih => exact (ih (mem_enter.mpr (.inl hb))).trans (identifier_enter_of_mem hb)

theorem version_enterAll {as : List α} (hb : b ∈ l.entries) :
    (l.enterAll as).version group b = l.version group b := by
  induction as generalizing l with
  | nil => rfl
  | cons a as ih => exact (ih (mem_enter.mpr (.inl hb))).trans (version_enter_of_mem hb)

end Ledger
