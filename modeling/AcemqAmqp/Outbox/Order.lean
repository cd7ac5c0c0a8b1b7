import Mathlib.Data.List.Perm.Basic
import Mathlib.Data.Prod.Lex
import Mathlib.Data.String.Basic
import AcemqAmqp.Foundations.Sorting
import AcemqAmqp.Outbox.InMemory

/-!
# The order records are offered in

The same calls leave the same records in both stores.  In memory they are offered
by their instants, and as they were written where these are equal; in the database
by their milliseconds, and by their identifiers where these are equal.
-/

namespace AcemqAmqp

namespace Outbox

open Fallible

/-- The row of a record that is held in memory under its key. -/
structure Copies (item : String × OutboxRecord) (row : Row) : Prop where
  key : item.2.id = item.1
  id : row.id = item.1
  exchange : row.exchangeName = item.2.exchange
  routingKey : row.routingKey = item.2.routingKey
  body : row.body = item.2.body
  contentType : row.contentType = item.2.contentType
  headers : loadsHeaders row.headers = item.2.headers
  createdAt : row.createdAt = asMs item.2.createdAt
  attempts : row.attempts = item.2.attempts

/-- The same records, in the order they were added. -/
def Same (store : InMemoryOutboxStore) (table : List Row) : Prop := List.Forall₂ Copies store.records.items table

/-- What the same calls make of the two stores.  Records are added as `record` makes them, with
nothing counted against them, and every transaction commits. -/
inductive Alongside (sql : SqlOutboxStore) : InMemoryOutboxStore → List Row → Prop
  | unused : Alongside sql ⟨sql.maxAttempts, sql.one_le_maxAttempts, ∅⟩ []
  | add {store store' : InMemoryOutboxStore} {table table' : List Row} {entry : OutboxRecord} :
      Alongside sql store table → entry.attempts = 0 → store.add entry = .ok store' →
      sql.add entry table = .ok table' → Alongside sql store' table'
  | markPublished {store : InMemoryOutboxStore} {table : List Row} (entryId : String) :
      Alongside sql store table → Alongside sql (store.markPublished entryId) (sql.markPublished entryId table)
  | recordFailure {store : InMemoryOutboxStore} {table : List Row} (entryId error : String) :
      Alongside sql store table →
      Alongside sql (store.recordFailure entryId error) (sql.recordFailure entryId error table)

variable {sql : SqlOutboxStore} {store store' : InMemoryOutboxStore} {table table' : List Row}
  {entry : OutboxRecord} {entryId error : String}

/-! ## What one call keeps -/

theorem forall₂_mem {α β : Type} {R : α → β → Prop} {l : List α} {m : List β} (h : List.Forall₂ R l m) :
    List.Forall₂ (fun a b ↦ a ∈ l ∧ R a b) l m := by
  induction h with
  | nil => exact .nil
  | cons hab _ ih => exact .cons ⟨List.mem_cons_self, hab⟩ (ih.imp fun _ _ h ↦ ⟨List.mem_cons_of_mem _ h.1, h.2⟩)

theorem Same.keys (h : Same store table) : table.map Row.id = store.records.keys := by
  have hids : List.Forall₂ (· = ·) (table.map Row.id) store.records.keys :=
    List.forall₂_map_left_iff.mpr (List.forall₂_map_right_iff.mpr (h.imp fun _ _ hcopies ↦ hcopies.id).flip)
  rwa [List.forall₂_eq_eq_eq] at hids

theorem Same.nodup (h : Same store table) : (table.map Row.id).Nodup := h.keys ▸ store.records.nodup

theorem Same.add (h : Same store table) (hattempts : entry.attempts = 0) (hstore : store.add entry = .ok store')
    (htable : sql.add entry table = .ok table') : Same store' table' := by
  obtain ⟨hid, headers, hheaders, rfl⟩ := (SqlOutboxStore.add_ok_iff _).mp htable
  rw [InMemoryOutboxStore.add, if_neg hid] at hstore
  obtain rfl := Except.ok.inj hstore
  have hmem : entry.id ∈ table.map Row.id ↔ entry.id ∈ store.records := by
    rw [h.keys]
    rfl
  rw [Same, Dict.setDefault]
  by_cases hheld : entry.id ∈ store.records
  · rw [if_pos hheld, if_pos (hmem.mpr hheld)]
    exact h
  · rw [if_neg hheld, if_neg (mt hmem.mp hheld), Dict.items_set_of_notMem hheld]
    refine List.rel_append h (.cons ?_ .nil)
    exact ⟨rfl, rfl, rfl, rfl, rfl, rfl, loadsHeaders_of_dumps hheaders, rfl, hattempts.symm⟩

theorem Same.markPublished (h : Same store table) :
    Same (store.markPublished entryId) (sql.markPublished entryId table) := by
  refine List.rel_filter (fun item row hcopies ↦ ?_) h
  change decide (item.1 ≠ entryId) = true ↔ decide (row.id ≠ entryId) = true
  rw [hcopies.id]

theorem Same.recordFailure (h : Same store table) :
    Same (store.recordFailure entryId error) (sql.recordFailure entryId error table) := by
  rw [InMemoryOutboxStore.recordFailure]
  cases hget : store.records.get? entryId with
  | none =>
      have hother : ∀ row ∈ table, row.id ≠ entryId := by
        rintro row hrow rfl
        have hmem : row.id ∈ store.records.keys := h.keys ▸ List.mem_map_of_mem hrow
        exact Dict.get?_eq_none_iff.mp hget hmem
      have hsame : sql.recordFailure entryId error table = table :=
        (List.map_congr_left fun row hrow ↦ if_neg (hother row hrow)).trans (List.map_id _)
      rw [hsame]
      exact h
  | some entry =>
      have hheld : entryId ∈ store.records := Dict.mem_iff_get?.mpr ⟨entry, hget⟩
      have hitems : ∀ item ∈ store.records.items, item.1 = entryId → item.2 = entry := by
        rintro ⟨_, item⟩ hitem rfl
        exact Option.some.inj ((Dict.mem_items_iff.mp hitem).symm.trans hget)
      rw [Same, Dict.items_set_of_mem hheld, SqlOutboxStore.recordFailure]
      refine List.forall₂_map_left_iff.mpr (List.forall₂_map_right_iff.mpr ?_)
      refine (forall₂_mem h).imp fun item row ⟨hitem, hcopies⟩ ↦ ?_
      by_cases hkey : item.1 = entryId
      · rw [if_pos hkey, if_pos (hcopies.id.trans hkey), ← hitems item hitem hkey]
        exact { hcopies with
          key := hcopies.key.trans hkey
          id := hcopies.id.trans hkey
          attempts := congrArg (· + 1) hcopies.attempts }
      · rw [if_neg hkey, if_neg (hcopies.id.trans_ne hkey)]
        exact hcopies

theorem Alongside.same (h : Alongside sql store table) : Same store table ∧ store.maxAttempts = sql.maxAttempts := by
  induction h with
  | unused => exact ⟨.nil, rfl⟩
  | add _ hattempts hstore htable ih =>
      refine ⟨ih.1.add hattempts hstore htable, ?_⟩
      rw [InMemoryOutboxStore.add] at hstore
      split at hstore
      · cases hstore
      · obtain rfl := Except.ok.inj hstore
        exact ih.2
  | markPublished entryId _ ih => exact ⟨ih.1.markPublished, ih.2⟩
  | recordFailure entryId error _ ih =>
      refine ⟨ih.1.recordFailure, ?_⟩
      rw [InMemoryOutboxStore.recordFailure]
      split
      · exact ih.2
      · exact ih.2

/-! ## What is offered -/

/-- What the database sorts a record by. -/
def OutboxRecord.key (entry : OutboxRecord) : ℤ ×ₗ String := toLex (asMs entry.createdAt, entry.id)

def Row.key (row : Row) : ℤ ×ₗ String := toLex (row.createdAt, row.id)

theorem Row.before_iff {row row' : Row} : row.before row' ↔ row.key ≤ row'.key :=
  (@Prod.Lex.toLex_le_toLex _ _ _ _ (row.createdAt, row.id) (row'.createdAt, row'.id)).symm

instance : Std.Total OutboxRecord.earlier := ⟨fun entry entry' ↦ le_total entry.createdAt entry'.createdAt⟩

instance : IsTrans OutboxRecord OutboxRecord.earlier := ⟨fun _ _ _ ↦ le_trans⟩

/-- At most how many of so many are offered. -/
def allowed (limit : ℤ) (count : ℕ) : ℕ := if 0 < limit then limit.toNat else count

theorem ite_take {α : Type} {l : List α} {limit : ℤ} {count : ℕ} (h : l.length ≤ count) :
    (if 0 < limit then l.take limit.toNat else l) = l.take (allowed limit count) := by
  rw [allowed]
  split
  · rfl
  · exact (List.take_of_length_le h).symm

namespace InMemoryOutboxStore

variable (store)

/-- The records that may be offered, as they were added. -/
def offered : List OutboxRecord := store.records.values.filter (·.attempts < store.maxAttempts)

theorem pending_eq (limit : ℤ) :
    store.pending limit =
      (store.offered.insertionSort OutboxRecord.earlier).take (allowed limit store.offered.length) :=
  ite_take (List.length_insertionSort _ _).le

/-- Records are offered by their instants, and those of one instant as they were added. -/
theorem pending_written : (store.pending 0).Pairwise OutboxRecord.earlier ∧
    ∀ t, (store.pending 0).filter (·.createdAt = t) = store.offered.filter (·.createdAt = t) := by
  refine ⟨List.pairwise_insertionSort _ _, fun t ↦ ?_⟩
  change (store.offered.insertionSort OutboxRecord.earlier).filter _ = _
  rw [Sorting.filter_insertionSort]
  refine List.Pairwise.insertionSort_eq (List.pairwise_of_forall_mem_list fun entry hentry entry' hentry' ↦ ?_)
  have heq : entry.createdAt = t := of_decide_eq_true (List.mem_filter.mp hentry).2
  have heq' : entry'.createdAt = t := of_decide_eq_true (List.mem_filter.mp hentry').2
  exact (heq.trans heq'.symm).le

end InMemoryOutboxStore

theorem Copies.keys {item : String × OutboxRecord} {row : Row} (h : Copies item row) : row.key = item.2.key := by
  rw [Row.key, OutboxRecord.key, h.createdAt, h.id, h.key]

/-- Rows that are offered have the keys of the records that are offered in memory. -/
theorem Alongside.keys (h : Alongside sql store table) :
    (table.filter (·.attempts < sql.maxAttempts)).map Row.key = store.offered.map OutboxRecord.key := by
  obtain ⟨hsame, hmax⟩ := h.same
  have hoffered : List.Forall₂ Copies (store.records.items.filter (·.2.attempts < store.maxAttempts))
      (table.filter (·.attempts < sql.maxAttempts)) := by
    refine List.rel_filter (fun item row hcopies ↦ ?_) hsame
    change decide (item.2.attempts < store.maxAttempts) = true ↔ decide (row.attempts < sql.maxAttempts) = true
    rw [hcopies.attempts, hmax]
  have hkeys : List.Forall₂ (· = ·) ((table.filter (·.attempts < sql.maxAttempts)).map Row.key)
      ((store.records.items.filter (·.2.attempts < store.maxAttempts)).map fun item ↦ item.2.key) := by
    exact List.forall₂_map_left_iff.mpr (List.forall₂_map_right_iff.mpr (hoffered.imp fun _ _ ↦ Copies.keys).flip)
  rw [List.forall₂_eq_eq_eq] at hkeys
  rw [hkeys, InMemoryOutboxStore.offered, Dict.values, List.filter_map, List.map_map]
  rfl

/-- Records of one millisecond are in the order of their identifiers: those that are offered among
themselves, and they before the others. -/
def ByIds (limit : ℤ) (written : List OutboxRecord) : Prop :=
  let n := allowed limit written.length
  (written.take n).Pairwise (fun entry entry' ↦ asMs entry.createdAt = asMs entry'.createdAt → entry.id ≤ entry'.id) ∧
    ∀ entry ∈ written.take n, ∀ entry' ∈ written.drop n,
      asMs entry.createdAt = asMs entry'.createdAt → entry.id ≤ entry'.id

theorem asMs_mono {when_ later : Instant} (h : when_ ≤ later) : asMs when_ ≤ asMs later := by
  refine Binary64.truncate_mono (Binary64.binary64_mono ?_)
  exact mul_le_mul_of_nonneg_right (Instant.timestamp_mono h) (by norm_num)

theorem key_le_iff {entry entry' : OutboxRecord} (h : entry.earlier entry') :
    entry.key ≤ entry'.key ↔ (asMs entry.createdAt = asMs entry'.createdAt → entry.id ≤ entry'.id) := by
  refine Prod.Lex.toLex_le_toLex'.trans ⟨fun hle ↦ hle.2, fun hids ↦ ⟨asMs_mono h, hids⟩⟩

/-- The keys of records in the order they were written are sorted when their identifiers are. -/
theorem byIds_iff {limit : ℤ} {written : List OutboxRecord} (h : written.Pairwise OutboxRecord.earlier) :
    ByIds limit written ↔
      ((written.map OutboxRecord.key).take (allowed limit written.length)).Pairwise (· ≤ ·) ∧
        ∀ k ∈ (written.map OutboxRecord.key).take (allowed limit written.length),
          ∀ k' ∈ (written.map OutboxRecord.key).drop (allowed limit written.length), k ≤ k' := by
  have hsplit := h
  rw [← List.take_append_drop (allowed limit written.length) written, List.pairwise_append] at hsplit
  obtain ⟨hfront, -, hcross⟩ := hsplit
  rw [← List.map_take, ← List.map_drop, List.pairwise_map, List.forall_mem_map]
  refine and_congr ⟨fun hpair ↦ ?_, fun hpair ↦ ?_⟩ ?_
  · exact hfront.imp₂ (fun _ _ hearlier ↦ (key_le_iff hearlier).mpr) hpair
  · exact hfront.imp₂ (fun _ _ hearlier ↦ (key_le_iff hearlier).mp) hpair
  · refine forall₂_congr fun entry hentry ↦ ?_
    rw [List.forall_mem_map]
    exact forall₂_congr fun entry' hentry' ↦ (key_le_iff (hcross entry hentry entry' hentry')).symm

theorem eq_of_map_eq {α β : Type} {f : α → β} {l l' m : List α} (hf : ∀ a ∈ m, ∀ b ∈ m, f a = f b → a = b)
    (hl : ∀ a ∈ l, a ∈ m) (hl' : ∀ a ∈ l', a ∈ m) (h : l.map f = l'.map f) : l = l' := by
  induction l generalizing l' with
  | nil => exact (List.map_eq_nil_iff.mp h.symm).symm
  | cons a l ih =>
      cases l' with
      | nil => cases h
      | cons b l' =>
          rw [List.forall_mem_cons] at hl hl'
          obtain ⟨hab, hrest⟩ := List.cons.inj h
          rw [hf a hl.1 b hl'.1 hab, ih hl.2 hl'.2 hrest]

/-- The rows that are offered, in the order of their keys. -/
theorem SqlOutboxStore.keys_waiting (sql : SqlOutboxStore) (limit : ℤ) (table : List Row) :
    (sql.waiting limit table).map Row.key =
      (((table.filter (·.attempts < sql.maxAttempts)).map Row.key).insertionSort (· ≤ ·)).take
        (allowed limit (table.filter (·.attempts < sql.maxAttempts)).length) := by
  have hsort : ((table.filter (·.attempts < sql.maxAttempts)).insertionSort Row.before).map Row.key =
      ((table.filter (·.attempts < sql.maxAttempts)).map Row.key).insertionSort (· ≤ ·) :=
    List.map_insertionSort _ _ _ _ fun _ _ _ _ ↦ Row.before_iff
  rw [← hsort, ← List.map_take]
  exact congrArg _ (ite_take (List.length_insertionSort _ _).le)

theorem ids_of_pending {limit : ℤ} {records : List OutboxRecord} (hpending : sql.pending limit table = .ok records) :
    records.map OutboxRecord.id = ((sql.waiting limit table).map Row.key).map fun key ↦ (ofLex key).2 := by
  have hids : List.Forall₂ (· = ·) ((sql.waiting limit table).map Row.id) (records.map OutboxRecord.id) := by
    refine List.forall₂_map_left_iff.mpr (List.forall₂_map_right_iff.mpr ((mapM_ok_iff.mp hpending).imp ?_))
    intro row entry hread
    obtain ⟨createdAt, -, rfl⟩ := recordFrom_ok_iff.mp hread
    rfl
  rw [List.forall₂_eq_eq_eq] at hids
  rw [← hids, List.map_map]
  rfl

/-- After the same calls both stores offer the same identifiers in the same order exactly when the
records of one millisecond were written in the order of their identifiers. -/
theorem pending_same_order_iff (h : Alongside sql store table) {limit : ℤ} {records : List OutboxRecord}
    (hpending : sql.pending limit table = .ok records) :
    records.map OutboxRecord.id = (store.pending limit).map OutboxRecord.id ↔ ByIds limit (store.pending 0) := by
  set keys := store.offered.map OutboxRecord.key with hkeys
  have hwritten : store.pending 0 = store.offered.insertionSort OutboxRecord.earlier := rfl
  have hlength : (store.pending 0).length = store.offered.length := List.length_insertionSort _ _
  have hperm : ((store.pending 0).map OutboxRecord.key).Perm keys := (List.perm_insertionSort _ _).map _
  have hrows : (sql.waiting limit table).map Row.key =
      (keys.insertionSort (· ≤ ·)).take (allowed limit store.offered.length) := by
    rw [sql.keys_waiting, h.keys, ← List.length_map Row.key, h.keys, List.length_map]
  have hmemory : (store.pending limit).map OutboxRecord.id =
      (((store.pending 0).map OutboxRecord.key).take (allowed limit store.offered.length)).map
        fun key ↦ (ofLex key).2 := by
    rw [store.pending_eq, ← hwritten, ← List.map_take, List.map_map]
    rfl
  -- no two keys have one identifier
  have hinj : ∀ k ∈ keys, ∀ k' ∈ keys, (ofLex k).2 = (ofLex k').2 → k = k' := by
    have hnodup : (keys.map fun key ↦ (ofLex key).2).Nodup := by
      rw [hkeys, ← h.keys, List.map_map]
      exact h.same.1.nodup.sublist (List.filter_sublist.map _)
    exact fun k hk k' hk' ↦ List.inj_on_of_nodup_map hnodup hk hk'
  rw [ids_of_pending hpending, hrows, hmemory, byIds_iff store.pending_written.1, hlength,
    ← Sorting.take_insertionSort_eq_iff hperm fun _ _ _ _ ↦ le_antisymm]
  refine ⟨fun hids ↦ eq_of_map_eq hinj (fun k hk ↦ ?_) (fun k hk ↦ ?_) hids, congrArg _⟩
  · exact (List.mem_insertionSort _).mp (List.mem_of_mem_take hk)
  · exact hperm.mem_iff.mp (List.mem_of_mem_take hk)

/-! ## Two records of one instant -/

def tenTimes : SqlOutboxStore := ⟨10, by decide⟩

def early (id : String) : OutboxRecord := ⟨id, "", "orders", [], "", ∅, 0, 0, ""⟩

def earlyRow (id : String) : Row := ⟨id, "", "orders", [], "", [], asMs 0, 0, none⟩

theorem alongside_early : Alongside tenTimes
    ⟨10, by decide, ((∅ : Dict String OutboxRecord).set "b" (early "b")).set "a" (early "a")⟩
    [earlyRow "b", earlyRow "a"] := by
  have hone : Alongside tenTimes ⟨10, by decide, (∅ : Dict String OutboxRecord).set "b" (early "b")⟩ [earlyRow "b"] :=
    @Alongside.add _ _ _ _ _ (early "b") .unused rfl rfl rfl
  exact @Alongside.add _ _ _ _ _ (early "a") hone rfl rfl rfl

/-- The later of the two has the smaller identifier, and the database offers it first. -/
theorem pending_same_order_early : ∃ store table records, Alongside tenTimes store table ∧
    tenTimes.pending 0 table = .ok records ∧
      records.map OutboxRecord.id ≠ (store.pending 0).map OutboxRecord.id := by
  obtain ⟨when_, hmillis, -⟩ := @timely_of_abs_lt 0 (by decide)
  have hread : ∀ row ∈ tenTimes.waiting 0 [earlyRow "b", earlyRow "a"], ∃ entry, recordFrom row = .ok entry := by
    intro row hrow
    have hheld := ((SqlOutboxStore.mem_waiting _ (.inl le_rfl)).mp hrow).1
    rw [List.mem_cons, List.mem_singleton] at hheld
    obtain rfl | rfl := hheld
    · exact ⟨_, recordFrom_ok_iff.mpr ⟨when_, hmillis, rfl⟩⟩
    · exact ⟨_, recordFrom_ok_iff.mpr ⟨when_, hmillis, rfl⟩⟩
  obtain ⟨records, hpending⟩ := mapM_isOk_iff.mpr hread
  refine ⟨_, _, records, alongside_early, hpending, fun hsame ↦ ?_⟩
  have hids := ((pending_same_order_iff alongside_early hpending).mp hsame).1
  have hwrong : ("b" : String) ≤ "a" := (List.pairwise_cons.mp hids).1 (early "a") List.mem_cons_self rfl
  revert hwrong
  decide

end Outbox

end AcemqAmqp
