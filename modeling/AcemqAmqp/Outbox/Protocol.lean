import AcemqAmqp.Outbox.Order
import AcemqAmqp.Outbox.Relay

/-!
# What a relay asks of its store

`OutboxStore`: a queue of records, whichever store keeps them.  The dictionary in
memory and the table in a database are two such stores.
-/

namespace AcemqAmqp

namespace Outbox

/-- What a sweep knows of a record that waits. -/
structure Queued where
  target : String × String × Outbound
  attempts : ℕ

def Queued.id (entry : Queued) : String := entry.target.2.2.messageId

def OutboxRecord.queued (entry : OutboxRecord) : Queued := ⟨entry.target, entry.attempts⟩

/-- The failure of one record is counted. -/
def Queued.failed (entryId : String) (entry : Queued) : Queued :=
  if entry.id = entryId then { entry with attempts := entry.attempts + 1 } else entry

/-- `OutboxStore`, its `record_failure` among them, and what both stores have in common: they offer a
queue, the first of it when a limit is given; a record that failed too often leaves it, and so does
one that was published. -/
structure OutboxStore (σ : Type) where
  maxAttempts : ℕ
  pending : ℤ → σ → Except Failure (List OutboxRecord)
  recordFailure : String → String → σ → σ
  markPublished : String → σ → σ
  nodup : ∀ s waiting, pending 0 s = .ok waiting → (waiting.map OutboxRecord.id).Nodup
  offered : ∀ s waiting, pending 0 s = .ok waiting → ∀ entry ∈ waiting, entry.attempts < maxAttempts
  limited : ∀ s waiting limit, pending 0 s = .ok waiting →
    pending limit s = .ok (waiting.take (allowed limit waiting.length))
  failed : ∀ s waiting entryId error, pending 0 s = .ok waiting →
    ∃ waiting', pending 0 (recordFailure entryId error s) = .ok waiting' ∧
      waiting'.map OutboxRecord.queued =
        ((waiting.map OutboxRecord.queued).map (Queued.failed entryId)).filter (·.attempts < maxAttempts)
  marked : ∀ s waiting entryId, pending 0 s = .ok waiting →
    pending 0 (markPublished entryId s) = .ok (waiting.filter (·.id ≠ entryId))

/-! ## The store in memory -/

/-- An `InMemoryOutboxStore` as its methods leave it: each record is under its identifier. -/
structure Held (maxAttempts : ℕ) where
  store : InMemoryOutboxStore
  maxAttempts_eq : store.maxAttempts = maxAttempts
  keys : ∀ item ∈ store.records.items, item.2.id = item.1

/-- A failure is counted against the record. -/
def OutboxRecord.failed (entryId error : String) (entry : OutboxRecord) : OutboxRecord :=
  if entry.id = entryId then { entry with attempts := entry.attempts + 1, lastError := error } else entry

namespace InMemoryOutboxStore

variable {store : InMemoryOutboxStore}

theorem maxAttempts_recordFailure (entryId error : String) :
    (store.recordFailure entryId error).maxAttempts = store.maxAttempts := by
  rw [recordFailure]
  split
  · rfl
  · rfl

theorem items_recordFailure (hkeys : ∀ item ∈ store.records.items, item.2.id = item.1) (entryId error : String) :
    (store.recordFailure entryId error).records.items =
      store.records.items.map fun item ↦ (item.1, item.2.failed entryId error) := by
  rw [recordFailure]
  cases hget : store.records.get? entryId with
  | none =>
      refine ((List.map_congr_left fun item hitem ↦ ?_).trans (List.map_id _)).symm
      have hother : item.2.id ≠ entryId := by
        rintro rfl
        apply Dict.get?_eq_none_iff.mp hget
        rw [hkeys item hitem]
        exact List.mem_map_of_mem hitem
      rw [OutboxRecord.failed, if_neg hother, id_eq]
  | some entry =>
      have hheld : entryId ∈ store.records := Dict.mem_iff_get?.mpr ⟨entry, hget⟩
      rw [Dict.items_set_of_mem hheld]
      refine List.map_congr_left fun item hitem ↦ ?_
      have hid := hkeys item hitem
      by_cases hkey : item.1 = entryId
      · have hentry : item.2 = entry := by
          rw [← hkey] at hget
          exact Option.some.inj ((Dict.mem_items_iff.mp hitem).symm.trans hget)
        rw [OutboxRecord.failed, if_pos hkey, if_pos (hid.trans hkey), hentry, hkey]
      · rw [OutboxRecord.failed, if_neg hkey, if_neg (hid.trans_ne hkey)]

end InMemoryOutboxStore

theorem OutboxRecord.queued_failed {entryId error : String} (entry : OutboxRecord) :
    (entry.failed entryId error).queued = entry.queued.failed entryId := by
  have hid : entry.queued.id = entry.id := rfl
  rw [OutboxRecord.failed, Queued.failed, hid]
  split
  · rfl
  · rfl

/-- A queue of which one record has failed. -/
theorem queued_failed {maxAttempts : ℕ} {entryId error : String} (waiting : List OutboxRecord) :
    ((waiting.map (OutboxRecord.failed entryId error)).filter (·.attempts < maxAttempts)).map OutboxRecord.queued =
      ((waiting.map OutboxRecord.queued).map (Queued.failed entryId)).filter (·.attempts < maxAttempts) := by
  have hsame : Queued.failed entryId ∘ OutboxRecord.queued = OutboxRecord.queued ∘ OutboxRecord.failed entryId error :=
    funext fun entry ↦ entry.queued_failed.symm
  rw [List.map_map, hsame, ← List.map_map, List.filter_map (f := OutboxRecord.queued)]
  rfl

theorem OutboxRecord.le_attempts_failed {entryId error : String} (entry : OutboxRecord) :
    entry.attempts ≤ (entry.failed entryId error).attempts := by
  rw [OutboxRecord.failed]
  split
  · exact Nat.le_succ _
  · exact le_rfl

theorem OutboxRecord.createdAt_failed {entryId error : String} (entry : OutboxRecord) :
    (entry.failed entryId error).createdAt = entry.createdAt := by
  rw [OutboxRecord.failed]
  split
  · rfl
  · rfl

namespace InMemoryOutboxStore

variable {store : InMemoryOutboxStore}

theorem nodup_pending (hkeys : ∀ item ∈ store.records.items, item.2.id = item.1) :
    ((store.pending 0).map OutboxRecord.id).Nodup := by
  have hids : store.records.values.map OutboxRecord.id = store.records.keys := by
    rw [Dict.values, List.map_map]
    exact List.map_congr_left hkeys
  have hperm : ((store.pending 0).map OutboxRecord.id).Perm (store.offered.map OutboxRecord.id) :=
    (List.perm_insertionSort _ _).map _
  refine hperm.nodup_iff.mpr (List.Nodup.sublist (List.filter_sublist.map _) ?_)
  rw [hids]
  exact store.records.nodup

theorem attempts_pending {entry : OutboxRecord} (h : entry ∈ store.pending 0) : entry.attempts < store.maxAttempts := by
  have hoffered : entry ∈ store.offered := (List.mem_insertionSort _).mp h
  exact of_decide_eq_true (List.mem_filter.mp hoffered).2

theorem take_pending (limit : ℤ) :
    store.pending limit = (store.pending 0).take (allowed limit (store.pending 0).length) := by
  have hlength : (store.pending 0).length = store.offered.length := List.length_insertionSort _ _
  rw [hlength, pending_eq]
  rfl

theorem pending_recordFailure (hkeys : ∀ item ∈ store.records.items, item.2.id = item.1) (entryId error : String) :
    (store.recordFailure entryId error).pending 0 =
      ((store.pending 0).map (OutboxRecord.failed entryId error)).filter (·.attempts < store.maxAttempts) := by
  have hvalues : (store.recordFailure entryId error).records.values =
      store.records.values.map (OutboxRecord.failed entryId error) := by
    rw [Dict.values, items_recordFailure hkeys, Dict.values, List.map_map, List.map_map]
    rfl
  change (((store.recordFailure entryId error).records.values).filter _).insertionSort OutboxRecord.earlier = _
  rw [maxAttempts_recordFailure, hvalues]
  apply Sorting.insertionSort_filter_map
  · intro entry entry'
    rw [OutboxRecord.earlier, OutboxRecord.earlier, entry.createdAt_failed, entry'.createdAt_failed]
  · intro entry hentry
    exact decide_eq_true (entry.le_attempts_failed.trans_lt (of_decide_eq_true hentry))

theorem pending_markPublished (hkeys : ∀ item ∈ store.records.items, item.2.id = item.1) (entryId : String) :
    (store.markPublished entryId).pending 0 = (store.pending 0).filter (·.id ≠ entryId) := by
  have hvalues : (store.markPublished entryId).records.values = store.records.values.filter (·.id ≠ entryId) := by
    rw [Dict.values, Dict.values, List.filter_map]
    refine congrArg _ (List.filter_congr fun item hitem ↦ ?_)
    rw [Function.comp_apply, hkeys item hitem]
  change (((store.markPublished entryId).records.values).filter (·.attempts < store.maxAttempts)).insertionSort
    OutboxRecord.earlier = _
  rw [hvalues, List.filter_comm, ← Sorting.filter_insertionSort]
  rfl

theorem keys_recordFailure (hkeys : ∀ item ∈ store.records.items, item.2.id = item.1) (entryId error : String) :
    ∀ item ∈ (store.recordFailure entryId error).records.items, item.2.id = item.1 := by
  rw [items_recordFailure hkeys]
  refine List.forall_mem_map.mpr fun item hitem ↦ ?_
  rw [OutboxRecord.failed]
  split
  · exact hkeys item hitem
  · exact hkeys item hitem

/-- `InMemoryOutboxStore` as a store of the relay. -/
def asStore (maxAttempts : ℕ) : OutboxStore (Held maxAttempts) where
  maxAttempts := maxAttempts
  pending limit s := .ok (s.store.pending limit)
  recordFailure entryId error s :=
    ⟨s.store.recordFailure entryId error, (maxAttempts_recordFailure entryId error).trans s.maxAttempts_eq,
      keys_recordFailure s.keys entryId error⟩
  markPublished entryId s :=
    ⟨s.store.markPublished entryId, s.maxAttempts_eq, fun item hitem ↦ s.keys item (List.mem_filter.mp hitem).1⟩
  nodup s waiting hwaiting := by
    obtain rfl := Except.ok.inj hwaiting
    exact nodup_pending s.keys
  offered s waiting hwaiting := by
    obtain rfl := Except.ok.inj hwaiting
    exact fun entry hentry ↦ s.maxAttempts_eq ▸ attempts_pending hentry
  limited s waiting limit hwaiting := by
    obtain rfl := Except.ok.inj hwaiting
    exact congrArg _ (take_pending limit)
  failed s waiting entryId error hwaiting := by
    obtain rfl := Except.ok.inj hwaiting
    refine ⟨_, rfl, ?_⟩
    rw [pending_recordFailure s.keys, s.maxAttempts_eq]
    exact queued_failed _
  marked s waiting entryId hwaiting := by
    obtain rfl := Except.ok.inj hwaiting
    exact congrArg _ (pending_markPublished s.keys entryId)

end InMemoryOutboxStore

/-! ## The store in a database -/

/-- A table with its primary key. -/
structure Table where
  rows : List Row
  nodup : (rows.map Row.id).Nodup

instance : Std.Total Row.before :=
  ⟨fun row row' ↦ (le_total row.key row'.key).imp Row.before_iff.mpr Row.before_iff.mpr⟩

instance : IsTrans Row Row.before :=
  ⟨fun _ _ _ h h' ↦ Row.before_iff.mpr ((Row.before_iff.mp h).trans (Row.before_iff.mp h'))⟩

/-- A failure is counted against the row. -/
def Row.failed (entryId error : String) (row : Row) : Row :=
  if row.id = entryId then
    { row with attempts := row.attempts + 1, lastError := some (String.ofList (error.toList.take 1000)) }
  else row

theorem Row.id_failed {entryId error : String} (row : Row) : (row.failed entryId error).id = row.id := by
  rw [Row.failed]
  split
  · rfl
  · rfl

theorem Row.key_failed {entryId error : String} (row : Row) : (row.failed entryId error).key = row.key := by
  rw [Row.failed]
  split
  · rfl
  · rfl

theorem Row.le_attempts_failed {entryId error : String} (row : Row) :
    row.attempts ≤ (row.failed entryId error).attempts := by
  rw [Row.failed]
  split
  · exact Nat.le_succ _
  · exact le_rfl

/-- A row that has failed is read as the record that has. -/
theorem recordFrom_failed {entryId error : String} {row : Row} {entry : OutboxRecord} (h : recordFrom row = .ok entry) :
    recordFrom (row.failed entryId error) =
      .ok (entry.failed entryId (String.ofList (error.toList.take 1000))) := by
  obtain ⟨createdAt, hread, rfl⟩ := recordFrom_ok_iff.mp h
  rw [Row.failed, OutboxRecord.failed]
  by_cases hid : row.id = entryId
  · rw [if_pos hid, if_pos hid]
    exact recordFrom_ok_iff.mpr ⟨createdAt, hread, rfl⟩
  · rw [if_neg hid, if_neg hid]
    exact h

theorem attempts_of_recordFrom {row : Row} {entry : OutboxRecord} (h : recordFrom row = .ok entry) :
    entry.attempts = row.attempts ∧ entry.id = row.id := by
  obtain ⟨createdAt, -, rfl⟩ := recordFrom_ok_iff.mp h
  exact ⟨rfl, rfl⟩

namespace SqlOutboxStore

variable {store : SqlOutboxStore} {table : List Row} {waiting : List OutboxRecord}

theorem waiting_zero (store : SqlOutboxStore) (table : List Row) :
    store.waiting 0 table = (table.filter (·.attempts < store.maxAttempts)).insertionSort Row.before := rfl

theorem nodup_pending (hids : (table.map Row.id).Nodup) (hpending : store.pending 0 table = .ok waiting) :
    (waiting.map OutboxRecord.id).Nodup := by
  have hperm : ((store.waiting 0 table).map Row.id).Perm
      ((table.filter (·.attempts < store.maxAttempts)).map Row.id) := (List.perm_insertionSort _ _).map _
  rw [ids_of_pending hpending, List.map_map]
  exact hperm.nodup_iff.mpr (hids.sublist (List.filter_sublist.map _))

theorem attempts_pending (hpending : store.pending 0 table = .ok waiting) :
    ∀ entry ∈ waiting, entry.attempts < store.maxAttempts := by
  intro entry hentry
  obtain ⟨row, hrow, hread⟩ := (Fallible.mem_of_mapM_ok hpending).mp hentry
  rw [(attempts_of_recordFrom hread).1]
  exact ((store.mem_waiting (.inl le_rfl)).mp hrow).2

theorem take_pending (limit : ℤ) (hpending : store.pending 0 table = .ok waiting) :
    store.pending limit table = .ok (waiting.take (allowed limit waiting.length)) := by
  have hread := Fallible.mapM_ok_iff.mp hpending
  have hrows : store.waiting limit table = (store.waiting 0 table).take (allowed limit waiting.length) := by
    rw [← hread.length_eq]
    exact ite_take le_rfl
  rw [pending, hrows]
  exact Fallible.mapM_ok_iff.mpr (List.forall₂_take _ hread)

theorem pending_recordFailure (entryId error : String) (hpending : store.pending 0 table = .ok waiting) :
    store.pending 0 (store.recordFailure entryId error table) =
      .ok ((waiting.map (OutboxRecord.failed entryId (String.ofList (error.toList.take 1000)))).filter
        (·.attempts < store.maxAttempts)) := by
  have hrows : store.waiting 0 (store.recordFailure entryId error table) =
      ((store.waiting 0 table).map (Row.failed entryId error)).filter (·.attempts < store.maxAttempts) := by
    refine Sorting.insertionSort_filter_map (f := Row.failed entryId error) (fun row row' ↦ ?_) (fun row hrow ↦ ?_)
      table
    · rw [Row.before_iff, Row.before_iff, row.key_failed, row'.key_failed]
    · exact decide_eq_true (row.le_attempts_failed.trans_lt (of_decide_eq_true hrow))
  rw [pending, hrows]
  apply Fallible.mapM_ok_iff.mpr
  refine List.rel_filter (fun row entry hread ↦ ?_) ?_
  · change decide (row.attempts < store.maxAttempts) = true ↔ decide (entry.attempts < store.maxAttempts) = true
    rw [(attempts_of_recordFrom hread).1]
  · refine List.forall₂_map_left_iff.mpr (List.forall₂_map_right_iff.mpr ?_)
    exact (Fallible.mapM_ok_iff.mp hpending).imp fun _ _ ↦ recordFrom_failed

theorem pending_markPublished (entryId : String) (hpending : store.pending 0 table = .ok waiting) :
    store.pending 0 (store.markPublished entryId table) = .ok (waiting.filter (·.id ≠ entryId)) := by
  have hrows : store.waiting 0 (store.markPublished entryId table) =
      (store.waiting 0 table).filter (·.id ≠ entryId) := by
    rw [waiting_zero, waiting_zero, markPublished, List.filter_comm, Sorting.filter_insertionSort]
  rw [pending, hrows]
  apply Fallible.mapM_ok_iff.mpr
  refine List.rel_filter (fun row entry hread ↦ ?_) (Fallible.mapM_ok_iff.mp hpending)
  change decide (row.id ≠ entryId) = true ↔ decide (entry.id ≠ entryId) = true
  rw [(attempts_of_recordFrom hread).2]

/-- `SqlOutboxStore` as a store of the relay. -/
def asStore (store : SqlOutboxStore) : OutboxStore Table where
  maxAttempts := store.maxAttempts
  pending limit s := store.pending limit s.rows
  recordFailure entryId error s := ⟨store.recordFailure entryId error s.rows, by
    have hids : (store.recordFailure entryId error s.rows).map Row.id = s.rows.map Row.id := by
      rw [recordFailure, List.map_map]
      exact List.map_congr_left fun row _ ↦ row.id_failed
    exact hids ▸ s.nodup⟩
  markPublished entryId s := ⟨store.markPublished entryId s.rows, s.nodup.sublist (List.filter_sublist.map _)⟩
  nodup s _ := nodup_pending s.nodup
  offered _ _ := attempts_pending
  limited _ _ := take_pending
  failed _ waiting entryId error hpending := ⟨_, pending_recordFailure entryId error hpending, queued_failed waiting⟩
  marked _ _ := pending_markPublished

end SqlOutboxStore

end Outbox

end AcemqAmqp
