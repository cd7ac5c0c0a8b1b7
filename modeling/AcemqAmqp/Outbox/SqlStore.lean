import Mathlib.Data.List.Sort
import Mathlib.Tactic.Linarith
import Mathlib.Tactic.NormNum
import AcemqAmqp.Outbox.Record

/-!
# The outbox in a database

`SqlOutboxStore`: a row for each record, the statements that write, read and
delete rows, and what comes back of a record that was written.  The database
keeps what it is given, as SQLite does, and the headers are kept as the JSON
document they are.
-/

namespace AcemqAmqp

namespace Outbox

open Binary64 Fallible

structure Row where
  id : String
  exchangeName : String
  routingKey : String
  body : Bytes
  contentType : String
  headers : List (String × Json)
  createdAt : ℤ
  attempts : ℕ
  lastError : Option String

/-- `_as_ms`. -/
def asMs (when_ : Instant) : ℤ := truncate (binary64 (when_.timestamp * 1000))

/-- `_record_from`. -/
def recordFrom (row : Row) : Except Failure OutboxRecord := do
  let headers := loadsHeaders row.headers
  let createdAt ← fromMs row.createdAt
  return {
    id := row.id
    exchange := row.exchangeName
    routingKey := row.routingKey
    body := row.body
    contentType := row.contentType
    headers := headers
    createdAt := createdAt
    attempts := row.attempts
    lastError := row.lastError.getD "" }

/-- `ORDER BY created_at, id`. -/
def Row.before (row row' : Row) : Prop :=
  row.createdAt < row'.createdAt ∨ row.createdAt = row'.createdAt ∧ row.id ≤ row'.id

instance : DecidableRel Row.before := fun _ _ ↦ inferInstanceAs (Decidable (_ ∨ _ ∧ _))

structure SqlOutboxStore where
  maxAttempts : ℕ
  one_le_maxAttempts : 1 ≤ maxAttempts

namespace SqlOutboxStore

/-- `add`, on the connection of the caller's transaction. -/
def add (_ : SqlOutboxStore) (entry : OutboxRecord) (table : List Row) : Except Failure (List Row) := do
  if entry.id = "" then throw (valueError "acemq: an outbox record needs an id")
  let headers ← dumpsItems entry.headers.items
  let row : Row := {
    id := entry.id
    exchangeName := entry.exchange
    routingKey := entry.routingKey
    body := entry.body
    contentType := entry.contentType
    headers := headers
    createdAt := asMs entry.createdAt
    attempts := 0
    lastError := none }
  -- `ON CONFLICT (id) DO NOTHING`
  return if entry.id ∈ table.map Row.id then table else table ++ [row]

variable (store : SqlOutboxStore)

/-- The rows `pending` asks for. -/
def waiting (limit : ℤ) (table : List Row) : List Row :=
  let offered := (table.filter (·.attempts < store.maxAttempts)).insertionSort Row.before
  if 0 < limit then offered.take limit.toNat else offered

def pending (limit : ℤ) (table : List Row) : Except Failure (List OutboxRecord) :=
  (store.waiting limit table).mapM recordFrom

/-- What `retired` returns: the rows that are no longer offered. -/
def retired (table : List Row) : Except Failure (List OutboxRecord) :=
  ((table.filter (store.maxAttempts ≤ ·.attempts)).insertionSort Row.before).mapM recordFrom

/-- `record_failure`. -/
def recordFailure (_ : SqlOutboxStore) (entryId error : String) (table : List Row) : List Row :=
  table.map fun row ↦
    if row.id = entryId then
      { row with attempts := row.attempts + 1, lastError := some (String.ofList (error.toList.take 1000)) }
    else row

/-- `mark_published`. -/
def markPublished (_ : SqlOutboxStore) (entryId : String) (table : List Row) : List Row :=
  table.filter (·.id ≠ entryId)

theorem add_ok_iff {entry : OutboxRecord} {table table' : List Row} : store.add entry table = .ok table' ↔
    entry.id ≠ "" ∧ ∃ headers, dumpsItems entry.headers.items = .ok headers ∧
      table' = if entry.id ∈ table.map Row.id then table
        else table ++ [⟨entry.id, entry.exchange, entry.routingKey, entry.body, entry.contentType, headers,
          asMs entry.createdAt, 0, none⟩] := by
  rw [add]
  by_cases hid : entry.id = ""
  · rw [if_pos hid]
    exact iff_of_false nofun fun h ↦ h.1 hid
  · rw [if_neg hid]
    constructor
    · intro h
      obtain ⟨headers, hheaders, h⟩ := bind_ok_iff.mp h
      exact ⟨hid, headers, hheaders, (Except.ok.inj h).symm⟩
    · rintro ⟨-, headers, hheaders, rfl⟩
      exact bind_ok_iff.mpr ⟨headers, hheaders, rfl⟩

theorem mem_waiting {limit : ℤ} {table : List Row} {row : Row} (hlimit : limit ≤ 0 ∨ table.length ≤ limit) :
    row ∈ store.waiting limit table ↔ row ∈ table ∧ row.attempts < store.maxAttempts := by
  have hall : store.waiting limit table =
      (table.filter (·.attempts < store.maxAttempts)).insertionSort Row.before := by
    rw [waiting]
    split
    · rename_i hpos
      refine List.take_of_length_le ?_
      have hlength := List.length_filter_le (fun row : Row ↦ decide (row.attempts < store.maxAttempts)) table
      rw [List.length_insertionSort]
      omega
    · rfl
  rw [hall, List.mem_insertionSort, List.mem_filter, decide_eq_true_iff]

end SqlOutboxStore

/-! ## What comes back -/

theorem recordFrom_ok_iff {row : Row} {entry : OutboxRecord} : recordFrom row = .ok entry ↔
    ∃ createdAt, fromMillis row.createdAt = some createdAt ∧
      entry = ⟨row.id, row.exchangeName, row.routingKey, row.body, row.contentType, loadsHeaders row.headers,
        createdAt, row.attempts, row.lastError.getD ""⟩ := by
  rw [recordFrom, bind_ok_iff]
  refine exists_congr fun createdAt ↦ and_congr fromMs_ok_iff ?_
  exact ⟨fun h ↦ (Except.ok.inj h).symm, fun h ↦ congrArg Except.ok h.symm⟩

/-- The record as it was written, its instant to the millisecond. -/
structure SameRecord (back entry : OutboxRecord) : Prop where
  id : back.id = entry.id
  exchange : back.exchange = entry.exchange
  routingKey : back.routingKey = entry.routingKey
  body : back.body = entry.body
  contentType : back.contentType = entry.contentType
  headers : back.headers = entry.headers
  createdAt : |back.createdAt - entry.createdAt| ≤ 1000
  attempts : back.attempts = 0
  lastError : back.lastError = ""

/-- A record that is added is waiting afterwards, as it was written. -/
def ReadsBack (store : SqlOutboxStore) (entry : OutboxRecord) (table : List Row) (limit : ℤ) : Prop :=
  ∃ table' records, store.add entry table = .ok table' ∧ store.pending limit table' = .ok records ∧
    ∃ back ∈ records, SameRecord back entry

/-- An instant that its milliseconds give back to the millisecond. -/
def Timely (when_ : Instant) : Prop := ∃ read, fromMillis (asMs when_) = some read ∧ |read - when_| ≤ 1000

/-- From 1697 to 2242 every instant comes back to the millisecond. -/
theorem timely_of_abs_lt {when_ : ℤ} (h : |when_| < 8589934591000000) : Timely when_ := by
  obtain ⟨hlow, hhigh⟩ := abs_lt.mp h
  have hlow' : (-8589934591000000 : ℚ) < when_ := by exact_mod_cast hlow
  have hhigh' : (when_ : ℚ) < 8589934591000000 := by exact_mod_cast hhigh
  have hseconds : |(when_ : ℚ) / 1000000| < 2 ^ (33 : ℤ) := by
    rw [abs_lt]
    norm_num
    constructor <;> linarith
  obtain ⟨hstamp, hstamp'⟩ := abs_le.mp (abs_binary64_sub_le hseconds)
  norm_num at hstamp hstamp'
  have hmillis : |binary64 ((when_ : ℚ) / 1000000) * 1000| < 2 ^ (43 : ℤ) := by
    rw [abs_lt]
    norm_num
    constructor <;> linarith
  obtain ⟨hscaled, hscaled'⟩ := abs_le.mp (abs_binary64_sub_le hmillis)
  norm_num at hscaled hscaled'
  obtain ⟨hwhole, hwhole'⟩ := abs_lt.mp (abs_sub_truncate_lt (binary64 (binary64 ((when_ : ℚ) / 1000000) * 1000)))
  have hms : asMs when_ = truncate (binary64 (binary64 ((when_ : ℚ) / 1000000) * 1000)) := rfl
  rw [← hms] at hwhole hwhole'
  have hup : ((asMs when_ * 1000 : ℤ) : ℚ) < ((when_ + 1001 : ℤ) : ℚ) := by
    push_cast
    linarith
  have hdown : ((when_ - 1001 : ℤ) : ℚ) < ((asMs when_ * 1000 : ℤ) : ℚ) := by
    push_cast
    linarith
  have hup := Int.cast_lt.mp hup
  have hdown := Int.cast_lt.mp hdown
  have hclose : |asMs when_ * 1000 - when_| ≤ (1000 : ℤ) := abs_le.mpr ⟨by omega, by omega⟩
  exact ⟨asMs when_ * 1000, fromMillis_whole (abs_lt.mpr ⟨by omega, by omega⟩), hclose⟩

/-- A record comes back as it was written exactly when the column has words for its headers,
and every instant that is waiting can be read again. -/
theorem record_readsBack_iff {Payload : Type} {origin exchange routingKey : String} {writer : Codec Payload}
    {payload : Payload} {envelope : Option Envelope} {fresh : String} {firstSeen now : Instant}
    {entry : OutboxRecord} {store : SqlOutboxStore} {table : List Row} {limit : ℤ}
    (hrecord : record origin exchange routingKey writer payload envelope fresh firstSeen now = .ok entry)
    (hnew : ∀ row ∈ table, row.id ≠ entry.id) (hlimit : limit ≤ 0 ∨ table.length < limit) :
    ReadsBack store entry table limit ↔
      entry.id ≠ "" ∧ (∀ item ∈ entry.headers.items, item.2.plain = true) ∧ Timely now ∧
        ∀ row ∈ table, row.attempts < store.maxAttempts → (fromMillis row.createdAt).isSome = true := by
  obtain ⟨body, -, hentry⟩ := bind_ok_iff.mp hrecord
  have hnow : entry.createdAt = now := by rw [← Except.ok.inj hentry]
  have hfree : entry.id ∉ table.map Row.id := by
    intro hmem
    obtain ⟨row, hrow, heq⟩ := List.mem_map.mp hmem
    exact hnew row hrow heq
  have hroom (row : Row) : limit ≤ 0 ∨ ((table ++ [row]).length : ℤ) ≤ limit := by
    rw [List.length_append, List.length_singleton]
    omega
  constructor
  · rintro ⟨table', records, hadd, hpending, back, hback, hsame⟩
    obtain ⟨hid, headers, hheaders, rfl⟩ := store.add_ok_iff.mp hadd
    rw [if_neg hfree] at hpending
    have hread : ∀ row ∈ store.waiting limit _, ∃ b, recordFrom row = .ok b := mapM_isOk_iff.mp ⟨records, hpending⟩
    refine ⟨hid, (plainItems_iff _).mp ((dumpsItems_ok_iff _).mp ⟨headers, hheaders⟩), ?_, ?_⟩
    · obtain ⟨row, hrow, hfrom⟩ := (mem_of_mapM_ok hpending).mp hback
      obtain ⟨createdAt, hcreated, rfl⟩ := recordFrom_ok_iff.mp hfrom
      -- The row that comes back under this identifier is the one that was written.
      rcases List.mem_append.mp ((store.mem_waiting (hroom _)).mp hrow).1 with hold | hnewest
      · exact absurd hsame.id (hnew row hold)
      · obtain rfl := List.mem_singleton.mp hnewest
        refine ⟨createdAt, hnow ▸ hcreated, ?_⟩
        rw [← hnow]
        exact hsame.createdAt
    · intro row hrow hattempts
      obtain ⟨back, hfrom⟩ := hread row ((store.mem_waiting (hroom _)).mpr ⟨List.mem_append_left _ hrow, hattempts⟩)
      obtain ⟨createdAt, hcreated, -⟩ := recordFrom_ok_iff.mp hfrom
      exact Option.isSome_iff_exists.mpr ⟨createdAt, hcreated⟩
  · rintro ⟨hid, hplain, ⟨read, hread, hclose⟩, hreadable⟩
    obtain ⟨headers, hheaders⟩ := (dumpsItems_ok_iff _).mpr ((plainItems_iff _).mpr hplain)
    have hadd := (@SqlOutboxStore.add_ok_iff store entry table _).mpr ⟨hid, headers, hheaders, rfl⟩
    rw [if_neg hfree] at hadd
    generalize hwritten : (⟨entry.id, entry.exchange, entry.routingKey, entry.body, entry.contentType, headers,
      asMs entry.createdAt, 0, none⟩ : Row) = written at hadd
    have hback : recordFrom written = .ok ⟨entry.id, entry.exchange, entry.routingKey, entry.body, entry.contentType,
        loadsHeaders headers, read, 0, ""⟩ := by
      subst hwritten
      exact recordFrom_ok_iff.mpr ⟨read, hnow ▸ hread, rfl⟩
    have hall : ∀ row ∈ store.waiting limit (table ++ [written]), ∃ b, recordFrom row = .ok b := by
      intro row hrow
      obtain ⟨hrow, hoffered⟩ := (store.mem_waiting (hroom _)).mp hrow
      rcases List.mem_append.mp hrow with hrow | hrow
      · obtain ⟨createdAt, hcreated⟩ := Option.isSome_iff_exists.mp (hreadable row hrow hoffered)
        exact ⟨_, recordFrom_ok_iff.mpr ⟨createdAt, hcreated, rfl⟩⟩
      · rw [List.mem_singleton.mp hrow]
        exact ⟨_, hback⟩
    obtain ⟨records, hpending⟩ := mapM_isOk_iff.mpr hall
    have hoffered : written ∈ store.waiting limit (table ++ [written]) := by
      refine (store.mem_waiting (hroom _)).mpr ⟨List.mem_append_right _ List.mem_cons_self, ?_⟩
      rw [← hwritten]
      exact store.one_le_maxAttempts
    refine ⟨_, records, hadd, hpending, _, (mem_of_mapM_ok hpending).mpr ⟨written, hoffered, hback⟩, ?_⟩
    refine ⟨rfl, rfl, rfl, rfl, rfl, loadsHeaders_of_dumps hheaders, ?_, rfl, rfl⟩
    rw [hnow]
    exact hclose

theorem trace_free : ∀ name ∈ ["trace"], Headers.isReserved name = false := by decide

/-- An envelope with one header of the application. -/
def traced (value : Value) : Envelope :=
  .carrying "m1" "order.placed" 1760000000000000 ⟨.ofList [("trace", value)], trace_free⟩

theorem record_readsBack_text : ∃ entry,
    record "shop" "orders-events" "order.placed" bytesCodec [0x68, 0x69] (some (traced (.text "t1"))) "f1" 0
      1760000000000000 = .ok entry ∧ ReadsBack ⟨10, by decide⟩ entry [] 0 := by
  have hrecord : record "shop" "orders-events" "order.placed" bytesCodec [0x68, 0x69] (some (traced (.text "t1")))
    "f1" 0 1760000000000000 = .ok _ := rfl
  refine ⟨_, hrecord, ?_⟩
  have hnone (row : Row) (hrow : row ∈ ([] : List Row)) : row.id ≠ "m1" := absurd hrow List.not_mem_nil
  refine (record_readsBack_iff hrecord hnone (.inl le_rfl)).mpr ⟨by decide, ?_, ?_, nofun⟩
  · exact (plainItems_iff _).mp (by decide)
  · exact timely_of_abs_lt (by decide)

/-- A header that a foreign message may carry: one that holds bytes. -/
theorem not_record_readsBack_bytes : ∃ entry,
    record "shop" "orders-events" "order.placed" bytesCodec [0x68, 0x69] (some (traced (.bytes [0xff]))) "f1" 0
      1760000000000000 = .ok entry ∧ ¬ReadsBack ⟨10, by decide⟩ entry [] 0 := by
  refine ⟨_, rfl, ?_⟩
  rintro ⟨table', records, hadd, -⟩
  obtain ⟨-, headers, hheaders, -⟩ := (SqlOutboxStore.add_ok_iff _).mp hadd
  have hplain := (dumpsItems_ok_iff _).mp ⟨headers, hheaders⟩
  revert hplain
  decide

end Outbox

end AcemqAmqp
