import AcemqAmqp.Outbox.SqlStore

/-!
# The outbox in this process

`InMemoryOutboxStore`: a dictionary of records, and the two things it has in
common with the table: which records it holds, and which of them it offers.
-/

namespace AcemqAmqp

namespace Outbox

structure InMemoryOutboxStore where
  maxAttempts : ℕ
  one_le_maxAttempts : 1 ≤ maxAttempts
  records : Dict String OutboxRecord

/-- `key=lambda entry: entry.created_at`. -/
def OutboxRecord.earlier (entry entry' : OutboxRecord) : Prop := entry.createdAt ≤ entry'.createdAt

instance : DecidableRel OutboxRecord.earlier := fun entry entry' ↦
  inferInstanceAs (Decidable (entry.createdAt ≤ entry'.createdAt))

namespace InMemoryOutboxStore

variable (store : InMemoryOutboxStore)

def add (entry : OutboxRecord) : Except Failure InMemoryOutboxStore :=
  if entry.id = "" then .error (valueError "acemq: an outbox record needs an id")
  else .ok { store with records := store.records.setDefault entry.id entry }

def pending (limit : ℤ) : List OutboxRecord :=
  let waiting := (store.records.values.filter (·.attempts < store.maxAttempts)).insertionSort OutboxRecord.earlier
  if 0 < limit then waiting.take limit.toNat else waiting

def markPublished (entryId : String) : InMemoryOutboxStore :=
  { store with records := store.records.erase entryId }

def recordFailure (entryId error : String) : InMemoryOutboxStore :=
  match store.records.get? entryId with
  | none => store
  | some entry =>
      { store with records :=
          store.records.set entryId { entry with attempts := entry.attempts + 1, lastError := error } }

def retired : List OutboxRecord := store.records.values.filter (store.maxAttempts ≤ ·.attempts)

end InMemoryOutboxStore

end Outbox

end AcemqAmqp
