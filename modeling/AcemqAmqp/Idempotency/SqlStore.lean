import AcemqAmqp.Foundations.Interleaving
import AcemqAmqp.Idempotency.InMemory

/-!
# The idempotency store in a database

`SqlIdempotencyStore`: a row for a key, and calls that are one statement after the
other.  No call writes twice, and who wants to write a row that is being written
waits for the commit, so a write and its commit are one step here.
-/

namespace AcemqAmqp

namespace Idempotency

open Interaction

inductive RowState
  | claimed
  | confirmed
  deriving DecidableEq

structure Row where
  state : RowState
  claimedBy : Option String
  recordedAt : ℤ
  expiresAt : ℤ
  deriving DecidableEq

/-- The rows by `message_id`, which is the primary key. -/
abbrev Table := Dict String Row

/-- `_ms`. -/
def toMs (span : Duration) : ℤ := Binary64.truncate (Binary64.binary64 (Binary64.binary64 (span / 1000000) * 1000))

/-! ## What is asked -/

/-- The clock, and the statements with their parameters. -/
inductive Statement
  | now
  | insert (key : String) (row : Row)
  | takeOver (key node : String) (now expiresAt : ℤ)
  | look (key : String)
  | settle (key : String) (now expiresAt : ℤ)
  | release (key node : String)
  | purge (now : ℤ)
  deriving DecidableEq

/-- What is read, and how many rows a write affected. -/
def Statement.Result : Statement → Type
  | now => ℤ
  | look _ => Option RowState
  | insert .. | takeOver .. | settle .. | release .. | purge _ => ℕ

abbrev Db : Interface := ⟨Statement, fun q ↦ Except Failure q.Result⟩

def Statement.run (q : Statement) : Program Db Failure q.Result := Program.call (I := Db) q id

structure SqlIdempotencyStore where
  node : String
  claimTimeout : Duration
  retention : Duration
  claimTimeout_pos : 0 < claimTimeout
  retention_pos : 0 < retention

namespace SqlIdempotencyStore

variable (store : SqlIdempotencyStore) (key : String)

/-- How long a claim is held, in milliseconds. -/
def hold : ℤ := toMs store.claimTimeout

/-- How long a confirmation is remembered, in milliseconds. -/
def memory : ℤ := toMs store.retention

def claim : Program Db Failure Claim :=
  if key = "" then .raise (valueError "acemq: an idempotency key cannot be empty")
  else do
    let now : ℤ ← Statement.now.run
    -- `ON CONFLICT (message_id) DO NOTHING`
    let inserted : ℕ ← (Statement.insert key ⟨.claimed, some store.node, now, now + store.hold⟩).run
    if inserted = 1 then return .claimed
    else
      let taken : ℕ ← (Statement.takeOver key store.node now (now + store.hold)).run
      if taken = 1 then return .claimed
      else
        let state : Option RowState ← (Statement.look key).run
        return if state = some .confirmed then .duplicate else .inProgress

def confirm : Program Db Failure Unit := do
  let now : ℤ ← Statement.now.run
  let settled : ℕ ← (Statement.settle key now (now + store.memory)).run
  if settled = 0 then
    let _ : ℕ ← (Statement.insert key ⟨.confirmed, none, now, now + store.memory⟩).run
    return ()
  else return ()

def forget : Program Db Failure Unit := do
  let _ : ℕ ← (Statement.release key store.node).run
  return ()

def purgeExpired : Program Db Failure ℕ := do
  let now : ℤ ← Statement.now.run
  (Statement.purge now).run

end SqlIdempotencyStore

/-! ## What the database answers -/

/-- A statement, at a time. -/
def Statement.execute (clock : ℤ) (table : Table) : (q : Statement) → q.Result × Table
  | now => (clock, table)
  | insert key row => if key ∈ table then ((0 : ℕ), table) else ((1 : ℕ), table.set key row)
  | takeOver key node stamp expiresAt =>
      match table.get? key with
      | none => ((0 : ℕ), table)
      | some row =>
          if row.expiresAt ≤ stamp then ((1 : ℕ), table.set key ⟨.claimed, some node, stamp, expiresAt⟩)
          else ((0 : ℕ), table)
  | look key => ((table.get? key).map Row.state, table)
  | settle key stamp expiresAt =>
      if key ∈ table then ((1 : ℕ), table.set key ⟨.confirmed, none, stamp, expiresAt⟩) else ((0 : ℕ), table)
  | release key node =>
      match table.get? key with
      | none => ((0 : ℕ), table)
      | some row =>
          if row.state = .claimed ∧ row.claimedBy = some node then ((1 : ℕ), table.erase key) else ((0 : ℕ), table)
  | purge stamp =>
      let kept := table.filter fun key ↦ (table.get? key).all fun row ↦ stamp < row.expiresAt
      (table.items.length - kept.items.length, kept)

section executions

variable {clock stamp expiresAt : ℤ} {table : Table} {key node : String} {row : Row}

theorem execute_insert_of_notMem (h : key ∉ table) :
    (Statement.insert key row).execute clock table = ((1 : ℕ), table.set key row) := if_neg h

theorem execute_insert_of_mem (h : key ∈ table) :
    (Statement.insert key row).execute clock table = ((0 : ℕ), table) := if_pos h

theorem execute_takeOver_of_expired (hrow : table.get? key = some row) (hover : row.expiresAt ≤ stamp) :
    (Statement.takeOver key node stamp expiresAt).execute clock table =
      ((1 : ℕ), table.set key ⟨.claimed, some node, stamp, expiresAt⟩) := by
  simp only [Statement.execute, hrow, if_pos hover]
  rfl

theorem execute_takeOver_of_live (h : ∀ row, table.get? key = some row → stamp < row.expiresAt) :
    (Statement.takeOver key node stamp expiresAt).execute clock table = ((0 : ℕ), table) := by
  cases hrow : table.get? key with
  | none =>
      simp only [Statement.execute, hrow]
      rfl
  | some row =>
      simp only [Statement.execute, hrow, if_neg (not_le.mpr (h row hrow))]
      rfl

theorem execute_settle_of_mem (h : key ∈ table) : (Statement.settle key stamp expiresAt).execute clock table =
    ((1 : ℕ), table.set key ⟨.confirmed, none, stamp, expiresAt⟩) := if_pos h

theorem execute_settle_of_notMem (h : key ∉ table) :
    (Statement.settle key stamp expiresAt).execute clock table = ((0 : ℕ), table) := if_neg h

/-- The row is a claim that was made on this node. -/
def Row.ClaimOf (row : Row) (node : String) : Prop := row.state = .claimed ∧ row.claimedBy = some node

theorem execute_release_of_own (hrow : table.get? key = some row) (hown : row.ClaimOf node) :
    (Statement.release key node).execute clock table = ((1 : ℕ), table.erase key) := by
  have hown' : row.state = .claimed ∧ row.claimedBy = some node := hown
  simp only [Statement.execute, hrow, if_pos hown']
  rfl

theorem execute_release_of_other (h : ∀ row, table.get? key = some row → ¬row.ClaimOf node) :
    (Statement.release key node).execute clock table = ((0 : ℕ), table) := by
  cases hrow : table.get? key with
  | none =>
      simp only [Statement.execute, hrow]
      rfl
  | some row =>
      have hother : ¬(row.state = .claimed ∧ row.claimedBy = some node) := h row hrow
      simp only [Statement.execute, hrow, if_neg hother]
      rfl

end executions

end Idempotency

end AcemqAmqp
