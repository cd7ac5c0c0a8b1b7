import AcemqAmqp.Foundations.Rely
import AcemqAmqp.Registry.InMemory

/-!
# The schema registry in a database

`register` reads, takes a number from a counter row, counts, and inserts: one
statement after the other, in a transaction of its own, and all over again when
that fails.  The database isolates reads from what is not committed; a row that
was updated stays locked until its transaction ends, and so does a value a unique
index has taken.
-/

namespace AcemqAmqp

namespace Registry

open Interaction

/-- A row of the registry's table. -/
structure Row where
  id : ℕ
  subject : String
  version : ℕ
  format : String
  definition : String
  fingerprint : String
  registeredAt : ℤ
  deriving DecidableEq

/-- What its unique index on fingerprints is about. -/
def Row.key (row : Row) : String × String := (row.subject, row.fingerprint)

/-- Some unique index forbids that both are there. -/
def Row.Clashes (row other : Row) : Prop :=
  row.id = other.id ∨ row.key = other.key ∨ row.subject = other.subject ∧ row.version = other.version

/-! ## What is asked -/

/-- What a call asks: the statements, the clock, and, with `resume`, whether the task that made it
still waits for its thread. -/
inductive Statement
  | connect
  | find (subject fingerprint : String)
  | bump
  | seed
  | lastId
  | count (subject : String)
  | now
  | insert (row : Row)
  | commit
  | rollback
  | close
  | resume
  deriving DecidableEq

def Statement.Result : Statement → Type
  | find _ _ => Option Row
  | bump => ℕ
  | lastId => Option ℕ
  | count _ => ℕ
  | now => ℤ
  | connect | seed | insert _ | commit | rollback | close | resume => Unit

abbrev Db : Interface := ⟨Statement, fun q ↦ Except Failure q.Result⟩

def Statement.execute (q : Statement) : Program Db Failure q.Result := Program.call (I := Db) q id

/-! ## The calls -/

/-- `_schema_from`. -/
def schemaFrom (row : Row) : Except Failure SchemaDefinition := do
  let registeredAt ← fromMs row.registeredAt
  return ⟨row.id, row.subject, row.version, row.format, row.definition, row.fingerprint, registeredAt⟩

/-- `_run`, on a connection of the store's own. -/
def run {α : Type} (statements : Program Db Failure α) : Program Db Failure α := do
  Statement.connect.execute
  Program.ensure
    (Program.rescue
      (do
        let answer ← statements
        Statement.commit.execute
        return answer)
      fun failure ↦ do
        Statement.rollback.execute
        Program.raise failure)
    Statement.close.execute

/-- `_off_loop`.  A task that is cancelled does not wait for its thread, which works on. -/
def offLoop {α : Type} (statements : Program Db Failure α) : Program Db Failure α :=
  (run statements).ensure Statement.resume.execute

namespace SqlSchemaRegistry

def attempts : ℕ := 5

/-- `_find`. -/
def find (subject printOf : String) : Program Db Failure (Option SchemaDefinition) := do
  match ← (Statement.find subject printOf).execute with
  | none => return none
  | some row => return some (← Program.ofExcept (schemaFrom row))

/-- The counter row of a registry that has never been used is not there. -/
def takeNumber : Program Db Failure ℕ := do
  let rowcount : ℕ ← Statement.bump.execute
  if rowcount < 1 then
    Statement.seed.execute
    return 1
  else
    match ← Statement.lastId.execute with
    | some identifier => return identifier
    | none => Program.raise ⟨.exception, "TypeError", "'NoneType' object is not subscriptable"⟩

/-- `_insert`. -/
def insert (r : Registration) (printOf : String) : Program Db Failure SchemaDefinition := do
  let identifier ← takeNumber
  let counted : ℕ ← (Statement.count r.subject).execute
  let version := counted + 1
  let registered : ℤ ← Statement.now.execute
  (Statement.insert ⟨identifier, r.subject, version, r.format, r.definition, printOf, registered⟩).execute
  let registeredAt ← Program.ofExcept (fromMs registered)
  return ⟨identifier, r.subject, version, r.format, r.definition, printOf, registeredAt⟩

def statements (r : Registration) (printOf : String) : Program Db Failure SchemaDefinition := do
  match ← find r.subject printOf with
  | some already => return already
  | none => insert r printOf

/-- The loop of `register`, with `left` attempts after this one. -/
def tries (work : Program Db Failure SchemaDefinition) : ℕ → Program Db Failure SchemaDefinition
  | 0 => offLoop work
  | left + 1 => (offLoop work).rescue fun failure ↦
      if failure.isException then tries work left else .raise failure

/-- `register`. -/
def register (fingerprint : String → String) (r : Registration) : Program Db Failure SchemaDefinition :=
  if r.Sound then tries (statements r (fingerprint r.definition)) (attempts - 1)
  else .raise nothingToRegister

end SqlSchemaRegistry

/-! ## The database -/

/-- What a transaction has written and not committed: the counter, and rows. -/
structure Session where
  counter : Option ℕ
  inserted : List Row

def Session.empty : Session := ⟨none, []⟩

/-- The tables, and the open transaction of every call.  `writers` says which calls have committed the
rows; nobody reads it. -/
structure Database (D : Type) where
  rows : List Row
  counter : Option ℕ
  sessions : D → Session
  writers : List D

namespace Database

variable {D : Type} (s : Database D) (d : D)

/-- `create_schema`. -/
def fresh (D : Type) : Database D := ⟨[], none, fun _ ↦ .empty, []⟩

/-- What the transaction of a call sees. -/
def view : List Row := s.rows ++ (s.sessions d).inserted

/-- The call has the counter row locked. -/
def Holds : Prop := (s.sessions d).counter ≠ none

def Free : Prop := ∀ d', d' ≠ d → ¬s.Holds d'

variable [DecidableEq D]

def setSession (session : Session) : Database D :=
  { s with sessions := Function.update s.sessions d session }

@[simp] theorem sessions_setSession (session : Session) : (s.setSession d session).sessions d = session :=
  Function.update_self ..

theorem sessions_setSession_of_ne {d d' : D} (hne : d' ≠ d) (session : Session) :
    (s.setSession d session).sessions d' = s.sessions d' := Function.update_of_ne hne ..

@[simp] theorem setSession_self : s.setSession d (s.sessions d) = s := by
  rw [setSession, Function.update_eq_self]

def setCounter (value : ℕ) : Database D := s.setSession d { s.sessions d with counter := some value }

def put (row : Row) : Database D :=
  s.setSession d { s.sessions d with inserted := (s.sessions d).inserted ++ [row] }

def discard : Database D := s.setSession d .empty

def commit : Database D where
  rows := s.view d
  counter := (s.sessions d).counter.or s.counter
  sessions := Function.update s.sessions d .empty
  writers := s.writers ++ (s.sessions d).inserted.map fun _ ↦ d

theorem sessions_commit : (s.commit d).sessions d = .empty := Function.update_self ..

theorem sessions_commit_of_ne {d d' : D} (hne : d' ≠ d) : (s.commit d).sessions d' = s.sessions d' :=
  Function.update_of_ne hne ..

end Database

/-- A transaction that this statement ends is over even when the statement fails. -/
def Statement.ends : Statement → Bool
  | commit | rollback | close => true
  | connect | find _ _ | bump | seed | lastId | count _ | now | insert _ | resume => false

/-- How the database answers, statement by statement.  A statement that has to wait for a lock is
answered when it gets it.  Every statement can fail. -/
inductive Answers {D : Type} [DecidableEq D] (s : Database D) (d : D) :
    (q : Statement) → Db.Ans q → Database D → Prop
  | connected : Answers s d .connect (.ok ()) s
  | found (subject fingerprint : String) : Answers s d (.find subject fingerprint)
      (.ok ((s.view d).find? fun row ↦ row.subject = subject ∧ row.fingerprint = fingerprint)) s
  | bumpedAgain {value : ℕ} : (s.sessions d).counter = some value →
      Answers s d .bump (.ok (1 : ℕ)) (s.setCounter d (value + 1))
  | bumped {value : ℕ} : (s.sessions d).counter = none → s.counter = some value → s.Free d →
      Answers s d .bump (.ok (1 : ℕ)) (s.setCounter d (value + 1))
  | unseeded : (s.sessions d).counter = none → s.counter = none → Answers s d .bump (.ok (0 : ℕ)) s
  | seeded : (s.sessions d).counter = none → s.counter = none → s.Free d →
      Answers s d .seed (.ok ()) (s.setCounter d 1)
  | last : Answers s d .lastId (.ok ((s.sessions d).counter.or s.counter)) s
  | counted (subject : String) :
      Answers s d (.count subject) (.ok ((s.view d).countP fun row ↦ row.subject = subject)) s
  | read (now : ℤ) : Answers s d .now (.ok now) s
  | inserted {row : Row} : (∀ other ∈ s.view d, ¬row.Clashes other) →
      (∀ d', d' ≠ d → ∀ other ∈ (s.sessions d').inserted, ¬row.Clashes other) →
      Answers s d (.insert row) (.ok ()) (s.put d row)
  | committed : Answers s d .commit (.ok ()) (s.commit d)
  | rolledBack : Answers s d .rollback (.ok ()) (s.discard d)
  | closed : Answers s d .close (.ok ()) (s.discard d)
  | resumed : Answers s d .resume (.ok ()) s
  | failed (q : Statement) (failure : Failure) :
      Answers s d q (.error failure) (if q.ends then s.discard d else s)

end Registry

end AcemqAmqp
