import Mathlib.Logic.Relation
import AcemqAmqp.Foundations.Dict
import AcemqAmqp.Foundations.FairLock
import AcemqAmqp.Foundations.Fallible

/-!
# One lock per key, forgotten once nothing is holding it

`_KeyedLocks`: the table of locks and the table of holders, and `hold` cut at
the points where a task can be made to wait.  Every lock that was ever made
keeps its place, so that a visit may still wait for one that the table has
forgotten.
-/

namespace AcemqAmqp

namespace Ordering

open FairLock

structure KeyedLocks (Key : Type) where
  locks : Dict Key ℕ
  holders : Dict Key ℤ

/-- A task between its entry into `hold` and its exit. -/
structure Visit (Key : Type) where
  number : ℕ
  key : Key
  lock : ℕ
  stage : Stage
  deriving DecidableEq

structure World (Key : Type) where
  tables : KeyedLocks Key
  objects : ℕ → Lock
  made : ℕ
  visits : List (Visit Key)
  asked : List (ℕ × Key)
  entries : List (ℕ × Key)
  cancels : List (ℕ × Key)

inductive Raised
  | keyError
  | runtimeError (text : String)
  deriving DecidableEq

variable {Key : Type} [DecidableEq Key]

namespace KeyedLocks

variable (self : KeyedLocks Key) (key : Key)

/-- `self._holders[key] = self._holders.get(key, 0) + 1`. -/
def count : KeyedLocks Key := { self with holders := self.holders.set key ((self.holders.get? key).getD 0 + 1) }

def letGo : Except Raised (KeyedLocks Key) :=
  match self.holders.get? key with
  | none => .error .keyError
  | some held =>
      let remaining := held - 1
      if remaining ≠ 0 then .ok { self with holders := self.holders.set key remaining }
      else if key ∈ self.locks then .ok ⟨self.locks.erase key, self.holders.erase key⟩
      else .error .keyError

end KeyedLocks

omit [DecidableEq Key] in
/-- The visits with the stage of one of them changed. -/
def amend (visits : List (Visit Key)) (who : Option ℕ) (f : Stage → Stage) : List (Visit Key) :=
  visits.map fun v ↦ if some v.number = who then { v with stage := f v.stage } else v

omit [DecidableEq Key] in
/-- The visits without one of them. -/
def drop (visits : List (Visit Key)) (n : ℕ) : List (Visit Key) := visits.filter (·.number ≠ n)

namespace World

variable (w : World Key) (n : ℕ) (key : Key) (lock : ℕ) (v : Visit Key)

omit [DecidableEq Key] in
def empty : World Key := ⟨⟨∅, ∅⟩, fun _ ↦ .fresh, 0, [], [], [], []⟩

omit [DecidableEq Key] in
def stageOf (n : ℕ) : Option Stage := (w.visits.find? (·.number = n)).map Visit.stage

/-- The lock under the key, or a new one that is put there. -/
def find : World Key × ℕ :=
  match w.tables.locks.get? key with
  | some lock => (w, lock)
  | none =>
      ({ w with
          tables := { w.tables with locks := w.tables.locks.set key w.made }
          objects := Function.update w.objects w.made .fresh
          made := w.made + 1 }, w.made)

omit [DecidableEq Key] in
/-- `await lock.acquire()`, up to its wait. -/
def acquire : World Key :=
  if (w.objects lock).free w.stageOf then
    { w with
      objects := Function.update w.objects lock { w.objects lock with locked := true }
      visits := w.visits ++ [⟨n, key, lock, .inside⟩]
      asked := w.asked ++ [(n, key)]
      entries := w.entries ++ [(n, key)] }
  else
    { w with
      objects := Function.update w.objects lock
        { w.objects lock with waiters := (w.objects lock).waiters ++ [n] }
      visits := w.visits ++ [⟨n, key, lock, .pending⟩]
      asked := w.asked ++ [(n, key)] }

/-- `hold`, up to its wait. -/
def hold : World Key :=
  let (w, lock) := w.find key
  { w with tables := w.tables.count key }.acquire n key lock

omit [DecidableEq Key] in
/-- `acquire`, from its wait on. -/
def resume : World Key :=
  { w with
    objects := Function.update w.objects v.lock
      { (w.objects v.lock).without v.number with locked := true }
    visits := amend w.visits (some v.number) fun _ ↦ .inside
    entries := w.entries ++ [(v.number, v.key)] }

omit [DecidableEq Key] in
/-- The task is cancelled while it waits. -/
def cancel : World Key :=
  { w with
    visits := amend w.visits (some v.number) Stage.cancel
    cancels := w.cancels ++ [(v.number, v.key)] }

omit [DecidableEq Key] in
/-- `_wake_up_first`. -/
def wakeUpFirst : World Key :=
  { w with visits := amend w.visits (w.objects lock).waiters.head? Stage.wake }

omit [DecidableEq Key] in
/-- `acquire`, from its wait on, when that raises `CancelledError`. -/
def acquireRaises : World Key :=
  let w := { w with
    objects := Function.update w.objects v.lock ((w.objects v.lock).without v.number)
    visits := drop w.visits v.number }
  if (w.objects v.lock).locked then w else w.wakeUpFirst v.lock

omit [DecidableEq Key] in
def release : Except Raised (World Key) :=
  if (w.objects lock).locked then
    let unlocked := { w.objects lock with locked := false }
    .ok ({ w with objects := Function.update w.objects lock unlocked }.wakeUpFirst lock)
  else .error (.runtimeError "Lock is not acquired.")

/-- `hold`, when `acquire` raises. -/
def raise : Except Raised (World Key) := do
  let w := w.acquireRaises v
  let tables ← w.tables.letGo v.key
  return { w with tables }

/-- `hold`, once its body has ended. -/
def leave : Except Raised (World Key) := do
  let w ← { w with visits := drop w.visits v.number }.release v.lock
  let tables ← w.tables.letGo v.key
  return { w with tables }

/-- What a task does next, under its key. -/
inductive Move : Key → World Key → World Key → Prop
  | hold {w : World Key} {n : ℕ} {key : Key} : (∀ p ∈ w.asked, p.1 < n) → Move key w (w.hold n key)
  | resume {w : World Key} {v : Visit Key} : v ∈ w.visits → v.stage = .woken → Move v.key w (w.resume v)
  | cancel {w : World Key} {v : Visit Key} : v ∈ w.visits → v.stage ≠ .inside → Move v.key w (w.cancel v)
  | raise {w w' : World Key} {v : Visit Key} : v ∈ w.visits → v.stage.Quits → w.raise v = .ok w' → Move v.key w w'
  | leave {w w' : World Key} {v : Visit Key} :
      v ∈ w.visits → v.stage = .inside → w.leave v = .ok w' → Move v.key w w'

/-- What any tasks have done, in any order. -/
def Reaches : World Key → World Key → Prop := Relation.ReflTransGen fun w w' ↦ ∃ key, Move key w w'

end World

end Ordering

end AcemqAmqp
