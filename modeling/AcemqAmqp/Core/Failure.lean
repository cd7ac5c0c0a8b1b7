import AcemqAmqp.Wire.Text
import AcemqAmqp.Wire.Instant

/-!
# Failures and acknowledgements

An exception is what the library looks at of one: which of the classes it
tests for the exception is an instance of, the name of its own class, and its
text.  The rest of the file is what a handler says about a message and what
the consumer then does with it.
-/

namespace AcemqAmqp

/-- The classes the library tests an exception for.  `cancelled` is the only
one that `except Exception` does not catch. -/
inductive FailureKind
  | exception
  | fatal
  | stopReading
  | hopRefused
  | publish
  | publishingPaused
  | cancelled
  deriving DecidableEq

structure Failure where
  kind : FailureKind
  typeName : String
  text : String
  deriving DecidableEq

namespace Failure

/-- `isinstance(failure, PublishError)`. -/
def isPublishError (f : Failure) : Bool := f.kind = .publish ∨ f.kind = .publishingPaused

/-- `isinstance(failure, FatalError)`. -/
def isFatal (f : Failure) : Bool := f.kind = .fatal

/-- `isinstance(failure, _StopReadingError)`. -/
def isStopReading (f : Failure) : Bool := f.kind = .stopReading

/-- `isinstance(failure, Exception)`. -/
def isException (f : Failure) : Bool := f.kind ≠ .cancelled

/-- `PublishError(message_id, exchange, routing_key, reason)`. -/
def publishError (messageId exchange routingKey reason : String) : Failure where
  kind := .publish
  typeName := "PublishError"
  text := "acemq: cannot publish message " ++ messageId ++ " to exchange " ++ reprText exchange ++
    " with key " ++ reprText routingKey ++ ": " ++ reason

/-- `PublishError(message_id, exchange, routing_key, reason, unroutable=True)`. -/
def unroutable (messageId exchange routingKey reason : String) : Failure where
  kind := .publish
  typeName := "PublishError"
  text := "acemq: message " ++ messageId ++ " to exchange " ++ reprText exchange ++
    " with key " ++ reprText routingKey ++ " reached no queue: " ++ reason

/-- `PublishingPausedError(message_id, exchange, routing_key, reason)`. -/
def publishingPaused (messageId exchange routingKey reason : String) : Failure :=
  { publishError messageId exchange routingKey reason with
    kind := .publishingPaused
    typeName := "PublishingPausedError" }

/-- `_HopRefusedError(str(refused))`. -/
def hopRefused (refused : Failure) : Failure := ⟨.hopRefused, "_HopRefusedError", refused.text⟩

end Failure

/-- `ValueError(text)`. -/
def valueError (text : String) : Failure := ⟨.exception, "ValueError", text⟩

/-- `OverflowError(text)`. -/
def overflowError (text : String) : Failure := ⟨.exception, "OverflowError", text⟩

/-- `FatalError(text)`. -/
def fatalError (text : String) : Failure := ⟨.fatal, "FatalError", text⟩

/-- `_describe`: a failure as the sentence that goes in `x-acemq-error`. -/
def describe : Option Failure → String
  | none => "no reason given"
  | some f => f.typeName ++ if f.text = "" then "" else ": " ++ f.text

/-! ## Numbers that are too large -/

/-- What `datetime.fromtimestamp(value / 1000, tz=timezone.utc)` raises for a value that is no
`datetime`.  The year is counted from 1900 in 32 bits, and what is printed of it wraps around. -/
def noDatetime (value : ℤ) : Failure :=
  match Binary64.double? (value / 1000) with
  | none => overflowError "integer division result too large for a float"
  | some t =>
      let second := ⌊t⌋
      let year := (Instant.civil (second / 86400)).1
      if second < -2 ^ 63 ∨ 2 ^ 63 ≤ second then overflowError "timestamp out of range for platform time_t"
      else if year - 1900 < -2 ^ 31 ∨ 2 ^ 31 ≤ year - 1900 then
        ⟨.exception, "OSError", "[Errno 75] Value too large for defined data type"⟩
      else valueError ("year " ++ toString (year.bmod (2 ^ 32)) ++ " is out of range")

/-- `datetime.fromtimestamp(value / 1000, tz=timezone.utc)`. -/
def fromTimestamp (value : ℤ) : Except Failure Instant := (fromMillis value).elim (.error (noDatetime value)) .ok

/-- `_from_ms`. -/
def fromMs (stamp : ℤ) : Except Failure Instant := fromTimestamp stamp

/-- `float(n)`, which observers are given. -/
def toFloat (n : ℤ) : Except Failure ℚ :=
  (Binary64.double? n).elim (.error (overflowError "int too large to convert to float")) .ok

theorem fromTimestamp_ok_iff {value : ℤ} {when_ : Instant} :
    fromTimestamp value = .ok when_ ↔ fromMillis value = some when_ := by
  unfold fromTimestamp
  cases fromMillis value <;> simp

theorem fromMs_ok_iff {stamp : ℤ} {when_ : Instant} : fromMs stamp = .ok when_ ↔ fromMillis stamp = some when_ :=
  fromTimestamp_ok_iff

theorem isException_of_noDatetime (value : ℤ) : (noDatetime value).isException = true := by
  unfold noDatetime
  split
  · rfl
  · dsimp only
    split_ifs <;> rfl

theorem toFloat_ok_iff {n : ℤ} (hn : 1 ≤ n) : (∃ x, toFloat n = .ok x) ↔ n < Binary64.bound := by
  rw [← Binary64.isSome_double?_iff hn, toFloat]
  cases Binary64.double? n <;> simp

/-! ## Acknowledgements -/

inductive Action
  | accept
  | retry
  | reject
  | park
  | inProgress
  deriving DecidableEq

structure Ack where
  action : Action
  error : Option Failure
  delay : Option Duration
  deriving DecidableEq

/-- What a handler returns: an `Ack`, or a value of some other type. -/
inductive Decision
  | ack (a : Ack)
  | other (typeName : String)
  deriving DecidableEq

/-- How long a message found in progress waits before it is looked at again. -/
def defaultInProgressDelay : Duration := 5000000

namespace Ack

def accept : Ack := ⟨.accept, none, none⟩
def retry (error : Option Failure) : Ack := ⟨.retry, error, none⟩
def reject (error : Option Failure) : Ack := ⟨.reject, error, none⟩
def park (error : Option Failure) : Ack := ⟨.park, error, none⟩
def inProgress (delay : Duration) : Ack := ⟨.inProgress, none, some delay⟩

end Ack

inductive Outcome
  | acked
  | retried
  | rejected
  | deadLettered
  | parked
  | inProgress
  | stopped
  deriving DecidableEq

/-- What the consumer did with a delivery, once it had decided. -/
structure Settlement where
  outcome : Outcome
  reason : Option String
  delay : Option Duration

end AcemqAmqp
