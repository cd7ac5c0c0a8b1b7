import AcemqAmqp.Codecs.Codec
import AcemqAmqp.Foundations.Tasks
import AcemqAmqp.RequestReply.Serve
import Mathlib.Data.Finset.Basic

/-!
# Asking

Any number of `ask` calls on one `Requester`, the replies it consumes and the
calls of its `close`.  An `ask` waits twice, for its request to be published and
for its waiter; `close` waits for the consumer.  `_receive` never waits.
-/

namespace AcemqAmqp

open Interaction Program

theorem headerReplyTo_application : Headers.isReserved RequestReply.headerReplyTo = false := by decide

/-- `with_(correlation_id=correlation, headers={**headers, HEADER_REPLY_TO: replyQueue})`. -/
def Envelope.asking (e : Envelope) (correlation replyQueue : String) : Envelope :=
  { e.toEnvelopeFields with
    correlationId := correlation
    headers := e.headers.set RequestReply.headerReplyTo (.text replyQueue) }.settle <| by
    intro name hname
    rcases Dict.mem_set.mp hname with rfl | hold
    · exact headerReplyTo_application
    · exact e.application name hold

namespace RequestReply

/-- What is raised inside `ask`.  `timeout` is `asyncio.TimeoutError`, of which
`RequestTimeoutError` is a subclass. -/
inductive AskFailure
  | requestTimeout (text : String)
  | timeout
  | responder (text : String)
  | other (failure : Failure)

/-- What the publisher raises. -/
inductive Unsent
  | requestTimeout (text : String)
  | timeout
  | other (failure : Failure)

def Unsent.raised : Unsent → AskFailure
  | requestTimeout text => .requestTimeout text
  | timeout => .timeout
  | other failure => .other failure

/-- What `wait_for` ends with.  `closed` is what `close` left in the waiter. -/
inductive Woken
  | reply (answer : Message Bytes)
  | closed (text : String)
  | expired
  | cancelled (failure : Failure)

def Woken.outcome : Woken → Except AskFailure (Message Bytes)
  | reply answer => .ok answer
  | closed text => .error (.requestTimeout text)
  | expired => .error .timeout
  | cancelled failure => .error (.other failure)

structure Requester (Payload : Type) where
  replyQueue : String
  timeout : Duration
  positive : 0 < timeout
  origin : String
  codec : Codec Payload

inductive Asking (Payload : Type)
  | register (correlation : String)
  | send (request : Payload) (envelope : Envelope) (replyTo : String)
  | wait (deadline : Duration)
  | countTimedOut
  | pop (correlation : String)

/-- The awaits of a call, and what it does to the requester between them. -/
abbrev Round (Payload : Type) : Interface where
  Act := Asking Payload
  Ans
    | .send _ _ _ => Except Unsent Unit
    | .wait _ => Woken
    | .register _ | .countTimedOut | .pop _ => Unit

def lateText (correlation : String) (deadline : Duration) : String :=
  "acemq: no reply to " ++ correlation ++ " arrived within " ++ deadline.str

def closedText (correlation : String) : String :=
  "acemq: the requester was closed while " ++ correlation ++ " was outstanding"

def answerText (correlation : String) (failure : Value) : String :=
  "acemq: the responder could not answer " ++ correlation ++ ": " ++ failure.str

/-- What is passed to `ask`, and what it generates: the correlation identifier, and the rest of
a fresh envelope. -/
structure Question (Payload : Type) where
  request : Payload
  envelope : Option Envelope
  timeout : Option Duration
  correlation : String
  id : String
  now : Instant

section program

variable {Payload : Type} (r : Requester Payload) (ask : Question Payload)

/-- `timeout or self._timeout`. -/
def Question.deadline : Duration :=
  match ask.timeout with
  | none => r.timeout
  | some timeout => if timeout = 0 then r.timeout else timeout

/-- What goes out with the request. -/
def Question.outgoing : Envelope :=
  (ask.envelope.getD ((Envelope.new ask.id "" ask.now).withOrigin r.origin)).asking ask.correlation r.replyQueue

/-- What `ask` makes of a reply. -/
def Question.read (reply : Message Bytes) : Except AskFailure Payload :=
  let decoded := (r.codec.decode reply.body reply.contentType).mapError .other
  match reply.envelope.headers.get? headerError with
  | none => decoded
  | some failure =>
      if failure.truthy then .error (.responder (answerText ask.correlation failure)) else decoded

/-- The two handlers of `ask`. -/
def Question.handle : AskFailure → Program (Round Payload) AskFailure (Message Bytes)
  | .requestTimeout text => do
      perform (I := Round Payload) .countTimedOut
      .raise (.requestTimeout text)
  | .timeout => do
      perform (I := Round Payload) .countTimedOut
      .raise (.requestTimeout (lateText ask.correlation (ask.deadline r)))
  | failure => .raise failure

/-- `ask`. -/
def Question.program : Program (Round Payload) AskFailure Payload := do
  perform (I := Round Payload) (.register ask.correlation)
  let answer ← ((do
      call (I := Round Payload) (.send ask.request (ask.outgoing r) r.replyQueue)
        (Except.mapError Unsent.raised)
      call (I := Round Payload) (.wait (ask.deadline r)) Woken.outcome).rescue (ask.handle r)).ensure
    (perform (I := Round Payload) (.pop ask.correlation))
  ofExcept (ask.read r answer)

end program

/-! ## Calls, replies and closes -/

/-- The future an `ask` waits for.  `dropped` is one that was cancelled. -/
inductive Waiter
  | pending
  | answered (reply : Message Bytes)
  | failed (text : String)
  | dropped

def Waiter.done : Waiter → Bool
  | pending => false
  | _ => true

/-- What waiting for it can end with: a deadline or a cancellation leaves it done as well. -/
def Waiter.Gives (waiter : Waiter) : Woken → Prop
  | .reply reply => waiter = .answered reply
  | .closed text => waiter = .failed text
  | .expired => waiter.done = true
  | .cancelled _ => waiter.done = true

structure Ask (Payload : Type) extends Question Payload where
  waiter : Waiter
  events : List (Event (Round Payload))
  rest : Program (Round Payload) AskFailure Payload

/-- It has neither returned nor raised. -/
def Ask.inProgress {Payload : Type} (ask : Ask Payload) : Bool :=
  match ask.rest with
  | .ask _ _ => true
  | _ => false

inductive CloseCall
  | hasConsumer
  | closeConsumer
  | dropConsumer
  | failWaiting

abbrev Closing : Interface where
  Act := CloseCall
  Ans
    | .hasConsumer => Bool
    | .closeConsumer => Except Failure Unit
    | .dropConsumer | .failWaiting => Unit

/-- `close`. -/
def close : Program Closing Failure Unit := do
  if ← perform (I := Closing) .hasConsumer then
    call (I := Closing) .closeConsumer id
    perform (I := Closing) .dropConsumer
  perform (I := Closing) .failWaiting

/-- A requester with all that was ever asked of it, by the identifiers the calls generated.
`waiting` has the keys of `_waiting`, and `received` the replies, each with the identifier of the
call whose waiter it was handed to. -/
structure Requests (Payload : Type) where
  waiting : Finset String
  consuming : Bool
  timedOut : ℕ
  unmatched : ℕ
  received : List (Message Bytes × Option String)
  asks : String → Option (Ask Payload)
  closes : List (Program Closing Failure Unit)

section moves

variable {Payload : Type}

namespace Requests

variable (s : Requests Payload)

/-- Somebody waits under this identifier, and has not been answered. -/
def awaits (id : String) : Bool := decide (id ∈ s.waiting) && (s.asks id).any fun ask ↦ !ask.waiter.done

/-- What becomes of the waiter a call has. -/
def settle (id : String) (waiter : Waiter) : String → Option (Ask Payload) :=
  Function.update s.asks id ((s.asks id).map fun ask ↦ { ask with waiter := waiter })

/-- `_receive`. -/
def receive (reply : Message Bytes) : Requests Payload :=
  let id := reply.envelope.correlationId
  let popped := { s with waiting := s.waiting.erase id }
  if s.awaits id then
    { popped with
      received := s.received ++ [(reply, some id)]
      asks := s.settle id (.answered reply) }
  else
    { popped with
      received := s.received ++ [(reply, none)]
      unmatched := s.unmatched + 1 }

/-- The loop at the end of `close`, and the `clear` behind it. -/
def failWaiting : Requests Payload :=
  { s with
    waiting := ∅
    asks := fun id ↦ if s.awaits id then s.settle id (.failed (closedText id)) id else s.asks id }

end Requests

def atOnce : AtOnce (Requests Payload) (Round Payload)
  | .register correlation => some fun s ↦ ((), { s with waiting := insert correlation s.waiting })
  | .countTimedOut => some fun s ↦ ((), { s with timedOut := s.timedOut + 1 })
  | .pop correlation => some fun s ↦ ((), { s with waiting := s.waiting.erase correlation })
  | .send _ _ _ => none
  | .wait _ => none

def closeAtOnce : AtOnce (Requests Payload) Closing
  | .hasConsumer => some fun s ↦ (s.consuming, s)
  | .dropConsumer => some fun s ↦ ((), { s with consuming := false })
  | .failWaiting => some fun s ↦ ((), s.failWaiting)
  | .closeConsumer => none

namespace Requests

/-- `ask` is called, and goes on until it waits. -/
def asked (r : Requester Payload) (s : Requests Payload) (question : Question Payload) : Requests Payload :=
  let gone := advance atOnce (question.program r) s
  { gone.state with
    asks := Function.update s.asks question.correlation
      (some { question with waiter := .pending, events := gone.events, rest := gone.rest }) }

/-- A call gets an answer, and goes on until it waits or is over. -/
def resumed (s : Requests Payload) (id : String) (ask : Ask Payload) (event : Event (Round Payload))
    (rest : Program (Round Payload) AskFailure Payload) : Requests Payload :=
  let gone := advance atOnce rest s
  { gone.state with
    asks := Function.update s.asks id
      (some { ask with events := ask.events ++ event :: gone.events, rest := gone.rest }) }

/-- The same of a call of `close`. -/
def closeResumed (s : Requests Payload) (before after : List (Program Closing Failure Unit))
    (rest : Program Closing Failure Unit) : Requests Payload :=
  let gone := advance closeAtOnce rest s
  { gone.state with closes := before ++ gone.rest :: after }

end Requests

/-- What can happen next.  A correlation identifier is a fresh UUID.  A call that waits for its
waiter can be cut short at any time, by its deadline or by who called it. -/
inductive Move (r : Requester Payload) : Requests Payload → Requests Payload → Prop
  | ask {s : Requests Payload} (question : Question Payload) : s.asks question.correlation = none →
      Move r s (s.asked r question)
  | reply {s : Requests Payload} (reply : Message Bytes) : Move r s (s.receive reply)
  | sent {s : Requests Payload} {id : String} {ask : Ask Payload} {request : Payload} {envelope : Envelope}
      {replyTo : String} {next : Except Unsent Unit → Program (Round Payload) AskFailure Payload}
      (answer : Except Unsent Unit) :
      s.asks id = some ask → ask.rest = .ask (.send request envelope replyTo) next →
      Move r s (s.resumed id ask ⟨.send request envelope replyTo, answer⟩ (next answer))
  | cutShort {s : Requests Payload} {id : String} {ask : Ask Payload} {deadline : Duration}
      {next : Woken → Program (Round Payload) AskFailure Payload} :
      s.asks id = some ask → ask.rest = .ask (.wait deadline) next → ask.waiter = .pending →
      Move r s { s with asks := s.settle id .dropped }
  | woken {s : Requests Payload} {id : String} {ask : Ask Payload} {deadline : Duration}
      {next : Woken → Program (Round Payload) AskFailure Payload} {answer : Woken} :
      s.asks id = some ask → ask.rest = .ask (.wait deadline) next → ask.waiter.Gives answer →
      Move r s (s.resumed id ask ⟨.wait deadline, answer⟩ (next answer))
  | close {s : Requests Payload} : Move r s (s.closeResumed s.closes [] RequestReply.close)
  | closed {s : Requests Payload} {before after : List (Program Closing Failure Unit)}
      {next : Except Failure Unit → Program Closing Failure Unit} (answer : Except Failure Unit) :
      s.closes = before ++ .ask .closeConsumer next :: after →
      Move r s (s.closeResumed before after (next answer))

/-- What a requester comes to, from when it is opened. -/
inductive Reached (r : Requester Payload) : Requests Payload → Prop
  | opened : Reached r ⟨∅, true, 0, 0, [], fun _ ↦ none, []⟩
  | move {s s' : Requests Payload} : Reached r s → Move r s s' → Reached r s'

end moves

end RequestReply

end AcemqAmqp
