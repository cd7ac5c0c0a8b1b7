import AcemqAmqp.Consumer.Undeliverable
import AcemqAmqp.Foundations.Expansion
import AcemqAmqp.Topology.Description

/-!
# The ladder of a scheduler

A message that is due later waits in queues whose messages all wait equally
long, and comes back to the control queue in between.  What it needs to go on,
it carries in headers of its own.
-/

namespace AcemqAmqp

namespace Scheduler

open Interaction Program Binary64

/-! ## Names -/

def scheduleExchange : String := "acemq.schedule"
def scheduleDue : String := "acemq.schedule.due"

def headerExchange : String := "x-schedule-exchange"
def headerRoutingKey : String := "x-schedule-routing-key"
def headerDueAt : String := "x-schedule-due-at"
def headerContentType : String := "x-schedule-content-type"

def scheduledType : String := "ScheduledMessage"

def jsonContentType : String := "application/json"
def bytesContentType : String := "application/octet-stream"

/-- The rungs, longest first. -/
def scheduleRungs : List Duration := [3600000000, 600000000, 60000000, 10000000, 1000000]

/-- `SCHEDULE_RUNGS[-1]`. -/
def lastRung : Duration := scheduleRungs.getLast (by decide)

/-- How long a due message that could not be delivered waits before the next try. -/
def scheduleRetryRung : Duration := 10000000

/-- `_describe`. -/
def describeRung (rung : Duration) : String :=
  let millis := timeToLive rung
  if millis % 3600000 = 0 then toString (millis / 3600000) ++ "h"
  else if millis % 60000 = 0 then toString (millis / 60000) ++ "m"
  else toString (millis / 1000) ++ "s"

def scheduleRungName (rung : Duration) : String := scheduleExchange ++ "." ++ describeRung rung

def scheduleRungArgs (rung : Duration) : Dict String Value :=
  .ofList [(messageTtlArg, .int (timeToLive rung)), (deadLetterExchangeArg, .text scheduleExchange),
    (deadLetterRoutingKeyArg, .text scheduleDue)]

/-- `topology.queue(…)`, in a chain of calls. -/
def queued (t : Topology) (name : String) (o : Topology.QueueOptions) : Except Failure Topology :=
  match t.queue name o with
  | (.ok (), t) => .ok t
  | (.error e, _) => .error e

/-- `schedule_topology`: the rungs and the control queue, each bound on its own name. -/
def scheduleTopology : Except Failure Topology := do
  let t ← Topology.empty.exchange scheduleExchange "direct" true false ∅
  let t ← scheduleRungs.foldlM (fun t rung ↦ do
    let t ← queued t (scheduleRungName rung) { quorum := some false, args := scheduleRungArgs rung }
    return t.binding (scheduleRungName rung) scheduleExchange (scheduleRungName rung)) t
  let t ← queued t scheduleDue { quorum := some false }
  return t.binding scheduleDue scheduleExchange scheduleDue

/-! ## Reading a header -/

def aceMQError (text : String) : Failure := ⟨.exception, "AceMQError", text⟩

/-- `_number`: a due time as an integer. -/
def dueNumber (value : Value) : Except Failure ℤ :=
  let unreadable := aceMQError ("acemq: " ++ headerDueAt ++ " is not a number: " ++ value.repr)
  match value with
  | .bool _ => .error unreadable
  | .int n => .ok n
  | value =>
      match int? (text (some value)) with
      | some n => .ok n
      | none => .error unreadable

/-- `_millis`: rounded towards 1970. -/
def dueMillis (when_ : Instant) : ℤ := truncate (binary64 (when_.timestamp * 1000))

/-- What a message must carry that reaches the control queue. -/
def missingHeaders : Failure := aceMQError <|
  "acemq: a message reached " ++ scheduleDue ++ " without the headers a scheduled message " ++
    "carries. Something else is publishing into the scheduler's queues, which it must not: " ++
    "they are an implementation detail"

/-! ## Moving a message -/

inductive Act
  | now
  | fresh
  | publish (exchange routingKey : String) (message : Outbound)

/-- The scheduler's surroundings. -/
abbrev Surroundings : Interface where
  Act := Act
  Ans
    | .now => Instant
    | .fresh => String
    | .publish _ _ _ => BrokerAnswer

abbrev Step (α : Type) := Program Surroundings Failure α

def now : Step Instant := .perform (I := Surroundings) .now

def fresh : Step String := .perform (I := Surroundings) .fresh

end Scheduler

/-- A scheduler on a connection.  `contentType` is its codec's, and `retry` the
connection's policy, which its consumer takes. -/
structure Scheduler where
  connection : Connection
  origin : String
  retry : RetryPolicy
  contentType : String

namespace Scheduler

open Interaction Program

variable (s : Scheduler)

/-- The publisher of a hop or a delivery. -/
def publisher (exchange routingKey contentType : String) : Publisher :=
  ⟨s.connection, s.origin, exchange, routingKey, contentType, true, true⟩

/-- `publisher(…).send(body, envelope=Envelope(type=SCHEDULED_TYPE, headers=headers))`. -/
def send (exchange routingKey contentType : String) (body : Bytes) (headers : ApplicationHeaders) :
    Step Unit := do
  let id ← fresh
  let firstSeen ← now
  let p := s.publisher exchange routingKey contentType
  let message := p.outbound body (.carrying id scheduledType firstSeen headers)
  let _ ← Program.call (I := Surroundings) (.publish exchange routingKey message) (p.sent message)
  return ()

/-- `_hop`: into a rung. -/
def hop (body : Bytes) (headers : ApplicationHeaders) (rung : Duration) : Step Unit :=
  s.send scheduleExchange (scheduleRungName rung) bytesContentType body headers

def noHeaders : ApplicationHeaders := ⟨∅, fun _ h ↦ absurd h List.not_mem_nil⟩

/-- Where a message was always going, and what as. -/
def destination (headers : Dict String Value) : String := text (headers.get? headerExchange)

def destinationKey (headers : Dict String Value) : String := text (headers.get? headerRoutingKey)

def destinationType (headers : Dict String Value) : String :=
  orElse (text (headers.get? headerContentType)) jsonContentType

/-- `_deliver`: on to its destination, or round a rung when that fails. -/
def deliver (body : Bytes) (headers : ApplicationHeaders) : Step Unit :=
  (s.send (destination headers.1) (destinationKey headers.1) (destinationType headers.1) body
    noHeaders).rescue fun refused ↦
      if refused.isException then s.hop body headers scheduleRetryRung else .raise refused

/-- `_route`: delivered when it is due, and otherwise into the largest rung that
does not overshoot. -/
def route (body : Bytes) (headers : ApplicationHeaders) (when_ : Instant) : Step Unit := do
  let read ← now
  let remaining : Duration := when_ - read
  if remaining < lastRung then s.deliver body headers
  else s.hop body headers ((scheduleRungs.find? (· ≤ remaining)).getD lastRung)

/-- What `_forward` reads of a message's headers: when it is due, or how it ends. -/
def dueAt (headers : Dict String Value) : Except Ack (Except Failure Instant) :=
  match headers.get? headerDueAt with
  | none | some .null => .error (.reject (some missingHeaders))
  | some due =>
      if headerExchange ∉ headers ∨ headerRoutingKey ∉ headers then
        .error (.reject (some missingHeaders))
      else
        match dueNumber due with
        | .error unreadable => .error (.reject (some unreadable))
        | .ok millis => .ok (fromTimestamp millis)

/-- `_forward`.  A due time that is a number and not a `datetime` is not an
`AceMQError`: it is raised. -/
def forward (message : Message Bytes) : Step Ack :=
  match dueAt message.envelope.headers with
  | .error answer => .ret answer
  | .ok (.error f) => .raise f
  | .ok (.ok when_) =>
      ((s.route message.body ⟨message.envelope.headers, message.envelope.application⟩ when_).bind
        fun _ ↦ .ret Ack.accept).rescue fun failure ↦
          if failure.isException then .ret (.inProgress defaultInProgressDelay) else .raise failure

/-! ## Scheduling -/

/-- A `datetime` that knows its time zone, or one that does not. -/
inductive Moment
  | aware (when_ : Instant)
  | naive (text : String)

/-- The four headers of a scheduled message. -/
def headerNames : List String :=
  [headerExchange, headerRoutingKey, headerDueAt, headerContentType]

theorem headerNames_free : ∀ name ∈ headerNames, Headers.isReserved name = false := by decide

/-- The headers `at` gives a message. -/
def headersFor (exchange routingKey contentType : String) (when_ : Instant) :
    ApplicationHeaders where
  val := .ofList [(headerExchange, .text exchange), (headerRoutingKey, .text routingKey),
    (headerDueAt, .int (dueMillis when_)), (headerContentType, .text contentType)]
  property := headerNames_free

/-- `at`.  `encoded` is what the codec makes of the payload. -/
def at_ (when_ : Moment) (exchange routingKey : String) (encoded : Except Failure Bytes) : Step Unit :=
  match when_, encoded with
  | .naive written, _ => .raise <| valueError <| "acemq: " ++ written ++
      " has no time zone, and a scheduled message needs one. " ++
      "Use datetime.now(timezone.utc) rather than datetime.now()"
  | .aware _, .error f => .raise f
  | .aware when_, .ok body =>
      s.route body (headersFor exchange routingKey s.contentType when_) when_

/-- `after`. -/
def after (delay : Duration) (exchange routingKey : String) (encoded : Except Failure Bytes) :
    Step Unit := do
  let read ← now
  let when_ : Instant := read + delay
  if Instant.min ≤ when_ ∧ when_ ≤ Instant.max then
    s.at_ (.aware when_) exchange routingKey encoded
  else .raise ⟨.exception, "OverflowError", "date value out of range"⟩

/-! ## The consumer of the control queue -/

/-- The consumer `open` starts. -/
def consumer : Consumer := ⟨s.connection, scheduleDue, s.retry, false⟩

/-- The consumer's surroundings and the scheduler's. -/
abbrev Around : Interface := (Consumer.Broker Bytes).sum Surroundings

/-- What the consumer asks, answered: bodies are left as they are, and the
handler is `_forward`, with no interceptor before it. -/
def answering : (q : Consumer.Act Bytes) → Program Around Empty ((Consumer.Broker Bytes).Ans q)
  | .decode body _ => .ret (.ok body)
  | .invoke context => (beside (s.forward context.message).outcome).andThen fun answer ↦
      .ret (context.envelope, answer.map .ack)
  | q => .perform (I := Around) (.inl q)

/-- One delivery to the control queue, from arrival to settlement. -/
def handle (fresh : String) (read : Instant) (d : Delivery) : Program Around Failure Unit :=
  (s.consumer.handle fresh read d).expand s.answering

end Scheduler

end AcemqAmqp
