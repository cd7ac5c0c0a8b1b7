import AcemqAmqp.Consumer.Listeners
import AcemqAmqp.Publishing.Chain

/-!
# Spans around handlers

`OpenTelemetryTracing`, the consuming side of it: the interceptor that starts a
`process` span, and the listener that writes down how the delivery was settled
and ends it.  The tracer is an environment that keeps a table of spans.
-/

namespace AcemqAmqp

/-- The word for an outcome on a span and on a counter. -/
def Outcome.word : Outcome → String
  | .acked => "acked"
  | .retried => "retried"
  | .rejected => "rejected"
  | .deadLettered => "dead_lettered"
  | .parked => "parked"
  | .inProgress => "in_progress"
  | .stopped => "stopped"

/-- `Settlement.dead_lettered`. -/
def Settlement.deadLettered (s : Settlement) : Bool := s.outcome = .rejected ∨ s.outcome = .deadLettered

namespace Tracing

open Interaction Program Consumer Telemetry

/-! ## Spans -/

abbrev Attributes := Dict String Value

inductive SpanKind
  | producer
  | consumer
  deriving DecidableEq

structure Span where
  name : String
  kind : SpanKind
  /-- What the parent is read from; the span that is current, when there is nothing. -/
  parent : Option (Dict String String)
  attributes : Attributes
  status : Option String
  events : List (String × Attributes)
  exceptions : List Failure
  ends : ℕ

/-- What can be done to a span. -/
inductive Write
  | setAttribute (name : String) (value : Value)
  | setStatus (description : String)
  | addEvent (name : String) (attributes : Attributes)
  | recordException (failure : Failure)
  | finish

/-- A span that has ended is not written on. -/
def Span.unended (span written : Span) : Span := if span.ends = 0 then written else span

/-- Ends are counted. -/
def Span.write (span : Span) : Write → Span
  | .setAttribute name value => span.unended { span with attributes := span.attributes.set name value }
  | .setStatus description => span.unended { span with status := some description }
  | .addEvent name attributes => span.unended { span with events := span.events ++ [(name, attributes)] }
  | .recordException failure => span.unended { span with exceptions := span.exceptions ++ [failure] }
  | .finish => { span with ends := span.ends + 1 }

/-- Spans are known by their place in the tracer's table. -/
inductive Act
  | startSpan (name : String) (kind : SpanKind) (parent : Option (Dict String String)) (attributes : Attributes)
  | inject (span : ℕ)
  | write (span : ℕ) (w : Write)

abbrev Tracer : Interface where
  Act := Act
  Ans
    | .startSpan _ _ _ _ => ℕ
    | .inject _ => Dict String String
    | .write _ _ => Unit

/-- What the tracer does.  `carrier` is what its propagator writes for a span. -/
def keep (carrier : ℕ → Dict String String) (spans : List Span) : (q : Act) → Tracer.Ans q × List Span
  | .startSpan name kind parent attributes =>
      (spans.length, spans ++ [⟨name, kind, parent, attributes, none, [], [], 0⟩])
  | .inject span => (carrier span, spans)
  | .write span w => ((), spans.modify span (·.write w))

/-! ## What is written on them -/

def attrSystem : String := "messaging.system"
def attrDestination : String := "messaging.destination.name"
def attrOperation : String := "messaging.operation"
def attrMessageId : String := "messaging.message.id"
def attrConversationId : String := "messaging.message.conversation_id"
def attrRoutingKey : String := "messaging.rabbitmq.destination.routing_key"
def attrMessageType : String := "messaging.acemq.message_type"
def attrAttempt : String := "messaging.acemq.attempt"
def attrOutcome : String := "messaging.acemq.outcome"
def attrReason : String := "messaging.acemq.reason"
def attrRetryDelay : String := "messaging.acemq.retry_delay_ms"

def errorOutcomes : List String := [outcomeUnroutable, outcomeFailed, Outcome.deadLettered.word]

/-- `_outcome`. -/
def outcome (word : String) : List Write :=
  .setAttribute attrOutcome (.text word) :: if word ∈ errorOutcomes then [.setStatus word] else []

/-- `_failed`. -/
def failed (failure : Failure) : List Write :=
  [.recordException failure, .setStatus (orElse failure.text "failed")]

/-- `_millis`. -/
def delayMillis (delay : Duration) : ℤ :=
  Binary64.truncate (Binary64.binary64 (Binary64.binary64 (delay / 1000000) * 1000))

def retryAttributes (queue : String) (envelope : Envelope) (delayMs : ℤ) : Attributes :=
  .ofList [(attrDestination, .text queue), (attrRetryDelay, .int delayMs), (attrAttempt, .int envelope.attempt)]

def deadLetterAttributes (queue : String) (envelope : Envelope) (reason : String) : Attributes :=
  .ofList [(attrDestination, .text queue), (attrReason, .text reason), (attrAttempt, .int envelope.attempt)]

/-- The event a settlement is recorded as, if any. -/
def settlementEvents (queue : String) (envelope : Envelope) (settlement : Settlement) :
    List (String × Attributes) :=
  match settlement.delay with
  | some delay => [("message.retried", retryAttributes queue envelope (delayMillis delay))]
  | none =>
      if settlement.deadLettered then
        [("message.dead_lettered", deadLetterAttributes queue envelope (settlement.reason.getD ""))]
      else []

variable {Payload : Type} {S : Interface}

def writeAll {ε : Type} (span : ℕ) : List Write → Program Tracer ε Unit
  | [] => .ret ()
  | w :: rest => .ask (I := Tracer) (.write span w) fun _ ↦ writeAll span rest

def settledWrites (queue : String) (envelope : Envelope) (settlement : Settlement) : List Write :=
  (settlementEvents queue envelope settlement).map (fun event ↦ .addEvent event.1 event.2) ++
    outcome settlement.outcome.word ++ [.finish]

/-- `_settlement_recorder`. -/
def settlementRecorder (span : ℕ) : SettlementListener Payload (Tracer.sum S) := fun context settlement ↦
  aside (writeAll span (settledWrites context.queue context.envelope settlement))

/-! ## The interceptor -/

def traceparent : String := "traceparent"
def tracestate : String := "tracestate"

/-- The carrier of `_parent_of`. -/
def parentOf (envelope : Envelope) : Dict String String :=
  .ofList <| envelope.headers.items.filterMap fun (name, value) ↦
    match value with
    | .null => none
    | v => if name = traceparent ∨ name = tracestate then some (name, v.str) else none

def processAttributes (system : String) (context : ConsumeContext Payload) : Attributes :=
  .ofList
    [(attrSystem, .text system), (attrDestination, .text context.queue), (attrOperation, .text "process"),
      (attrMessageId, .text context.envelope.id), (attrConversationId, .text context.envelope.correlationId),
      (attrMessageType, .text context.envelope.type), (attrAttempt, .int context.envelope.attempt)]

/-- `_ACK_OUTCOMES`. -/
def ackOutcome : Action → Outcome
  | .accept => .acked
  | .retry => .retried
  | .reject => .rejected
  | .park => .parked
  | .inProgress => .inProgress

/-- What the interceptor writes down before the settlement is known. -/
def noted : Except Failure Decision → List Write
  | .ok (.ack given) => outcome (ackOutcome given.action).word ++ given.error.toList.map .recordException
  | .ok (.other _) => []
  | .error failure => outcome outcomeFailed ++ failed failure

/-- `ack.action`, of what is not an `Ack`. -/
def attributeError (typeName : String) : Failure :=
  ⟨.exception, "AttributeError", "'" ++ typeName ++ "' object has no attribute 'action'"⟩

/-- What the interceptor hands on. -/
def handedOn : Except Failure Decision → Except Failure Decision
  | .ok (.other typeName) => .error (attributeError typeName)
  | answer => answer

/-- What an interceptor does in surroundings of its own. -/
def within {α : Type} : Program S Empty α → Program (Intercepting Payload S) Empty α
  | .ret a => .ret a
  | .raise e => .raise e
  | .ask q next => .ask (I := Intercepting Payload S) (.other q) fun r ↦ within (next r)

def startProcess (system : String) (context : ConsumeContext Payload) : Act :=
  .startSpan (context.queue ++ " process") .consumer (some (parentOf context.envelope))
    (processAttributes system context)

/-- `consume_interceptor`.  A span that no listener is going to end ends on the way out. -/
def consumeInterceptor (system : String) : Interceptor Payload (Tracer.sum S) := fun context ↦
  (within (aside (.perform (I := Tracer) (startProcess system context)))).bind fun span ↦
    .ask (I := Intercepting Payload (Tracer.sum S)) (.whenSettled (settlementRecorder span)) fun settled ↦
      .ask (I := Intercepting Payload (Tracer.sum S)) (.handle context) fun handled ↦
        (within (aside (writeAll span (noted handled.2 ++ if settled then [] else [.finish])))).bind fun _ ↦
          .ret (handled.1, handedOn handled.2)

/-! ## The interceptor in a chain -/

section step

variable {reports : Bool} {rest : Rest Payload S} {α : Type}

theorem through_within (p : Program S Empty α) (f : α → Program (Intercepting Payload S) Empty (Handled Payload))
    (listeners : Listeners Payload S) :
    ((within p).bind f).through (answered reports rest) listeners =
      (beside p).bind fun a ↦ (f a).through (answered reports rest) listeners := by
  induction p with
  | ret a => rfl
  | raise e => exact e.elim
  | ask q next ih => exact congrArg (ask _) (funext ih)

/-- What is written on the way out of the interceptor. -/
def wayOut (reports : Bool) (answer : Except Failure Decision) : List Write :=
  noted answer ++ if reports then [] else [.finish]

theorem consumeStep_traced {rest : Rest Payload (Tracer.sum S)} (system : String) (context : ConsumeContext Payload)
    (listeners : Listeners Payload (Tracer.sum S)) :
    consumeStep reports (consumeInterceptor system) rest context listeners =
      (beside (aside (.perform (I := Tracer) (startProcess system context)))).bind fun span ↦
        (rest context (whenSettled reports (settlementRecorder span) listeners).2).bind fun answered ↦
          (beside (aside (writeAll span (wayOut reports answered.1.2)))).bind fun _ ↦
            .ret ((answered.1.1, handedOn answered.1.2), answered.2) := by
  refine (through_within _ _ _).trans (congrArg _ (funext fun span ↦ ?_))
  show (rest context _).bind _ = _
  refine congrArg _ (funext fun answered ↦ (through_within _ _ _).trans ?_)
  cases reports <;> rfl

end step

end Tracing

end AcemqAmqp
