import AcemqAmqp.Core.Retry
import AcemqAmqp.Core.Transport
import AcemqAmqp.Foundations.Program

/-!
# Handling one delivery

`Consumer._handle` and what it calls, as a program over the codec, the handler
with its interceptors, the clock, the broker and the delivery's own settlement.
The interceptor chain and the handler are one question: what comes back is the
envelope they left and what they returned or raised.  Log lines, settlement
listeners and what the observer does with a number are left out, and they cannot
change the course of a delivery.  What can is here: the attempt is made a float
for the observer before anything else is done.
-/

namespace AcemqAmqp

open Interaction

/-- What the interceptors and the handler are given. -/
structure ConsumeContext (Payload : Type) where
  queue : String
  envelope : Envelope
  payload : Payload
  body : Bytes
  contentType : Option String
  routingKey : String
  redelivered : Bool
  replyTo : String

/-- A delivery that has been decoded. -/
structure Message (Payload : Type) where
  payload : Payload
  envelope : Envelope
  routingKey : String
  contentType : Option String
  redelivered : Bool
  body : Bytes
  replyTo : String

/-- The message `_run_handler` builds of what the interceptors left. -/
def ConsumeContext.message {Payload : Type} (context : ConsumeContext Payload) : Message Payload where
  payload := context.payload
  envelope := context.envelope
  routingKey := context.routingKey
  contentType := context.contentType
  redelivered := context.redelivered
  body := context.body
  replyTo := context.replyTo

structure Consumer where
  connection : Connection
  queue : String
  retry : RetryPolicy
  halted : Bool

/-- How long a delivery that could not be set aside is held before it is requeued. -/
def setAsideRefusedDelay : Duration := 1000000

namespace Consumer

variable {Payload : Type}

inductive Act (Payload : Type)
  | decode (body : Bytes) (contentType : Option String)
  | invoke (context : ConsumeContext Payload)
  | now
  | random
  | publish (exchange routingKey : String) (message : Outbound)
  | sleep (delay : Duration)
  | halt
  | ack (tag : ℕ)
  | nack (tag : ℕ) (requeue : Bool)

/-- The consumer's surroundings. -/
abbrev Broker (Payload : Type) : Interface where
  Act := Act Payload
  Ans
    | .decode _ _ => Except Failure Payload
    | .invoke _ => Envelope × Except Failure Decision
    | .now => Instant
    | .random => ℚ
    | .publish _ _ _ => BrokerAnswer
    | .sleep _ => Unit
    | .halt => Unit
    | .ack _ => Except Failure Unit
    | .nack _ _ => Except Failure Unit

abbrev Step (Payload α : Type) := Program (Broker Payload) Failure α

def ack (delivery : Delivery) : Step Payload Unit :=
  .call (I := Broker Payload) (.ack delivery.tag) id

def nack (delivery : Delivery) (requeue : Bool) : Step Payload Unit :=
  .call (I := Broker Payload) (.nack delivery.tag requeue) id

def sleep (delay : Duration) : Step Payload Unit :=
  .perform (I := Broker Payload) (.sleep delay)

def now : Step Payload Instant := .perform (I := Broker Payload) .now

def random : Step Payload ℚ := .perform (I := Broker Payload) .random

def halt : Step Payload Unit := .perform (I := Broker Payload) .halt

def decode (body : Bytes) (contentType : Option String) :
    Step Payload (Except Failure Payload) :=
  .perform (I := Broker Payload) (.decode body contentType)

def invoke (context : ConsumeContext Payload) : Step Payload (Envelope × Except Failure Decision) :=
  .perform (I := Broker Payload) (.invoke context)

/-- The original bytes, under the headers of `envelope`. -/
def hop (delivery : Delivery) (envelope : Envelope) : Outbound where
  body := delivery.body
  contentType := delivery.contentType.getD ""
  messageId := envelope.id
  replyTo := ""
  headers := envelope.toHeaders delivery.routingKey
  persistent := true
  mandatory := true

variable (c : Consumer)

def republish (delivery : Delivery) (queue : String) (envelope : Envelope) :
    Step Payload Bool := do
  let message := hop delivery envelope
  let result ← Program.rescue
    (.call (I := Broker Payload) (.publish "" queue message)
      (c.connection.publishRaw "" queue message))
    fun refused ↦
      if refused.isPublishError then .raise (.hopRefused refused) else .raise refused
  return result.routed

/-- `try: delivered = …  except _HopRefusedError: delivered = False`. -/
def republished (delivery : Delivery) (queue : String) (envelope : Envelope) :
    Step Payload Bool :=
  (c.republish delivery queue envelope).rescue fun e ↦
    if e.kind = .hopRefused then .ret false else .raise e

def setAside (delivery : Delivery) (envelope : Envelope) (target reason : String) :
    Step Payload Unit := do
  let failed := envelope.withError reason
  let delivered ← c.republished delivery target failed
  if delivered then ack delivery
  else do
    sleep setAsideRefusedDelay
    nack delivery true

def park (delivery : Delivery) (envelope : Envelope) (reason : String) : Step Payload Unit :=
  c.setAside delivery envelope (parkedQueue c.queue) reason

def deadLetter (delivery : Delivery) (envelope : Envelope) (reason : String) :
    Step Payload Unit :=
  c.setAside delivery envelope (deadLetterQueue c.queue) reason

def putBack (delivery : Delivery) (envelope : Envelope) (delay : Duration) :
    Step Payload Unit := do
  if 0 < delay then sleep delay
  let delivered ← c.republished delivery c.queue envelope
  if delivered then ack delivery else nack delivery true

def retryAgain (delivery : Delivery) (envelope : Envelope) : Step Payload Unit := do
  let nextAttempt := envelope.withAttempt (envelope.attempt + 1)
  let delivered ← c.republished delivery c.queue nextAttempt
  if delivered then ack delivery else nack delivery true

/-- Whether the delivery has been dealt with; `false` means that there is no such rung. -/
def retryInBroker (delivery : Delivery) (envelope : Envelope) (delay : Duration) :
    Step Payload Bool := do
  let rung := retryQueue c.queue delay
  let nextAttempt := envelope.withAttempt (envelope.attempt + 1)
  let routed ← ((c.republish delivery rung nextAttempt).bind fun r ↦ .ret (some r)).rescue fun e ↦
    if e.kind = .hopRefused then .ret none else .raise e
  match routed with
  | none => do
      nack delivery true
      return true
  | some false => return false
  | some true => do
      ack delivery
      return true

def exhausted (envelope : Envelope) : String :=
  if c.retry.maxAttempts ≤ envelope.attempt then
    "exhausted " ++ toString c.retry.maxAttempts ++ " attempt" ++
      if c.retry.maxAttempts = 1 then "" else "s"
  else "exceeded the maximum message age of " ++ c.retry.maxMessageAge.str

/-- `_decide`.  The clock and the dice are read only on the way to the policy. -/
def decide (envelope : Envelope) (decision : Ack) :
    Step Payload (Settlement × Option Wait) :=
  let why (words : String) : Option String := some (words ++ describe decision.error)
  match decision.action with
  | .accept => return (⟨.acked, none, none⟩, none)
  | .reject => return (⟨.rejected, why "the handler rejected it: ", none⟩, none)
  | .park => return (⟨.parked, why "the handler parked it: ", none⟩, none)
  | .inProgress =>
      let delay := decision.delay.getD 0
      return (⟨.inProgress, none, some delay⟩, some ⟨delay, false⟩)
  | .retry =>
      if decision.error.any Failure.isStopReading then
        return (⟨.stopped, why "the reader stopped at it: ", none⟩, none)
      else if decision.error.any Failure.isFatal then
        return (⟨.deadLettered, why "the handler reported an unprocessable message: ", none⟩, none)
      else do
        let arrived ← now
        let draw ← random
        match c.retry.nextWait envelope.attempt (arrived - envelope.firstSeen) draw with
        | .error overflow => .raise overflow
        | .ok none =>
            return (⟨.deadLettered, why (c.exhausted envelope ++ ": "), none⟩, none)
        | .ok (some wait) => return (⟨.retried, none, some wait.delay⟩, some wait)

def carryOut (delivery : Delivery) (envelope : Envelope) (settlement : Settlement)
    (wait : Option Wait) : Step Payload Unit :=
  match settlement.outcome, wait with
  | .acked, _ => ack delivery
  | .stopped, _ => do
      halt
      nack delivery true
  | .parked, _ => c.park delivery envelope (settlement.reason.getD "")
  | _, none => c.deadLetter delivery envelope (settlement.reason.getD "")
  | .inProgress, some wait => c.putBack delivery envelope wait.delay
  | _, some wait => do
      let dealtWith ← if wait.inBroker then c.retryInBroker delivery envelope wait.delay
        else pure false
      if dealtWith then pure ()
      else do
        if 0 < wait.delay then sleep wait.delay
        c.retryAgain delivery envelope

def handleOne (delivery : Delivery) (envelope : Envelope) : Step Payload Unit :=
  if c.halted then nack delivery true
  else do
    match ← decode delivery.body delivery.contentType with
    | .error failure =>
        if failure.isException then
          c.park delivery envelope ("could not be decoded: " ++ describe (some failure))
        else .raise failure
    | .ok payload => do
        let (envelope, answer) ← invoke
          { queue := c.queue
            envelope := envelope
            payload := payload
            body := delivery.body
            contentType := delivery.contentType
            routingKey := delivery.routingKey
            redelivered := delivery.redelivered
            replyTo := delivery.replyTo }
        match answer with
        | .ok (.ack decision) => do
            let (settlement, wait) ← c.decide envelope decision
            c.carryOut delivery envelope settlement wait
        | .ok (.other typeName) =>
            c.carryOut delivery envelope ⟨.deadLettered,
              some ("the handler returned " ++ typeName ++ " instead of an Ack"), none⟩ none
        | .error failure =>
            if failure.isException then do
              let (settlement, wait) ← c.decide envelope (.retry (some failure))
              c.carryOut delivery envelope settlement wait
            else .raise failure

/-- The envelope of a delivery, once its attempt has been observed. -/
def arrive (fresh : String) (now : Instant) (delivery : Delivery) : Except Failure Envelope :=
  match Envelope.fromHeaders fresh now delivery.headers delivery.routingKey delivery.messageId with
  | none => .error (delivery.unreadable now)
  | some envelope => (toFloat envelope.attempt).map fun _ ↦ envelope

/-- `_handle`: an exception before `_handle_one` leaves the delivery unsettled. -/
def handle (fresh : String) (now : Instant) (delivery : Delivery) : Step Payload Unit :=
  match arrive fresh now delivery with
  | .error failure => .raise failure
  | .ok envelope => c.handleOne delivery envelope

section handle

variable {c} {fresh : String} {now : Instant} {d : Delivery} {e : Envelope} {failure : Failure}

theorem arrive_ok_iff : arrive fresh now d = .ok e ↔
    Envelope.fromHeaders fresh now d.headers d.routingKey d.messageId = some e ∧
      e.attempt < Binary64.bound := by
  unfold arrive
  cases Envelope.fromHeaders fresh now d.headers d.routingKey d.messageId with
  | none => simp
  | some envelope =>
      rw [Option.some.injEq, ← toFloat_ok_iff e.one_le_attempt]
      dsimp only
      constructor
      · intro h
        cases hfloat : toFloat envelope.attempt with
        | error overflow =>
            rw [hfloat] at h
            cases h
        | ok x =>
            rw [hfloat] at h
            obtain rfl := Except.ok.inj h
            exact ⟨rfl, x, hfloat⟩
      · rintro ⟨rfl, x, hfloat⟩
        rw [hfloat]
        rfl

theorem arrive_of_small (h : Envelope.fromHeaders fresh now d.headers d.routingKey d.messageId = some e)
    (hattempt : e.attempt < Binary64.bound) : arrive fresh now d = .ok e :=
  arrive_ok_iff.mpr ⟨h, hattempt⟩

/-- A message with no headers at all arrives. -/
theorem arrive_empty (h : d.headers = ∅) : arrive fresh 0 d =
    .ok (.new (orElse d.messageId fresh) (orElse d.routingKey defaultType) 0) := by
  apply arrive_of_small
  · rw [h]
    exact Envelope.fromHeaders_empty
  · exact Binary64.one_lt_bound

theorem arrive_of_none (h : Envelope.fromHeaders fresh now d.headers d.routingKey d.messageId = none) :
    arrive fresh now d = .error (d.unreadable now) := by
  unfold arrive
  rw [h]

theorem handle_of_error (h : arrive fresh now d = .error failure) :
    (c.handle fresh now d : Step Payload Unit) = .raise failure := by
  unfold handle
  rw [h]

theorem handle_of_ok (h : arrive fresh now d = .ok e) :
    (c.handle fresh now d : Step Payload Unit) = c.handleOne d e := by
  unfold handle
  rw [h]

end handle

end Consumer

end AcemqAmqp
