import AcemqAmqp.Consumer.Handle
import AcemqAmqp.RoutingSlip.Slip

/-!
# Following a slip

The handler `follow_slip` builds: a step does its work, and the message goes on
to the next stop of its slip.  The step, the clock, the identifiers that are
minted, the codec, the broker and the observer are its surroundings.
-/

namespace AcemqAmqp

open Interaction

/-- A handler that follows slips.  `contentType` is its codec's, `unslipped`
what a message without a slip is taken to carry, and `room` what its interpreter
has for slips that nest. -/
structure Follower where
  connection : Connection
  origin : String
  contentType : String
  pipeline : String
  form : Option SlipForm
  unslipped : Option RoutingSlip
  room : Room

namespace Follower

variable {Payload : Type}

abbrev Labels := Dict String String

inductive Act (Payload : Type)
  | decide (message : Message Payload)
  | tick
  | encode (payload : Payload)
  | publish (exchange routingKey : String) (message : Outbound)
  | now
  | observe (metric : String) (duration : Duration) (labels : Labels)
  | count (metric : String) (delta : ℕ) (labels : Labels)

/-- The handler's surroundings.  A step that answers `none` answers `NOTHING`. -/
abbrev Surroundings (Payload : Type) : Interface where
  Act := Act Payload
  Ans
    | .decide _ => Except Failure (Option Payload)
    | .tick => Tick
    | .encode _ => Except Failure Bytes
    | .publish _ _ _ => BrokerAnswer
    | .now => Instant
    | .observe _ _ _ => Unit
    | .count _ _ _ => Unit

abbrev Hop (Payload α : Type) := Program (Surroundings Payload) Failure α

variable (f : Follower)

def publisher (stop : Stop) : Publisher :=
  ⟨f.connection, f.origin, stop.exchange, stop.routingKey, f.contentType, true, true⟩

/-- `publisher(…, mandatory=True).send(payload, envelope=outgoing)`. -/
def send (stop : Stop) (payload : Payload) : Hop Payload Unit := do
  let body ← Program.call (I := Surroundings Payload) (.encode payload) id
  let message := (f.publisher stop).outbound body stop.envelope
  let _ ← Program.call (I := Surroundings Payload)
    (.publish stop.exchange stop.routingKey message) ((f.publisher stop).sent message)
  return ()

/-- The slip of a message, or why it has none to follow. -/
def slipOf (e : Envelope) : Except Failure RoutingSlip :=
  match slipWithin f.room e f.pipeline with
  | .error unreadable => .error unreadable
  | .ok (some slip) => .ok slip
  | .ok none => match f.unslipped with
    | some slip => .ok slip
    | none => .error (noItinerary e)

/-- How a failure at the step `slip.steps[0]` begins. -/
def doneFor (slip : RoutingSlip) (e : Envelope) : String :=
  "acemq: " ++ (slip.steps.head?.map Step.str).getD "" ++ " is done for message " ++ e.id

/-- The message goes to its next stop, and is accepted once it is out. -/
def sendOn (slip : RoutingSlip) (tick : Tick) (onwards : Step) (message : Message Payload)
    (payload : Payload) : Hop Payload Ack :=
  match writeOn slip f.form f.origin tick onwards message.envelope with
  | .error unwritable => .ret <| .reject <| some <| fatalError <|
      doneFor slip message.envelope ++ " but its slip cannot be written on: " ++ unwritable.text
  | .ok stop =>
      ((f.send stop payload).bind fun _ ↦ .ret Ack.accept).rescue fun failure ↦
        if failure.isException then
          .ret <| .retry <| some ⟨.exception, "RuntimeError", doneFor slip message.envelope ++
            " but the next step did not go out: " ++ failure.text⟩
        else .raise failure

def metricPipelineRunTotal : String := "acemq.pipeline.run.total"
def metricPipelineRunDuration : String := "acemq.pipeline.run.duration"

def outcomeCompleted : String := "completed"
def outcomeEndedEarly : String := "ended_early"

/-- What a finished run is counted under: the step is the one that finished it. -/
def labels (slip : RoutingSlip) (outcome : String) : Labels :=
  let here := slip.next
  .ofList [("pipeline", orElse f.pipeline ((here.map Step.exchange).getD "")),
    ("step", (here.map Step.str).getD ""), ("outcome", outcome)]

/-- `_finished`: one run is over, and as old as its envelope. -/
def finished (message : Message Payload) (labels : Labels) : Hop Payload Unit := do
  let read ← Program.perform (I := Surroundings Payload) .now
  let _ ← Program.perform (I := Surroundings Payload)
    (.observe metricPipelineRunDuration (read - message.envelope.firstSeen) labels)
  let _ ← Program.perform (I := Surroundings Payload) (.count metricPipelineRunTotal 1 labels)
  return ()

/-- What follows when the step is done: the end of the route, or the next stop. -/
def goOn (slip : RoutingSlip) (message : Message Payload) (answer : Option Payload) :
    Hop Payload Ack := do
  let tick ← Program.perform (I := Surroundings Payload) .tick
  match (slip.advance tick.now).next, answer with
  | none, _ => do
      let _ ← finished message (f.labels slip outcomeCompleted)
      return .accept
  | some _, none => do
      let _ ← finished message (f.labels slip outcomeEndedEarly)
      return .accept
  | some onwards, some payload => f.sendOn slip tick onwards message payload

/-- `travel`. -/
def travel (message : Message Payload) : Hop Payload Ack :=
  match f.slipOf message.envelope with
  | .error unfollowable =>
      if unfollowable.isFatal then .ret (.reject (some unfollowable)) else .raise unfollowable
  | .ok slip => do
      match ← Program.perform (I := Surroundings Payload) (.decide message) with
      | .ok answer => f.goOn slip message answer
      | .error failure =>
          if failure.isFatal then return .reject (some failure)
          else if failure.isException then return .retry (some failure)
          else .raise failure

/-! ## What a hop sends -/

open Program

def publish? : Event (Surroundings Payload) → Option (String × String × Outbound)
  | ⟨.publish exchange key message, _⟩ => some (exchange, key, message)
  | _ => none

def tick? : Event (Surroundings Payload) → Option Tick
  | ⟨.tick, tick⟩ => some tick
  | _ => none

/-- What was handed to the broker. -/
def published (t : List (Event (Surroundings Payload))) : List (String × String × Outbound) :=
  t.filterMap publish?

def ticks (t : List (Event (Surroundings Payload))) : List Tick := t.filterMap tick?

/-- The one message a hop can send: the slip of the message that came in,
advanced and written on. -/
def SendsOn (f : Follower) (incoming : Envelope) (t : List (Event (Surroundings Payload))) : Prop :=
  ∃ slip tick onwards stop body, f.slipOf incoming = .ok slip ∧ ticks t = [tick] ∧
    (slip.advance tick.now).next = some onwards ∧
    writeOn slip f.form f.origin tick onwards incoming = .ok stop ∧
    published t = [(stop.exchange, stop.routingKey, (f.publisher stop).outbound body stop.envelope)]

variable {f} {message : Message Payload}

theorem send_spec (stop : Stop) (payload : Payload) :
    (f.send stop payload).Always (Anything (Surroundings Payload)) fun t _ ↦ ticks t = [] ∧
      (published t = [] ∨ ∃ body, published t =
        [(stop.exchange, stop.routingKey, (f.publisher stop).outbound body stop.envelope)]) := by
  unfold send
  simp only [bind_eq, pure_eq, always_bind, always_call]
  intro encoded _
  cases encoded with
  | error failure => exact ⟨rfl, .inl rfl⟩
  | ok body =>
      rw [id, onEnd_ok]
      intro answer _
      cases (f.publisher stop).sent ((f.publisher stop).outbound body stop.envelope) answer with
      | ok result => exact ⟨rfl, .inr ⟨body, rfl⟩⟩
      | error failure => exact ⟨rfl, .inr ⟨body, rfl⟩⟩

theorem goOn_spec {slip : RoutingSlip} (hslip : f.slipOf message.envelope = .ok slip)
    (answer : Option Payload) :
    (f.goOn slip message answer).Always (Anything (Surroundings Payload)) fun t _ ↦
      published t = [] ∨ f.SendsOn message.envelope t := by
  unfold goOn
  rw [bind_eq, always_bind, always_perform]
  intro tick _
  rw [onEnd_ok]
  cases hnext : (slip.advance tick.now).next with
  | none =>
      intro _ _ _ _ _ _
      exact .inl rfl
  | some onwards =>
      cases answer with
      | none =>
          intro _ _ _ _ _ _
          exact .inl rfl
      | some payload =>
          dsimp only
          rw [sendOn]
          cases hwrite : writeOn slip f.form f.origin tick onwards message.envelope with
          | error unwritable => exact .inl rfl
          | ok stop =>
              dsimp only
              rw [always_rescue, always_bind]
              refine (send_spec stop payload).mono ?_
              rintro t x ⟨hticks, hpublished⟩
              have hsends : published (⟨.tick, tick⟩ :: t) = [] ∨
                  f.SendsOn message.envelope (⟨.tick, tick⟩ :: t) := by
                rcases hpublished with hnone | ⟨body, hsent⟩
                · exact .inl hnone
                · refine .inr ⟨slip, tick, onwards, stop, body, hslip, ?_, hnext, hwrite, hsent⟩
                  exact congrArg (tick :: ·) hticks
              cases x with
              | ok _ => simpa using hsends
              | error failure =>
                  rw [onEnd_error, onEnd_error]
                  split
                  · simpa using hsends
                  · simpa using hsends

theorem travel_spec (message : Message Payload) :
    (f.travel message).Always (Anything (Surroundings Payload)) fun t _ ↦
      published t = [] ∨ f.SendsOn message.envelope t := by
  unfold travel
  cases hslip : f.slipOf message.envelope with
  | error unfollowable =>
      dsimp only
      split
      · exact .inl rfl
      · exact .inl rfl
  | ok slip =>
      dsimp only
      rw [bind_eq, always_bind, always_perform]
      intro answer _
      rw [onEnd_ok]
      cases answer with
      | ok answer =>
          refine (goOn_spec hslip answer).mono fun t _ h ↦ ?_
          exact h
      | error failure =>
          dsimp only
          split
          · exact .inl rfl
          · split
            · exact .inl rfl
            · exact .inl rfl

/-- A hop whose step, codec and broker answer. -/
theorem exists_runs_travel {slip : RoutingSlip} {tick : Tick} {onwards : Step} {stop : Stop}
    (hslip : f.slipOf message.envelope = .ok slip)
    (hnext : (slip.advance tick.now).next = some onwards)
    (hwrite : writeOn slip f.form f.origin tick onwards message.envelope = .ok stop)
    (payload : Payload) (body : Bytes) :
    ∃ events x, Runs (Anything (Surroundings Payload)) (f.travel message) events x ∧
      published events =
        [(stop.exchange, stop.routingKey, (f.publisher stop).outbound body stop.envelope)] := by
  set outbound := (f.publisher stop).outbound body stop.envelope with houtbound
  have hsend : Runs (Anything (Surroundings Payload)) (f.send stop payload)
      [⟨.encode payload, .ok body⟩, ⟨.publish stop.exchange stop.routingKey outbound,
        .answered ⟨outbound.messageId, true, true, ""⟩⟩] (.ok ()) :=
    .ask trivial (.ask trivial (.ret ()))
  have hsendOn : Runs (Anything (Surroundings Payload)) (f.sendOn slip tick onwards message payload)
      [⟨.encode payload, .ok body⟩, ⟨.publish stop.exchange stop.routingKey outbound,
        .answered ⟨outbound.messageId, true, true, ""⟩⟩] (.ok .accept) := by
    rw [sendOn, hwrite]
    exact (hsend.bind_ok (.ret Ack.accept)).rescue_ok
  have hgoOn : Runs (Anything (Surroundings Payload)) (f.goOn slip message (some payload))
      [⟨.tick, tick⟩, ⟨.encode payload, .ok body⟩, ⟨.publish stop.exchange stop.routingKey outbound,
        .answered ⟨outbound.messageId, true, true, ""⟩⟩] (.ok .accept) := by
    refine .ask trivial ?_
    rw [ret_bind, hnext]
    exact hsendOn
  have htravel : Runs (Anything (Surroundings Payload)) (f.travel message)
      [⟨.decide message, .ok (some payload)⟩, ⟨.tick, tick⟩, ⟨.encode payload, .ok body⟩,
        ⟨.publish stop.exchange stop.routingKey outbound,
          .answered ⟨outbound.messageId, true, true, ""⟩⟩] (.ok .accept) := by
    rw [travel, hslip]
    exact .ask trivial hgoOn
  exact ⟨_, _, htravel, rfl⟩
end Follower

end AcemqAmqp
