import AcemqAmqp.Core.Transport
import AcemqAmqp.Foundations.Program

/-!
# Putting dead letters back

`patterns.replay` as a program over the broker, the caller's filter and the
clocks.  The loop has no bound of its own, so it takes one; a run that ends
before its rounds are used up is a run of the source.  What the `finally`
clause needs at every way out, the deliveries held back, is part of how the
loop ends.
-/

namespace AcemqAmqp

open Interaction

inductive StopReason
  | drained
  | limit
  | deadline
  | failed
  deriving DecidableEq

def StopReason.str : StopReason → String
  | drained => "drained"
  | limit => "limit"
  | deadline => "deadline"
  | failed => "failed"

/-- What a replay did, and why it stopped. -/
structure ReplayResult where
  moved : ℕ
  skipped : ℕ
  reason : StopReason
  deriving DecidableEq

def ReplayResult.str (r : ReplayResult) : String :=
  "moved " ++ toString r.moved ++ ", skipped " ++ toString r.skipped ++ " (" ++ r.reason.str ++ ")"

namespace Replay

/-- What a replay raises: its own error, with the result it had reached, or anything else. -/
inductive Raised
  | replay (result : ReplayResult) (what : String)
  | exception (failure : Failure)

def Raised.text : Raised → String
  | replay result what => "acemq: " ++ what ++ " (after " ++ result.str ++ ")"
  | exception failure => failure.text

/-- The arguments; `filtered` says whether a filter is given. -/
structure Options where
  connection : Connection
  queue : String
  exchange : String
  routingKey : Option String
  limit : ℤ
  deadline : Option ℚ
  filtered : Bool
  restart : Bool
  returnWait : ℚ

inductive Act
  | clock
  | now
  | fresh
  | pull (queue : String)
  | only (envelope : Envelope) (body : Bytes)
  | publish (exchange routingKey : String) (message : Outbound)
  | ack (tag : ℕ)
  | nack (tag : ℕ) (requeue : Bool)
  | messageCount (queue : String)
  | sleep (seconds : ℚ)

abbrev Broker : Interface where
  Act := Act
  Ans
    | .clock => ℚ
    | .now => Instant
    | .fresh => String
    | .pull _ => Except Failure (Option Delivery)
    | .only _ _ => Except Failure Bool
    | .publish _ _ _ => BrokerAnswer
    | .ack _ => Except Failure Unit
    | .nack _ _ => Except Failure Unit
    | .messageCount _ => Except Failure ℕ
    | .sleep _ => Unit

abbrev Step (α : Type) := Program Broker Raised α

/-- `isinstance(e, Exception)`. -/
def Raised.isException : Raised → Bool
  | replay _ _ => true
  | exception failure => failure.isException

/-- `try: p  except Exception as failure: h failure`. -/
def onException {α : Type} (p : Step α) (h : Raised → Step α) : Step α :=
  p.rescue fun e ↦ if e.isException then h e else .raise e

def raising {α : Type} : Except Failure α → Except Raised α
  | .ok a => .ok a
  | .error failure => .error (.exception failure)

def clock : Step ℚ := .perform (I := Broker) .clock
def now : Step Instant := .perform (I := Broker) .now
def fresh : Step String := .perform (I := Broker) .fresh
def pull (queue : String) : Step (Option Delivery) := .call (I := Broker) (.pull queue) raising
def ack (message : Delivery) : Step Unit := .call (I := Broker) (.ack message.tag) raising
def messageCount (queue : String) : Step ℕ := .call (I := Broker) (.messageCount queue) raising
def sleep (seconds : ℚ) : Step Unit := .perform (I := Broker) (.sleep seconds)

def only (envelope : Envelope) (body : Bytes) : Step Bool :=
  .call (I := Broker) (.only envelope body) raising

/-- `_return_quietly`. -/
def returnQuietly (message : Delivery) : Step Unit :=
  onException (.call (I := Broker) (.nack message.tag true) raising) fun _ ↦ .ret ()

/-- The names of the headers a replay stamps. -/
def replayedFrom : String := "acemq-replayed-from"
def replayedAt : String := "acemq-replayed-at"
def replayCount : String := "acemq-replay-count"

/-- `_replays_so_far`. -/
def replaysSoFar (envelope : Envelope) : ℤ :=
  match envelope.headers.get? replayCount with
  | none => 0
  | some (.bool _) => 0
  | some (.int n) => n
  | some written => (int? written.str).getD 0

variable (o : Options)

/-- The copy `_move` publishes. -/
def goingBack (message : Delivery) (envelope : Envelope) (at_ : Instant) : Outbound :=
  let back := if o.restart then envelope.restarted else envelope
  let key := o.routingKey.getD message.routingKey
  { body := message.body
    contentType := message.contentType.getD ""
    messageId := back.id
    replyTo := ""
    headers := (((back.toHeaders key).set replayedFrom (.text o.queue)).set replayedAt
      (.text at_.isoMillis)).set replayCount (.int (replaysSoFar envelope + 1))
    persistent := true
    mandatory := true }

/-- `_move`: republish, then acknowledge. -/
def move (message : Delivery) (envelope : Envelope) : Step Unit := do
  let key := o.routingKey.getD message.routingKey
  let at_ ← now
  let copy := goingBack o message envelope at_
  let republish : Step Unit := do
    let result ← .call (I := Broker) (.publish o.exchange key copy) fun answer ↦
      raising (o.connection.publishRaw o.exchange key copy answer)
    if result.routed then .ret ()
    else .raise <| .exception <| .unroutable copy.messageId o.exchange key <|
      orElse result.returnReason "no queue is bound to receive it"
  onException republish fun failure ↦ do
    returnQuietly message
    .raise failure
  ack message

/-- The locals of `replay` that change. -/
structure State where
  moved : ℕ
  skipped : ℕ
  declined : List Delivery

/-- The part of a round from the pull on. -/
def pullOne (s : State) : Step (State ⊕ ReplayResult) := do
  let message ← onException (pull o.queue) fun failure ↦
    .raise (.replay ⟨s.moved, s.skipped, .failed⟩
      ("cannot read " ++ reprText o.queue ++ " to replay it: " ++ failure.text))
  match message with
  | none => return .inr ⟨s.moved, s.skipped, .drained⟩
  | some message => do
      let id ← fresh
      let read ← now
      match Envelope.fromHeaders id read message.headers message.routingKey message.messageId with
      | none => .raise (.exception (message.unreadable read))
      | some envelope => do
          let wanted ← if o.filtered then only envelope message.body else pure true
          if wanted then do
            onException (move o message envelope) fun failure ↦
              .raise (.replay ⟨s.moved, s.skipped, .failed⟩
                ("cannot republish a message from " ++ reprText o.queue ++ ": " ++ failure.text))
            return .inl { s with moved := s.moved + 1 }
          else
            return .inl { s with skipped := s.skipped + 1, declined := s.declined ++ [message] }

/-- One round of the loop: the next state, or the result to return. -/
def round (expires : Option ℚ) (s : State) : Step (State ⊕ ReplayResult) :=
  if 0 < o.limit ∧ o.limit ≤ s.moved then .ret (.inr ⟨s.moved, s.skipped, .limit⟩)
  else match expires with
    | none => pullOne o s
    | some e => do
        let t ← clock
        if e ≤ t then return .inr ⟨s.moved, s.skipped, .deadline⟩
        else pullOne o s

/-- A round that hands the declined deliveries on at every way out of the loop. -/
def guardedRound (expires : Option ℚ) (s : State) :
    Step (State ⊕ List Delivery × Except Raised ReplayResult) :=
  ((round o expires s).bind fun
    | .inl s' => .ret (.inl s')
    | .inr result => .ret (.inr (s.declined, .ok result))).rescue
    fun e ↦ .ret (.inr (s.declined, .error e))

def nackAll : List Delivery → Step Unit
  | [] => .ret ()
  | held :: rest => (returnQuietly held).bind fun _ ↦ nackAll rest

/-- The depth of the queue, or nothing when it cannot be read. -/
def depth : Step (Option ℕ) :=
  onException ((messageCount o.queue).bind fun n ↦ .ret (some n)) fun _ ↦ .ret none

def awaitRound (expected : ℕ) (expires : ℚ) : Step (Unit ⊕ Unit) := do
  match ← depth o with
  | none => return .inr ()
  | some n =>
      if expected ≤ n then return .inr ()
      let t ← clock
      if expires ≤ t then return .inr ()
      sleep (1 / 100)
      return .inl ()

/-- The wait at the end: until the depth shows the returned messages, the time
is up, or the depth cannot be read. -/
def awaitReturned (fuel : ℕ) (expected : ℕ) (expires : ℚ) : Step (Option Unit) :=
  Program.iterate (fun _ ↦ awaitRound o expected expires) fuel ()

/-- `_return_declined`. -/
def returnDeclined (fuel : ℕ) (declined : List Delivery) : Step (Option Unit) :=
  if declined.isEmpty then .ret (some ())
  else do
    let before ← depth o
    nackAll declined
    match before with
    | none => return some ()
    | some before =>
        if o.returnWait ≤ 0 then return some ()
        let t ← clock
        awaitReturned o fuel (before + declined.length) (t + o.returnWait)

/-- `replay` once the deadline is fixed, for at most `fuel` rounds of its loops. -/
def passes (fuel : ℕ) (expires : Option ℚ) : Step (Option ReplayResult) := do
  match ← Program.iterate (guardedRound o expires) fuel ⟨0, 0, []⟩ with
  | none => return none
  | some (declined, outcome) =>
      match ← returnDeclined o fuel declined with
      | none => return none
      | some () =>
          match outcome with
          | .ok result => return some result
          | .error e => .raise e

def replay (fuel : ℕ) : Step (Option ReplayResult) :=
  if o.queue = "" then
    .raise (.exception ⟨.exception, "ValueError", "acemq: a replay needs a queue to read from"⟩)
  else if o.returnWait < 0 then
    .raise (.exception ⟨.exception, "ValueError",
      "acemq: a replay's return_wait cannot be negative"⟩)
  else
    match o.deadline with
    | none => passes o fuel none
    | some d => do
        let t ← clock
        passes o fuel (some (t + d))

end Replay

end AcemqAmqp
