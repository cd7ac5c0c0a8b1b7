import AcemqAmqp.Consumer.Chain

/-!
# Reading a stream

The consumer `read_stream` starts: no retry policy, and a handler that cannot
ask for a retry.  How an exception is written with `!r` is a parameter.
-/

namespace AcemqAmqp

open Interaction Program

/-- `no_retry()`. -/
def noRetry : RetryPolicy where
  maxAttempts := 1
  initialDelay := 0
  multiplier := 2
  maxDelay := 0
  jitterFactor := 0
  maxMessageAge := 0
  brokerWaitThreshold := defaultBrokerWaitThreshold

theorem nextWait_noRetry (e : Envelope) (age : Duration) (draw : ℚ) :
    noRetry.nextWait e.attempt age draw = .ok none := by
  rw [RetryPolicy.nextWait, if_pos]
  exact e.one_le_attempt

namespace Streams

variable {Payload : Type} {S : Interface}

/-- `_StopReadingError(text)`. -/
def stopReading (text : String) : Failure := ⟨.stopReading, "_StopReadingError", text⟩

/-- `StreamRetryError(text)`, a `FatalError`. -/
def streamRetryError (stream id : String) : Failure where
  kind := .fatal
  typeName := "StreamRetryError"
  text := "acemq: a handler reading the stream " ++ reprText stream ++ " asked to retry message " ++ id ++
    ". A stream never removes a message, so retrying one means appending a second copy of it to the " ++
    "log for every other consumer to read as well. Park it instead — park(...) puts a copy in " ++
    stream ++ ".parked and leaves the log alone — or accept() to checkpoint past it and record the " ++
    "failure yourself."

/-- `repr` of an error that may be missing. -/
def reprError (repr : Failure → String) : Option Failure → String
  | none => "None"
  | some failure => repr failure

/-- `_refusing_retries`: what comes of what the handler inside returned or raised. -/
def refusingRetries (repr : Failure → String) (stream : String) (stop : Bool) (message : Message Payload) :
    Except Failure Decision → Except Failure Decision
  | .error failure =>
      if failure.isException ∧ stop = true then
        .error (stopReading ("the handler failed: " ++ repr failure))
      else .error failure
  | .ok (.ack decision) =>
      if decision.action = .retry ∨ decision.action = .inProgress then
        if stop then
          .error (stopReading ("the handler asked to retry it: " ++ reprError repr decision.error))
        else .error (streamRetryError stream message.envelope.id)
      else .ok (.ack decision)
  | .ok (.other typeName) => .ok (.other typeName)

/-- What `read_stream` starts. -/
structure Reader where
  consumer : Consumer
  stop : Bool
  concurrency : ℕ

/-- `read_stream`, on a connection that is open, but for the declarations and the subscription. -/
def readStream (connection : Connection) (name : String) (prefetch concurrency : ℤ)
    (onFailure : String) : Except Failure Reader :=
  if prefetch < 1 then
    .error <| valueError <|
      "acemq: a stream consumer needs a prefetch of at least 1, got " ++ toString prefetch
  else if concurrency < 1 then
    .error (valueError ("acemq: concurrency must be at least 1, got " ++ toString concurrency))
  else .ok ⟨⟨connection, name, noRetry, false⟩, onFailure = "stop", concurrency.toNat⟩

/-- The interceptors of the connection around the handler. -/
def Reader.chain (r : Reader) (repr : Failure → String)
    (interceptors : List (Consumer.ConsumeInterceptor Payload S)) : Consumer.ConsumeNext Payload S :=
  Consumer.consumeChain interceptors (Consumer.runHandler (refusingRetries repr r.consumer.queue r.stop))

/-! ## What the interceptors leave of it -/

/-- The handler has raised, or asked for a retry or to be put back. -/
def Fails : Except Failure Decision → Prop
  | .error _ => True
  | .ok (.ack decision) => decision.action = .retry ∨ decision.action = .inProgress
  | .ok (.other _) => False

/-- The consumer is asked to put the message back. -/
def PutsBack : Except Failure Decision → Prop
  | .ok (.ack decision) => decision.action = .inProgress
  | _ => False

/-- The consumer is asked to stop. -/
def Stops : Except Failure Decision → Prop
  | .error failure => failure.isStopReading = true
  | .ok (.ack decision) => decision.action = .retry ∧ decision.error.any Failure.isStopReading = true
  | .ok (.other _) => False

/-- A call of the handler failed. -/
def Failed (t : List (Event (Consumer.Inside Payload S))) : Prop :=
  ∃ message outcome, (⟨.inl message, outcome⟩ : Event (Consumer.Inside Payload S)) ∈ t ∧ Fails outcome

/-- The handler raised nothing that `except Exception` does not catch. -/
def Catchable (t : List (Event (Consumer.Inside Payload S))) : Prop :=
  ∀ (message : Message Payload) (failure : Failure),
    (⟨.inl message, .error failure⟩ : Event (Consumer.Inside Payload S)) ∈ t → failure.isException = true

/-- A delivery never asks to be put back, and where the reader stops, one whose
handler failed asks to stop. -/
def Keeps (stop : Bool) (next : Consumer.ConsumeNext Payload S) : Prop :=
  ∀ context, (next context).Always (Anything _) fun t x ↦ onEnd x (fun answered ↦
    ¬PutsBack answered.2 ∧ (stop = true → Catchable t → Failed t → Stops answered.2)) fun _ ↦ True

/-- An interceptor that keeps what the handler inside it keeps. -/
def Passes (stop : Bool) (interceptor : Consumer.ConsumeInterceptor Payload S) : Prop :=
  ∀ rest, Keeps stop rest → Keeps stop (interceptor rest)

theorem failed_singleton {message : Message Payload} {outcome : Except Failure Decision} :
    Failed [(⟨.inl message, outcome⟩ : Event (Consumer.Inside Payload S))] ↔ Fails outcome := by
  constructor
  · rintro ⟨message', outcome', hmem, hfails⟩
    cases List.mem_singleton.mp hmem
    exact hfails
  · exact fun hfails ↦ ⟨message, outcome, List.mem_singleton_self _, hfails⟩

theorem keeps_runHandler (repr : Failure → String) (stream : String) (stop : Bool) :
    Keeps stop (Consumer.runHandler (refusingRetries repr stream stop) : Consumer.ConsumeNext Payload S) := by
  intro context outcome _
  show ¬PutsBack _ ∧ (_ → _ → _ → Stops _)
  rcases outcome with failure | (decision | typeName)
  · constructor
    · rw [refusingRetries]
      split <;> exact id
    · intro hstop hcatchable _
      have hexception := hcatchable context.message failure (List.mem_singleton_self _)
      rw [refusingRetries, if_pos ⟨hexception, hstop⟩]
      rfl
  · by_cases hasks : decision.action = .retry ∨ decision.action = .inProgress
    · rw [refusingRetries, if_pos hasks]
      constructor
      · split <;> exact id
      · intro hstop _ _
        rw [if_pos hstop]
        rfl
    · rw [refusingRetries, if_neg hasks]
      constructor
      · exact fun hback ↦ hasks (.inr hback)
      · exact fun _ _ hfailed ↦ absurd (failed_singleton.mp hfailed) hasks
  · exact ⟨id, fun _ _ hfailed ↦ (failed_singleton.mp hfailed).elim⟩

theorem Reader.keeps_chain (r : Reader) (repr : Failure → String)
    {interceptors : List (Consumer.ConsumeInterceptor Payload S)}
    (hpasses : ∀ interceptor ∈ interceptors, Passes r.stop interceptor) :
    Keeps r.stop (r.chain repr interceptors) := by
  rw [chain, Consumer.consumeChain]
  induction interceptors with
  | nil => exact keeps_runHandler _ _ _
  | cons interceptor interceptors ih =>
      rw [List.forall_mem_cons] at hpasses
      exact hpasses.1 _ (ih hpasses.2)

end Streams

end AcemqAmqp
