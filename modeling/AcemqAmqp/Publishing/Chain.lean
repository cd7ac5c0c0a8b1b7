import AcemqAmqp.Core.Transport
import AcemqAmqp.Foundations.Layers

/-!
# The interceptors around a publish

`Publisher.send`: the context an interceptor may change, `publish_chain`, and
the innermost work, which encodes what the interceptors left, sends it, and
records how that went.  An interceptor is a program that asks for the rest.
-/

namespace AcemqAmqp

open Interaction Program

/-! The words a publish can end in, on a counter and on a span. -/

namespace Telemetry

def outcomeConfirmed : String := "confirmed"
def outcomePublished : String := "published"
def outcomeUnroutable : String := "unroutable"
def outcomeFailed : String := "failed"
def outcomeRefused : String := "refused"

end Telemetry

/-- A message on its way out, before it is encoded. -/
structure PublishContext (Payload : Type) where
  exchange : String
  routingKey : String
  envelope : Envelope
  payload : Payload
  persistent : Bool
  mandatory : Bool
  replyTo : String

variable {Payload : Type} {S : Interface}

/-- `set_header`. -/
def PublishContext.setHeader (context : PublishContext Payload) (name : String) (value : Value) :
    Except Failure (PublishContext Payload) :=
  match EnvelopeFields.postInit
    { context.envelope.toEnvelopeFields with headers := context.envelope.headers.set name value } with
  | some envelope => .ok { context with envelope := envelope }
  | none => .error (valueError ("these header names belong to AceMQ and cannot be set by hand: " ++ name))

namespace Publisher

open Telemetry

/-! ## The innermost work -/

inductive Act (Payload : Type)
  | encode (payload : Payload)
  | publish (exchange routingKey : String) (message : Outbound)
  | record (outcome : String)

abbrev Sending (Payload : Type) : Interface where
  Act := Act Payload
  Ans
    | .encode _ => Except Failure Bytes
    | .publish _ _ _ => BrokerAnswer
    | .record _ => Unit

/-- The duration and the count of a publish, under the same outcome. -/
def record (outcome : String) : Program (Sending Payload) Failure Unit :=
  .perform (I := Sending Payload) (.record outcome)

variable (p : Publisher)

/-- What is sent of a context. -/
def message (context : PublishContext Payload) (body : Bytes) : Outbound where
  body := body
  contentType := p.contentType
  messageId := context.envelope.id
  replyTo := context.replyTo
  headers := context.envelope.toHeaders context.routingKey
  persistent := context.persistent
  mandatory := context.mandatory

/-- Encoding and publishing, with what goes wrong recorded. -/
def handOver (context : PublishContext Payload) : Program (Sending Payload) Failure PublishResult :=
  ((Program.call (I := Sending Payload) (.encode context.payload) id).bind fun body ↦
    .call (I := Sending Payload) (.publish context.exchange context.routingKey (p.message context body))
      (p.connection.publishRaw context.exchange context.routingKey (p.message context body))).rescue fun failure ↦
        if failure.kind = .publishingPaused then (record outcomeRefused).bind fun _ ↦ .raise failure
        else if failure.isException then (record outcomeFailed).bind fun _ ↦ .raise failure
        else .raise failure

/-- `_send`. -/
def innerSend (context : PublishContext Payload) : Program (Sending Payload) Failure PublishResult :=
  (p.handOver context).bind fun result ↦
    if context.mandatory = true ∧ result.routed = false then
      (record outcomeUnroutable).bind fun _ ↦
        .raise (.unroutable context.envelope.id context.exchange context.routingKey
          (orElse result.returnReason "no queue is bound to receive it"))
    else (record outcomeConfirmed).bind fun _ ↦ .ret result

/-! ## The chain -/

/-- The context as it was left, and what was returned or raised. -/
abbrev Sent (Payload : Type) : Type := PublishContext Payload × Except Failure PublishResult

/-- The rest of a publish, to be asked for. -/
abbrev Onward (Payload : Type) : Interface where
  Act := PublishContext Payload
  Ans _ := Sent Payload

abbrev Interceptor (Payload : Type) (S : Interface) : Type :=
  PublishContext Payload → Program ((Onward Payload).sum S) Empty (Sent Payload)

abbrev PublishNext (Payload : Type) (S : Interface) : Type :=
  PublishContext Payload → Program ((Sending Payload).sum S) Empty (Sent Payload)

/-- What an interceptor asks, answered. -/
def answered (rest : PublishNext Payload S) :
    (q : ((Onward Payload).sum S).Act) → Program ((Sending Payload).sum S) Empty (((Onward Payload).sum S).Ans q)
  | .inl context => rest context
  | .inr q => .perform (I := (Sending Payload).sum S) (.inr q)

/-- `_publish_step`. -/
def publishStep (interceptor : Interceptor Payload S) (rest : PublishNext Payload S) : PublishNext Payload S :=
  fun context ↦ (interceptor context).expand (answered rest)

/-- `publish_chain`: the first registered is outermost. -/
def publishChain (interceptors : List (Interceptor Payload S)) (publish : PublishNext Payload S) :
    PublishNext Payload S :=
  interceptors.foldr publishStep publish

def innermost : PublishNext Payload S := fun context ↦
  (aside (p.innerSend context).outcome).bind fun answer ↦ .ret (context, answer)

/-- The context that `send` makes.  `fresh` and `now` are those of a new envelope. -/
def contextOf (payload : Payload) (envelope : Option Envelope) (fresh : String) (now : Instant)
    (routingKey : Option String) (replyTo : String) : PublishContext Payload where
  exchange := p.exchange
  routingKey := routingKey.getD p.routingKey
  envelope := p.outgoing (envelope.getD (.new fresh "" now))
  payload := payload
  persistent := p.persistent
  mandatory := p.mandatory
  replyTo := replyTo

/-- `send`, on a connection with interceptors. -/
def send (interceptors : List (Interceptor Payload S)) (context : PublishContext Payload) :
    Program ((Sending Payload).sum S) Empty (Sent Payload) :=
  publishChain interceptors p.innermost context

/-! ## Without interceptors -/

/-- What a publish of `e` comes to: its payload could not be encoded, or what was published of it ended as
`sent` says. -/
def Ends (p : Publisher) (payload : Payload) (e : Envelope) (t : List (Event (Sending Payload)))
    (x : Except Failure PublishResult) : Prop :=
  (∃ failure, ⟨.encode payload, .error failure⟩ ∈ t ∧ x = .error failure) ∨
    ∃ body answer, ⟨.publish p.exchange p.routingKey (p.outbound body e), answer⟩ ∈ t ∧
      x = p.sent (p.outbound body e) answer

section ends

variable {p : Publisher} {payload : Payload} {e : Envelope} {t : List (Event (Sending Payload))}

theorem Ends.append {x : Except Failure PublishResult} (h : Ends p payload e t x)
    (t' : List (Event (Sending Payload))) :
    Ends p payload e (t ++ t') x := by
  obtain ⟨failure, hmem, hx⟩ | ⟨body, answer, hmem, hx⟩ := h
  · exact .inl ⟨failure, List.mem_append_left _ hmem, hx⟩
  · exact .inr ⟨body, answer, List.mem_append_left _ hmem, hx⟩

/-- A failure is recorded, and raised all the same. -/
theorem always_recorded {failure : Failure} {Q : List (Event (Sending Payload)) → Except Failure PublishResult → Prop}
    (h : ∀ t, Q t (.error failure)) :
    (if failure.kind = .publishingPaused then (record outcomeRefused).bind fun _ ↦ .raise failure
      else if failure.isException then (record outcomeFailed).bind fun _ ↦ .raise failure
      else .raise failure : Program (Sending Payload) Failure PublishResult).Always (Anything _) Q := by
  split
  · exact fun _ _ ↦ h _
  · split
    · exact fun _ _ ↦ h _
    · exact h []

end ends

/-- Where nobody intercepts, `send` publishes what `outbound` makes of the envelope, and ends as `sent` says. -/
theorem innerSend_ends (payload : Payload) (e : Envelope) (fresh : String) (now : Instant) :
    (p.innerSend (p.contextOf payload (some e) fresh now none "")).Always (Anything _) (Ends p payload e) := by
  unfold innerSend handOver
  rw [always_bind, always_rescue, always_bind, always_call]
  rintro (failure | body) -
  · have hends : Ends p payload e [⟨.encode payload, .error failure⟩] (.error failure) :=
      .inl ⟨failure, List.mem_singleton_self _, rfl⟩
    exact always_recorded hends.append
  rw [id, onEnd_ok, always_call]
  intro answer _
  have hmem : ⟨.publish p.exchange p.routingKey (p.outbound body e), answer⟩ ∈
      [(⟨.encode payload, .ok body⟩ : Event (Sending Payload)),
        ⟨.publish p.exchange p.routingKey (p.outbound body e), answer⟩] := List.mem_cons_of_mem _ List.mem_cons_self
  have hends : ∀ x, p.sent (p.outbound body e) answer = x → Ends p payload e _ x :=
    fun x hx ↦ .inr ⟨body, answer, hmem, hx.symm⟩
  rw [sent] at hends
  change onEnd (p.connection.publishRaw p.exchange p.routingKey (p.outbound body e) answer) _ _
  cases hraw : p.connection.publishRaw p.exchange p.routingKey (p.outbound body e) answer with
  | error failure =>
      rw [hraw] at hends
      exact always_recorded (hends _ rfl).append
  | ok result =>
      rw [hraw] at hends
      dsimp only at hends
      rw [onEnd_ok, onEnd_ok]
      change Always _ (if p.mandatory = true ∧ result.routed = false then _ else _) _
      split
      · rename_i hunrouted
        rw [if_pos hunrouted] at hends
        exact fun _ _ ↦ (hends _ rfl).append _
      · rename_i hrouted
        rw [if_neg hrouted] at hends
        exact fun _ _ ↦ (hends _ rfl).append _

/-! ## What an interceptor does by itself -/

theorem expand_beside_bind {α β : Type} {rest : PublishNext Payload S} (q : Program S Empty α)
    (f : α → Program ((Onward Payload).sum S) Empty β) :
    ((beside q).bind f).expand (answered rest) = (beside q).bind fun a ↦ (f a).expand (answered rest) := by
  induction q with
  | ret a => rfl
  | raise e => exact e.elim
  | ask q next ih => exact congrArg (ask _) (funext ih)

/-- The innermost work of a chain, run. -/
theorem runs_innermost {p : Publisher} {context : PublishContext Payload}
    {t : List (Event ((Sending Payload).sum S))} {sent : Sent Payload}
    (hrun : Runs (Anything _) (p.innermost context) t (.ok sent)) :
    Runs (Anything _) (p.innerSend context) (inners t) sent.2 ∧ outers t = [] := by
  rw [innermost, runs_bind] at hrun
  obtain ⟨impossible, -⟩ | ⟨t₁, t₂, answer, rfl, hsend, hret⟩ := hrun
  · exact impossible.elim
  cases hret
  rw [List.append_nil]
  obtain ⟨houtcome, hnone⟩ := runs_aside hsend
  obtain ⟨y, hy, hrun⟩ := runs_outcome.mp houtcome
  obtain rfl := Except.ok.inj hy
  exact ⟨hrun, hnone⟩

end Publisher

end AcemqAmqp
