import AcemqAmqp.Consumer.Undeliverable
import AcemqAmqp.Foundations.Expansion

/-!
# The interceptors around a handler

`consume_chain`, and the consumer with its interceptors and its handler in
place of the one question it asks of them.  What an interceptor does besides
calling the rest is asked of an interface of its own.
-/

namespace AcemqAmqp

namespace Consumer

open Interaction Program

variable {Payload : Type} {S : Interface}

/-- Calls of the handler: what it returned or raised. -/
abbrev Handling (Payload : Type) : Interface where
  Act := Message Payload
  Ans _ := Except Failure Decision

/-- What the interceptors and the handler are surrounded by. -/
abbrev Inside (Payload : Type) (S : Interface) : Interface := (Handling Payload).sum S

/-- The rest of a delivery.  The context comes back as it was left, with what
was returned or raised. -/
abbrev ConsumeNext (Payload : Type) (S : Interface) : Type :=
  ConsumeContext Payload →
    Program (Inside Payload S) Empty (ConsumeContext Payload × Except Failure Decision)

abbrev ConsumeInterceptor (Payload : Type) (S : Interface) : Type :=
  ConsumeNext Payload S → ConsumeNext Payload S

/-- `consume_chain`: the first registered is outermost. -/
def consumeChain (interceptors : List (ConsumeInterceptor Payload S)) (handle : ConsumeNext Payload S) :
    ConsumeNext Payload S :=
  interceptors.foldr (fun interceptor rest ↦ interceptor rest) handle

/-- `_run_handler`, for a handler with `wrap` around it. -/
def runHandler (wrap : Message Payload → Except Failure Decision → Except Failure Decision) :
    ConsumeNext Payload S := fun context ↦
  .ask (I := Inside Payload S) (.inl context.message) fun outcome ↦
    .ret (context, wrap context.message outcome)

/-- The consumer's surroundings, and those of its interceptors and its handler. -/
abbrev Around (Payload : Type) (S : Interface) : Interface := (Broker Payload).sum (Inside Payload S)

/-- What the consumer asks, answered: the question to the handler by the chain. -/
def answering (chain : ConsumeNext Payload S) :
    (q : Act Payload) → Program (Around Payload S) Empty ((Broker Payload).Ans q)
  | .invoke context => (beside (chain context)).andThen fun (context, answer) ↦
      .ret (context.envelope, answer)
  | q => .perform (I := Around Payload S) (.inl q)

/-- One delivery, from arrival to settlement. -/
def work (c : Consumer) (chain : ConsumeNext Payload S) (fresh : String) (read : Instant) (d : Delivery) :
    Program (Around Payload S) Failure Unit :=
  (c.handle fresh read d).expand (answering chain)

/-- What the consumer does with the answer of the chain. -/
def conclude (c : Consumer) (d : Delivery) (envelope : Envelope) (answer : Except Failure Decision) :
    Step Payload Unit :=
  match answer with
  | .ok (.ack decision) => do
      let (settlement, wait) ← c.decide envelope decision
      c.carryOut d envelope settlement wait
  | .ok (.other typeName) =>
      c.carryOut d envelope ⟨.deadLettered,
        some ("the handler returned " ++ typeName ++ " instead of an Ack"), none⟩ none
  | .error failure =>
      if failure.isException then do
        let (settlement, wait) ← c.decide envelope (.retry (some failure))
        c.carryOut d envelope settlement wait
      else .raise failure

/-- What the chain is given. -/
def contextOf (c : Consumer) (d : Delivery) (e : Envelope) (payload : Payload) : ConsumeContext Payload where
  queue := c.queue
  envelope := e
  payload := payload
  body := d.body
  contentType := d.contentType
  routingKey := d.routingKey
  redelivered := d.redelivered
  replyTo := d.replyTo

section work

variable {c : Consumer} {chain : ConsumeNext Payload S} {fresh : String} {read : Instant} {d : Delivery}
  {e : Envelope}

theorem work_unreadable {failure : Failure} (h : arrive fresh read d = .error failure) :
    c.work chain fresh read d = .raise failure := by
  rw [work, handle_of_error h]
  rfl

/-- A halted consumer returns the delivery. -/
theorem work_halted (hhalted : c.halted = true)
    (h : arrive fresh read d = .ok e) :
    c.work chain fresh read d = .call (I := Around Payload S) (.inl (.nack d.tag true)) id := by
  rw [work, handle_of_ok h, handleOne, if_pos hhalted]
  show (ask _ _ : Program (Around Payload S) Failure Unit) = ask _ _
  congr 1
  funext answer
  cases answer <;> rfl

theorem work_decodes (hhalted : c.halted = false)
    (h : arrive fresh read d = .ok e) :
    c.work chain fresh read d =
      .ask (I := Around Payload S) (.inl (.decode d.body d.contentType)) fun decoded ↦
        match (decoded : Except Failure Payload) with
        | .error failure =>
            (if failure.isException then
              c.park d e ("could not be decoded: " ++ describe (some failure))
            else .raise failure : Step Payload Unit).expand (answering chain)
        | .ok payload => (beside (chain (c.contextOf d e payload))).andThen fun answered ↦
            (c.conclude d answered.1.envelope answered.2).expand (answering chain) := by
  rw [work, handle_of_ok h, handleOne, if_neg (by rw [hhalted]; exact Bool.false_ne_true)]
  show (ask _ _ : Program (Around Payload S) Failure Unit) = ask _ _
  congr 1
  funext decoded
  cases decoded with
  | error failure => rfl
  | ok payload =>
      show ((beside (chain (c.contextOf d e payload))).andThen _).andThen _ = _
      exact andThen_assoc ..

end work

end Consumer

end AcemqAmqp
