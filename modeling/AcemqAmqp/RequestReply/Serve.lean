import AcemqAmqp.Consumer.Handle

/-!
# Answering requests

`serve.handle` as a program over the responder, the publisher of replies and
the two counters.  The return address is read in two places, the header first.
-/

namespace AcemqAmqp

open Interaction Program

namespace RequestReply

/-- `HEADER_REPLY_TO`. -/
def headerReplyTo : String := "acemq-reply-to"

/-- `HEADER_ERROR`. -/
def headerError : String := "acemq-error"

/-- `str(value or "")`. -/
def named : Option Value → String
  | none => ""
  | some v => if v.truthy then v.str else ""

variable {Payload Answer : Type}

/-- Where an answer goes: the header first, the property second. -/
def returnAddress (request : Message Payload) : String :=
  orElse (named (request.envelope.headers.get? headerReplyTo)) request.replyTo

/-- What the handler does: it counts, it asks the responder, and it sends a reply. -/
inductive Act (Payload Answer : Type)
  | unanswerable
  | respond (request : Message Payload)
  | answered (change : ℤ)
  | reply (replyTo : String) (answer : Option Answer) (correlationId causationId : String)
      (headers : Dict String Value)

abbrev Responder (Payload Answer : Type) : Interface where
  Act := Act Payload Answer
  Ans
    | .unanswerable => Unit
    | .respond _ => Except Failure Answer
    | .answered _ => Unit
    | .reply _ _ _ _ _ => Except Failure Unit

abbrev Step (Payload Answer α : Type) := Program (Responder Payload Answer) Failure α

def unanswerable : Step Payload Answer Unit := .perform (I := Responder Payload Answer) .unanswerable

def answered (change : ℤ) : Step Payload Answer Unit :=
  .perform (I := Responder Payload Answer) (.answered change)

/-- `_reply`. -/
def reply (replyTo : String) (request : Message Payload) (answer : Option Answer)
    (failure : Option Failure) : Step Payload Answer Unit :=
  let headers := match failure with
    | none => ∅
    | some f => .ofList [(headerError, .text (f.typeName ++ ": " ++ f.text))]
  .call (I := Responder Payload Answer)
    (.reply replyTo answer request.envelope.correlationId request.envelope.id headers) id

/-- `try: p  except Exception as failure: h failure`. -/
def onException {α : Type} (p : Step Payload Answer α) (h : Failure → Step Payload Answer α) :
    Step Payload Answer α :=
  p.rescue fun failure ↦ if failure.isException then h failure else .raise failure

/-- `try: respond(request)  except Exception as failure: …`. -/
def respond (request : Message Payload) : Step Payload Answer (Except Failure Answer) :=
  .ask (I := Responder Payload Answer) (.respond request) fun
    | .ok answer => .ret (.ok answer)
    | .error failure => if failure.isException then .ret (.error failure) else .raise failure

/-- `FatalError`, for a request that names nowhere to reply. -/
def nowhere (request : Message Payload) : Failure where
  kind := .fatal
  typeName := "FatalError"
  text := "acemq: request " ++ request.envelope.id ++ " carries neither a " ++ headerReplyTo ++
    " header nor a reply-to property, so there is nowhere to reply"

/-- `serve.handle`. -/
def handle (request : Message Payload) : Step Payload Answer Ack :=
  let replyTo := returnAddress request
  if replyTo = "" then do
    unanswerable
    return .reject (some (nowhere request))
  else do
    match ← respond request with
    | .error failure =>
        onException (do
            reply replyTo request none (some failure)
            return .reject (some failure))
          fun undeliverable ↦ .ret (.retry (some undeliverable))
    | .ok answer => do
        answered 1
        onException (do
            reply replyTo request (some answer) none
            return .accept)
          fun undeliverable ↦ do
            answered (-1)
            return .retry (some undeliverable)

/-! ## What a run did -/

/-- The request was turned away for want of an address. -/
def TurnedAway (t : List (Event (Responder Payload Answer))) : Prop :=
  ∃ event ∈ t, event.1 = .unanswerable

/-- Every reply that was attempted went to `address`. -/
def RepliesTo (address : String) (t : List (Event (Responder Payload Answer))) : Prop :=
  ∀ event ∈ t, ∀ replyTo answer correlationId causationId headers,
    event.1 = .reply replyTo answer correlationId causationId headers → replyTo = address

variable {request : Message Payload} {address : String}

theorem always_reply {answer : Option Answer} {failure : Option Failure}
    {Q : List (Event (Responder Payload Answer)) → Except Failure Unit → Prop}
    (h : ∀ headers sent, Q [⟨.reply address answer request.envelope.correlationId
      request.envelope.id headers, sent⟩] sent) :
    (reply address request answer failure).Always (Anything _) Q := by
  unfold reply
  rw [always_call]
  exact fun sent _ ↦ h _ sent

theorem always_onException {α : Type} {p : Step Payload Answer α}
    {h : Failure → Step Payload Answer α}
    {Q : List (Event (Responder Payload Answer)) → Except Failure α → Prop} :
    (onException p h).Always (Anything _) Q ↔ p.Always (Anything _) fun t x ↦
      onEnd x (fun a ↦ Q t (.ok a)) fun f ↦
        if f.isException then (h f).Always (Anything _) fun t' y ↦ Q (t ++ t') y
        else Q t (.error f) := by
  rw [onException, always_rescue]
  refine iff_of_eq (congrArg _ (funext fun t ↦ funext fun x ↦ ?_))
  cases x with
  | ok a => rfl
  | error f =>
      rw [onEnd_error, onEnd_error]
      split <;> simp

/-- What a request that names an address leads to: an answer is asked for, and
replies go to the address only. -/
def Answers (address : String) (t : List (Event (Responder Payload Answer))) : Prop :=
  ¬TurnedAway t ∧ RepliesTo address t

theorem answers_append {t t' : List (Event (Responder Payload Answer))} (h : Answers address t)
    (h' : Answers address t') : Answers address (t ++ t') := by
  simp only [Answers, TurnedAway, RepliesTo, List.mem_append, or_imp, forall_and] at h h' ⊢
  refine ⟨?_, h.2, h'.2⟩
  rintro ⟨event, hmem | hmem, hevent⟩
  · exact h.1 ⟨event, hmem, hevent⟩
  · exact h'.1 ⟨event, hmem, hevent⟩

theorem answers_respond {answer : Except Failure Answer} :
    Answers address ([⟨.respond request, answer⟩] : List (Event (Responder Payload Answer))) := by
  simp [Answers, TurnedAway, RepliesTo]

theorem answers_answered {change : ℤ} :
    Answers address ([⟨.answered change, ()⟩] : List (Event (Responder Payload Answer))) := by
  simp [Answers, TurnedAway, RepliesTo]

theorem answers_reply {answer : Option Answer} {correlationId causationId : String}
    {headers : Dict String Value} {sent : Except Failure Unit} :
    Answers address ([⟨.reply address answer correlationId causationId headers, sent⟩] :
      List (Event (Responder Payload Answer))) := by
  constructor
  · simp [TurnedAway]
  · intro event hevent replyTo answer' correlationId' causationId' headers' hreply
    obtain rfl := List.mem_singleton.mp hevent
    injection hreply with haddress
    exact haddress.symm

/-- The reply, and what follows from it. -/
theorem answers_replying {answer : Option Answer} {failure : Option Failure} {done : Ack}
    {h : Failure → Step Payload Answer Ack}
    (hh : ∀ f, (h f).Always (Anything _) fun t _ ↦ Answers address t) :
    (onException ((reply address request answer failure).bind fun _ ↦ .ret done) h).Always
      (Anything _) fun t _ ↦ Answers address t := by
  rw [always_onException, always_bind]
  apply always_reply
  intro headers sent
  cases sent with
  | ok u => exact answers_append answers_reply (by simp [Answers, TurnedAway, RepliesTo])
  | error f =>
      rw [onEnd_error, onEnd_error]
      split
      · exact (hh f).mono fun t x ht ↦ answers_append answers_reply ht
      · exact answers_reply

/-- A request is turned away exactly when it names no address, and replies go nowhere else. -/
theorem handle_spec (request : Message Payload) :
    (handle request : Step Payload Answer Ack).Always (Anything _) fun t _ ↦
      (TurnedAway t ↔ returnAddress request = "") ∧ RepliesTo (returnAddress request) t := by
  rw [handle]
  split
  case isTrue hempty =>
    intro u _
    refine ⟨iff_of_true ⟨_, List.mem_singleton_self _, rfl⟩ hempty, ?_⟩
    simp [RepliesTo]
  case isFalse hempty =>
    have hanswers : ∀ {p : Step Payload Answer Ack},
        (p.Always (Anything _) fun t _ ↦ Answers (returnAddress request) t) →
        p.Always (Anything _) fun t _ ↦
          (TurnedAway t ↔ returnAddress request = "") ∧ RepliesTo (returnAddress request) t :=
      fun hp ↦ hp.mono fun t x ht ↦ ⟨iff_of_false ht.1 hempty, ht.2⟩
    apply hanswers
    rw [bind_eq, always_bind, respond, always_ask]
    intro answer _
    cases answer with
    | ok answer =>
        rw [always_ret, onEnd_ok]
        intro u _
        refine (answers_replying fun f ↦ ?_).mono fun t x ht ↦
          answers_append answers_respond (answers_append answers_answered ht)
        exact fun u _ ↦ answers_answered
    | error failure =>
        dsimp only
        split
        · rw [always_ret, onEnd_ok]
          refine (answers_replying fun f ↦ ?_).mono fun t x ht ↦ answers_append answers_respond ht
          simp [Answers, TurnedAway, RepliesTo]
        · exact answers_respond

end RequestReply

end AcemqAmqp
