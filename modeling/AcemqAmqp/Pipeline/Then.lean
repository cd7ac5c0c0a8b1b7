import AcemqAmqp.Consumer.Handle
import AcemqAmqp.Wire.RoundTrip

/-!
# One service after another

The handler that `then` makes of a step: it publishes what the step produced, and
accepts the message once that is out.  However often messages are handled and
tried again, the causes of any message lead back to the one the run began with.
-/

namespace AcemqAmqp

namespace Then

open Interaction Program

variable {Payload : Type}

inductive Act (Payload : Type)
  | decide (message : Message Payload)
  | mint
  | encode (payload : Payload)
  | publish (exchange routingKey : String) (message : Outbound)

/-- The handler's surroundings.  A step that answers `none` answers `NOTHING`. -/
abbrev Surroundings (Payload : Type) : Interface where
  Act := Act Payload
  Ans
    | .decide _ => Except Failure (Option Payload)
    | .mint => String
    | .encode _ => Except Failure Bytes
    | .publish _ _ _ => BrokerAnswer

abbrev Hop (Payload α : Type) := Program (Surroundings Payload) Failure α

/-- The envelope of the message that `e` leads to. -/
def ledTo (e : Envelope) (fresh : String) : Envelope :=
  EnvelopeFields.settle
    { id := fresh, type := "", version := 1, correlationId := e.correlationId, causationId := e.id, attempt := 1
      firstSeen := e.firstSeen, origin := "", error := "", claim := "", route := ""
      routePosition := 0, routeId := "", headers := e.headers, extensions := e.extensions } e.application

/-- What a message is tried again for when its work is done and the next one is not out. -/
def notOut (e : Envelope) (failure : Failure) : Failure :=
  ⟨.exception, "RuntimeError", "acemq: the work for message " ++ e.id ++
    " is done but the next message did not go out: " ++ failure.text⟩

variable (p : Publisher)

/-- `publisher.send(produced, envelope=…)`. -/
def send (payload : Payload) (e : Envelope) : Hop Payload Unit := do
  let body ← Program.call (I := Surroundings Payload) (.encode payload) id
  let message := p.outbound body e
  let _ ← Program.call (I := Surroundings Payload) (.publish p.exchange p.routingKey message) (p.sent message)
  return ()

/-- `onwards`. -/
def onwards (message : Message Payload) : Hop Payload Ack := do
  match ← Program.call (I := Surroundings Payload) (.decide message) id with
  | none => return .accept
  | some produced => do
      let fresh ← Program.perform (I := Surroundings Payload) .mint
      ((send p produced (ledTo message.envelope fresh)).bind fun _ ↦ .ret .accept).rescue fun failure ↦
        if failure.isException then .ret (.retry (some (notOut message.envelope failure))) else .raise failure

/-! ## What a handler does -/

/-- How a handler ends when its message did not go out. -/
def unsent (e : Envelope) (failure : Failure) : Except Failure Ack :=
  if failure.isException then .ok (.retry (some (notOut e failure))) else .error failure

/-- What is asked, and how it ends. -/
inductive Course (message : Message Payload) : List (Event (Surroundings Payload)) → Except Failure Ack → Prop
  | failed (failure : Failure) : Course message [⟨.decide message, .error failure⟩] (.error failure)
  | nothing : Course message [⟨.decide message, .ok none⟩] (.ok .accept)
  | unencoded (produced : Payload) (fresh : String) (failure : Failure) : Course message
      [⟨.decide message, .ok (some produced)⟩, ⟨.mint, fresh⟩, ⟨.encode produced, .error failure⟩]
      (unsent message.envelope failure)
  | sent (produced : Payload) (fresh : String) (body : Bytes) (answer : BrokerAnswer) (result : PublishResult) :
      p.sent (p.outbound body (ledTo message.envelope fresh)) answer = .ok result → Course message
      [⟨.decide message, .ok (some produced)⟩, ⟨.mint, fresh⟩, ⟨.encode produced, .ok body⟩,
        ⟨.publish p.exchange p.routingKey (p.outbound body (ledTo message.envelope fresh)), answer⟩] (.ok .accept)
  | unsent (produced : Payload) (fresh : String) (body : Bytes) (answer : BrokerAnswer) (failure : Failure) :
      p.sent (p.outbound body (ledTo message.envelope fresh)) answer = .error failure → Course message
      [⟨.decide message, .ok (some produced)⟩, ⟨.mint, fresh⟩, ⟨.encode produced, .ok body⟩,
        ⟨.publish p.exchange p.routingKey (p.outbound body (ledTo message.envelope fresh)), answer⟩]
      (Then.unsent message.envelope failure)

variable {p}

theorem always_unsent {e : Envelope} {failure : Failure}
    {Q : List (Event (Surroundings Payload)) → Except Failure Ack → Prop}
    (h : Q [] (unsent e failure)) : (if failure.isException then .ret (.retry (some (notOut e failure)))
      else .raise failure : Hop Payload Ack).Always (Anything (Surroundings Payload)) Q := by
  rw [unsent] at h
  split
  · rwa [if_pos ‹_›] at h
  · rwa [if_neg ‹_›] at h

variable (p) in
theorem onwards_course (message : Message Payload) :
    (onwards p message).Always (Anything (Surroundings Payload)) (Course p message) := by
  rw [onwards, bind_eq, always_bind, always_call]
  intro decided _
  cases decided with
  | error failure => exact .failed failure
  | ok answer =>
      cases answer with
      | none => exact .nothing
      | some produced =>
          intro fresh _ encoded _
          cases encoded with
          | error failure => exact always_unsent (.unencoded produced fresh failure)
          | ok body =>
              intro answer _
              beta_reduce
              cases hsent : p.sent (p.outbound body (ledTo message.envelope fresh)) answer with
              | error failure => exact always_unsent (.unsent produced fresh body answer failure hsent)
              | ok result => exact .sent produced fresh body answer result hsent

/-- What a step answered or raised. -/
def decisions (t : List (Event (Surroundings Payload))) : List (Except Failure (Option Payload)) :=
  t.filterMap fun e ↦ match e with
    | ⟨.decide _, answer⟩ => some answer
    | _ => none

/-- What was handed to the broker, and what became of it. -/
def handed (t : List (Event (Surroundings Payload))) : List ((String × String × Outbound) × BrokerAnswer) :=
  t.filterMap fun e ↦ match e with
    | ⟨.publish exchange routingKey message, answer⟩ => some ((exchange, routingKey, message), answer)
    | _ => none

/-- What kept the next message from going out. -/
def sendFailures (p : Publisher) (t : List (Event (Surroundings Payload))) : List Failure :=
  t.filterMap fun e ↦ match e with
    | ⟨.encode _, .error failure⟩ => some failure
    | ⟨.publish _ _ message, answer⟩ => match p.sent message answer with
      | .error failure => some failure
      | .ok _ => none
    | _ => none

variable {message : Message Payload} {t : List (Event (Surroundings Payload))} {x : Except Failure Ack}

theorem Course.handed (h : Course p message t x) : Then.handed t = [] ∨ ∃ fresh body answer, ⟨.mint, fresh⟩ ∈ t ∧
    Then.handed t = [((p.exchange, p.routingKey, p.outbound body (ledTo message.envelope fresh)), answer)] := by
  cases h with
  | failed | nothing | unencoded => exact .inl rfl
  | sent _ fresh body answer | unsent _ fresh body answer =>
      exact .inr ⟨fresh, body, answer, List.mem_cons_of_mem _ List.mem_cons_self, rfl⟩

theorem unsent_ne_accept (e : Envelope) (failure : Failure) : unsent e failure ≠ .ok .accept := by
  rw [unsent]
  split
  · intro h
    cases congrArg Ack.action (Except.ok.inj h)
  · intro h
    cases h

theorem unsent_retry_iff {e : Envelope} {failure : Failure} :
    (∃ told, unsent e failure = .ok (.retry (some told))) ↔ failure.isException = true := by
  rw [unsent]
  split
  · exact iff_of_true ⟨_, rfl⟩ ‹_›
  · refine iff_of_false ?_ ‹_›
    rintro ⟨told, h⟩
    cases h

theorem unsent_error_iff {e : Envelope} {failure raised : Failure} :
    unsent e failure = .error raised ↔ failure = raised ∧ failure.isException = false := by
  rw [unsent]
  split
  · rename_i hexception
    refine iff_of_false (fun h ↦ ?_) fun h ↦ ?_
    · cases h
    · cases hexception.symm.trans h.2
  · rename_i hexception
    rw [Except.error.injEq, Bool.not_eq_true] at *
    exact (and_iff_left hexception).symm

theorem Course.accepted_iff (h : Course p message t x) : x = .ok .accept ↔
    decisions t = [.ok none] ∨ ∃ m answer result, Then.handed t = [(m, answer)] ∧ p.sent m.2.2 answer = .ok result := by
  cases h with
  | failed failure =>
      refine iff_of_false (fun h ↦ ?_) ?_
      · cases h
      · rintro (h | ⟨m, answer, result, h, -⟩)
        · cases h
        · cases h
  | nothing => exact iff_of_true rfl (.inl rfl)
  | unencoded produced fresh failure =>
      refine iff_of_false (unsent_ne_accept _ _) ?_
      rintro (h | ⟨m, answer, result, h, -⟩)
      · cases h
      · cases h
  | sent produced fresh body answer result hsent => exact iff_of_true rfl (.inr ⟨_, answer, result, rfl, hsent⟩)
  | unsent produced fresh body answer failure hsent =>
      refine iff_of_false (unsent_ne_accept _ _) ?_
      rintro (h | ⟨m, answer, result, h, hother⟩)
      · cases h
      · obtain ⟨rfl, rfl⟩ := Prod.mk.inj (List.singleton_inj.mp h)
        cases hsent.symm.trans hother

theorem unsent_spec {e : Envelope} {failure : Failure} {produced : Payload}
    (hdecided : decisions t = [.ok (some produced)])
    (hfailed : sendFailures p t = [failure]) :
    ((∃ told, unsent e failure = .ok (.retry (some told))) ↔
      ∃ failure, sendFailures p t = [failure] ∧ failure.isException = true) ∧
    ∀ raised, unsent e failure = .error raised ↔
      decisions t = [.error raised] ∨ sendFailures p t = [raised] ∧ raised.isException = false := by
  rw [hdecided, hfailed]
  refine ⟨unsent_retry_iff.trans ?_, fun raised ↦ unsent_error_iff.trans ?_⟩
  · constructor
    · exact fun hexception ↦ ⟨failure, rfl, hexception⟩
    · rintro ⟨_, hsame, hexception⟩
      rwa [List.singleton_inj.mp hsame]
  · constructor
    · rintro ⟨rfl, hexception⟩
      exact .inr ⟨rfl, hexception⟩
    · rintro (h | ⟨h, hexception⟩)
      · cases h
      · obtain rfl := List.singleton_inj.mp h
        exact ⟨rfl, hexception⟩

theorem accepted_spec {answer : Option Payload} (hdecided : decisions t = [.ok answer])
    (hfailed : sendFailures p t = []) :
    ((∃ told, (.ok .accept : Except Failure Ack) = .ok (.retry (some told))) ↔
      ∃ failure, sendFailures p t = [failure] ∧ failure.isException = true) ∧
    ∀ raised, (.ok .accept : Except Failure Ack) = .error raised ↔
      decisions t = [.error raised] ∨ sendFailures p t = [raised] ∧ raised.isException = false := by
  rw [hdecided, hfailed]
  constructor
  · refine iff_of_false ?_ ?_
    · rintro ⟨told, h⟩
      cases congrArg Ack.action (Except.ok.inj h)
    · rintro ⟨failure, h, -⟩
      cases h
  · intro raised
    refine iff_of_false (fun h ↦ ?_) ?_
    · cases h
    · rintro (h | ⟨h, -⟩)
      · cases h
      · cases h

/-- What a handler did says why it ended as it did. -/
theorem Course.failed_iff (h : Course p message t x) :
    ((∃ told, x = .ok (.retry (some told))) ↔
      ∃ failure, sendFailures p t = [failure] ∧ failure.isException = true) ∧
    ∀ raised, x = .error raised ↔
      decisions t = [.error raised] ∨ sendFailures p t = [raised] ∧ raised.isException = false := by
  cases h with
  | failed failure =>
      constructor
      · refine iff_of_false ?_ ?_
        · rintro ⟨told, h⟩
          cases h
        · rintro ⟨failure, h, -⟩
          cases h
      · intro raised
        constructor
        · intro h
          obtain rfl := Except.error.inj h
          exact .inl rfl
        · rintro (h | ⟨h, -⟩)
          · have hsame : [(.error failure : Except Failure (Option Payload))] = [.error raised] := h
            rw [Except.error.inj (List.singleton_inj.mp hsame)]
          · cases h
  | nothing => exact accepted_spec rfl rfl
  | unencoded produced fresh failure => exact unsent_spec rfl rfl
  | sent produced fresh body answer result hsent =>
      refine accepted_spec rfl ?_
      simp only [sendFailures, List.filterMap_cons, List.filterMap_nil, hsent]
  | unsent produced fresh body answer failure hsent =>
      refine unsent_spec rfl ?_
      simp only [sendFailures, List.filterMap_cons, List.filterMap_nil, hsent]

/-- A step is all or nothing.  One message goes out at most, and it continues the run; the message
that came in is accepted when the step has nothing to send on, or when its message is out, and in
some queue if that was asked for; it is tried again when its message could not be sent; and what the
step raises is raised. -/
theorem then_all_or_nothing (h : Runs (Anything (Surroundings Payload)) (onwards p message) t x) :
    (Then.handed t = [] ∨ ∃ fresh body answer, ⟨.mint, fresh⟩ ∈ t ∧
      Then.handed t = [((p.exchange, p.routingKey, p.outbound body (ledTo message.envelope fresh)), answer)]) ∧
    (x = .ok .accept ↔ decisions t = [.ok none] ∨
      ∃ m answer result, Then.handed t = [(m, answer)] ∧ p.sent m.2.2 answer = .ok result) ∧
    (p.mandatory = true → (x = .ok .accept ↔ decisions t = [.ok none] ∨
      ∃ m answer, Then.handed t = [(m, answer)] ∧ answer.delivered = true)) ∧
    ((∃ told, x = .ok (.retry (some told))) ↔
      ∃ failure, sendFailures p t = [failure] ∧ failure.isException = true) ∧
    ∀ raised, x = .error raised ↔
      decisions t = [.error raised] ∨ sendFailures p t = [raised] ∧ raised.isException = false := by
  have hcourse := always_iff_runs.mp (onwards_course p message) t x h
  refine ⟨hcourse.handed, hcourse.accepted_iff, fun hmandatory ↦ hcourse.accepted_iff.trans (or_congr_right ?_),
    hcourse.failed_iff⟩
  refine exists_congr fun m ↦ exists_congr fun answer ↦ ?_
  rw [← Publisher.sent_ok_iff hmandatory, exists_and_left]

/-- To the next service. -/
def toShipping : Publisher :=
  ⟨⟨5000000, 1000⟩, "svc", "shipping-events", "shipment.requested", "application/json", true, true⟩

def placed : Message Unit := ⟨(), .new "f1" "orders" 0, "orders", none, false, [], ""⟩

def shipping : Outbound := toShipping.outbound [] (ledTo placed.envelope "f2")

theorem runs_shipping {A : Assumption (Surroundings Unit)} (hdecide : A (.decide placed) (.ok (some ())))
    (hmint : A .mint "f2") (hencode : A (.encode ()) (.ok []))
    (hpublish : A (.publish "shipping-events" "shipment.requested" shipping) (.answered ⟨"f2", true, true, ""⟩)) :
    Runs A (onwards toShipping placed) [⟨.decide placed, .ok (some ())⟩, ⟨.mint, "f2"⟩, ⟨.encode (), .ok []⟩,
      ⟨.publish "shipping-events" "shipment.requested" shipping, .answered ⟨"f2", true, true, ""⟩⟩] (.ok .accept) :=
  .ask hdecide (.ask hmint (.ask hencode (.ask hpublish (.ret _))))

/-- An order is placed, and a shipment requested. -/
theorem then_all_or_nothing_shipping : ∃ (t : List (Event (Surroundings Unit))) (m : String × String × Outbound)
    (answer : BrokerAnswer), Then.handed t = [(m, answer)] ∧ (decisions t = [.ok none] ∨
      ∃ m answer, Then.handed t = [(m, answer)] ∧ answer.delivered = true) :=
  ⟨_, _, _, rfl, ((then_all_or_nothing (runs_shipping trivial trivial trivial trivial)).2.2.1 rfl).mp rfl⟩

end Then

end AcemqAmqp
