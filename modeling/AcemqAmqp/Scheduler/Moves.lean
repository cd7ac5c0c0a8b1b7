import AcemqAmqp.Scheduler.Ladder

/-!
# What the scheduler does with a message

One lemma for each function: which messages it publishes, and how it ends.
-/

namespace AcemqAmqp

namespace Scheduler

open Interaction Program

/-! ## What a run published -/

def publish? : Event Surroundings → Option Consumer.Publish
  | ⟨.publish exchange key message, answer⟩ =>
      some ⟨exchange, key, message, BrokerAnswer.delivered answer⟩
  | _ => none

def publishes (t : List (Event Surroundings)) : List Consumer.Publish := t.filterMap publish?

/-- A publish that raises raises no more than an `Exception`. -/
def Answered : Assumption Surroundings
  | .publish _ _ _, answer => ∀ f, answer = .raised f → f.isException = true
  | _, _ => True

/-- What was published, apart from the library's own headers. -/
structure Sent (exchange key contentType : String) (body : Bytes) (headers : Dict String Value)
    (p : Consumer.Publish) : Prop where
  exchange : p.exchange = exchange
  key : p.key = key
  contentType : p.message.contentType = contentType
  body : p.message.body = body
  headers : ∀ name, Headers.isReserved name = false → p.message.headers.get? name = headers.get? name

/-- A copy in a rung. -/
def IsCopy (body : Bytes) (headers : Dict String Value) (p : Consumer.Publish) : Prop :=
  ∃ rung ∈ scheduleRungs, Sent scheduleExchange (scheduleRungName rung) bytesContentType body headers p

/-- The message at its destination. -/
def IsDelivery (body : Bytes) (headers : Dict String Value) (p : Consumer.Publish) : Prop :=
  Sent (destination headers) (destinationKey headers) (destinationType headers) body ∅ p

/-- The publishes that move a message on, and whether one of them did. -/
inductive Moved (body : Bytes) (headers : Dict String Value) : List Consumer.Publish → Bool → Prop
  | delivered {p : Consumer.Publish} : IsDelivery body headers p → p.delivered = true →
      Moved body headers [p] true
  | roundAgain {p copy : Consumer.Publish} : IsDelivery body headers p → p.delivered = false →
      IsCopy body headers copy → Moved body headers [p, copy] copy.delivered
  | hopped {copy : Consumer.Publish} : IsCopy body headers copy →
      Moved body headers [copy] copy.delivered

section moved

variable {body : Bytes} {headers : Dict String Value} {ps : List Consumer.Publish} {ok : Bool}

theorem Moved.exists_delivered (h : Moved body headers ps ok) (hok : ok = true) :
    ∃ p ∈ ps, p.delivered = true := by
  cases h with
  | @delivered p _ hp => exact ⟨p, by simp, hp⟩
  | @roundAgain p copy => exact ⟨copy, by simp, hok⟩
  | @hopped copy => exact ⟨copy, by simp, hok⟩

/-- What is published carries the message. -/
theorem Moved.carries (h : Moved body headers ps ok) :
    ∀ p ∈ ps, IsCopy body headers p ∨ IsDelivery body headers p := by
  cases h with
  | delivered hdelivery =>
      intro p hp
      obtain rfl := List.mem_singleton.mp hp
      exact .inr hdelivery
  | hopped hcopy =>
      intro p hp
      obtain rfl := List.mem_singleton.mp hp
      exact .inl hcopy
  | roundAgain hdelivery _ hcopy =>
      intro p hp
      rcases List.mem_cons.mp hp with rfl | hp
      · exact .inr hdelivery
      · obtain rfl := List.mem_singleton.mp hp
        exact .inl hcopy

theorem Moved.not_delivered (h : Moved body headers ps ok) (hok : ok = false) :
    ∀ p ∈ ps, p.delivered = false := by
  cases h with
  | delivered => cases hok
  | roundAgain _ hfailed _ => simp [hfailed, hok]
  | hopped => simp [hok]

end moved

variable {s : Scheduler} {body : Bytes} {headers : ApplicationHeaders}

theorem always_now {Q : List (Event Surroundings) → Except Failure Instant → Prop} :
    now.Always Answered Q ↔ ∀ r : Instant, Q [⟨.now, r⟩] (.ok r) :=
  ⟨fun h r ↦ h r trivial, fun h r _ ↦ h r⟩

theorem always_fresh {Q : List (Event Surroundings) → Except Failure String → Prop} :
    fresh.Always Answered Q ↔ ∀ id : String, Q [⟨.fresh, id⟩] (.ok id) :=
  ⟨fun h id ↦ h id trivial, fun h id _ ↦ h id⟩

theorem get?_outbound {p : Publisher} {id : String} {firstSeen : Instant} {name : String}
    (hname : Headers.isReserved name = false) :
    (p.outbound body (.carrying id scheduledType firstSeen headers)).headers.get? name =
      headers.1.get? name := by
  have hplain : ∀ e : Envelope, e.headers = headers.1 → e.extensions = ∅ →
      (e.toHeaders p.routingKey).get? name = headers.1.get? name := by
    intro e hheaders hextensions
    rw [Envelope.get?_toHeaders_of_application hname (by rw [hextensions]; rfl), hheaders]
  unfold Publisher.outbound Publisher.outgoing
  split
  · exact hplain _ rfl rfl
  · exact hplain _ rfl rfl

theorem send_spec (exchange key contentType : String) :
    (s.send exchange key contentType body headers).Always Answered fun t x ↦
      ∃ p, publishes t = [p] ∧ Sent exchange key contentType body headers.1 p ∧
        onEnd x (fun _ ↦ p.delivered = true) fun f ↦ p.delivered = false ∧ f.isException = true := by
  unfold send
  simp only [bind_eq, pure_eq, always_bind, always_fresh, always_now, onEnd_ok, always_call]
  intro id firstSeen answer hanswer
  set p := s.publisher exchange key contentType with hp
  set message := p.outbound body (.carrying id scheduledType firstSeen headers) with hmessage
  have hsent : Sent exchange key contentType body headers.1
      ⟨exchange, key, message, answer.delivered⟩ :=
    ⟨rfl, rfl, rfl, rfl, fun name hname ↦ get?_outbound hname⟩
  have hok : (∃ result, p.sent message answer = .ok result) ↔ answer.delivered = true :=
    Publisher.sent_ok_iff rfl
  cases hend : p.sent message answer with
  | ok result => exact ⟨_, rfl, hsent, hok.mp ⟨result, hend⟩⟩
  | error f =>
      refine ⟨_, rfl, hsent, ?_, ?_⟩
      · rw [← Bool.not_eq_true, ← hok, hend]
        simp
      · rcases Publisher.sent_error hend with hraised | hexception
        · exact hanswer f hraised
        · exact hexception

theorem hop_spec {rung : Duration} (hrung : rung ∈ scheduleRungs) :
    (s.hop body headers rung).Always Answered fun t x ↦
      ∃ copy, publishes t = [copy] ∧ IsCopy body headers.1 copy ∧
        onEnd x (fun _ ↦ copy.delivered = true) fun f ↦
          copy.delivered = false ∧ f.isException = true := by
  refine (send_spec _ _ _).mono ?_
  rintro t x ⟨copy, hp, hsent, hend⟩
  exact ⟨copy, hp, ⟨rung, hrung, hsent⟩, hend⟩

/-- How moving a message on ends. -/
def Ends (body : Bytes) (headers : Dict String Value) (t : List (Event Surroundings))
    (x : Except Failure Unit) : Prop :=
  ∃ ok, Moved body headers (publishes t) ok ∧
    onEnd x (fun _ ↦ ok = true) fun f ↦ ok = false ∧ f.isException = true

theorem deliver_spec : (s.deliver body headers).Always Answered (Ends body headers.1) := by
  rw [deliver, always_rescue]
  refine (send_spec _ _ _).mono ?_
  rintro t x ⟨p, hp, hsent, hend⟩
  cases x with
  | ok u =>
      refine ⟨true, ?_, rfl⟩
      rw [hp]
      exact .delivered ⟨hsent.exchange, hsent.key, hsent.contentType, hsent.body, hsent.headers⟩ hend
  | error f =>
      obtain ⟨hfailed, hexception⟩ := hend
      rw [onEnd_error, if_pos hexception]
      refine (hop_spec (by decide)).mono ?_
      rintro t' y ⟨copy, hp', hcopy, hend'⟩
      refine ⟨copy.delivered, ?_, hend'⟩
      rw [publishes, List.filterMap_append, ← publishes, ← publishes, hp, hp']
      exact .roundAgain hsent hfailed hcopy

theorem route_spec (when_ : Instant) :
    (s.route body headers when_).Always Answered (Ends body headers.1) := by
  rw [route, bind_eq, always_bind, always_now]
  intro read
  rw [onEnd_ok]
  dsimp only
  split
  · exact deliver_spec.mono fun t x h ↦ h
  · have hrung : (scheduleRungs.find? (· ≤ when_ - read)).getD lastRung ∈ scheduleRungs := by
      cases hfound : scheduleRungs.find? (· ≤ when_ - read) with
      | none => decide
      | some rung => exact List.mem_of_find?_eq_some hfound
    refine (hop_spec hrung).mono ?_
    rintro t x ⟨copy, hp, hcopy, hend⟩
    refine ⟨copy.delivered, ?_, hend⟩
    have hmoved : Moved body headers.1 [copy] copy.delivered := .hopped hcopy
    rwa [← hp] at hmoved

/-- A message whose due time can be read is accepted when it was moved on, and
put back otherwise. -/
theorem forward_spec {message : Message Bytes} {when_ : Instant}
    (hdue : dueAt message.envelope.headers = .ok (.ok when_)) :
    (s.forward message).Always Answered fun t x ↦
      ∃ ok, Moved message.body message.envelope.headers (publishes t) ok ∧
        x = .ok (if ok then Ack.accept else .inProgress defaultInProgressDelay) := by
  unfold forward
  rw [hdue, always_rescue, always_bind]
  refine (route_spec when_).mono ?_
  rintro t x ⟨ok, hmoved, hend⟩
  cases x with
  | ok u =>
      obtain rfl : ok = true := hend
      exact ⟨true, by simpa using hmoved, rfl⟩
  | error f =>
      obtain ⟨rfl, hexception⟩ := hend
      rw [onEnd_error, onEnd_error, if_pos hexception]
      exact ⟨false, by simpa using hmoved, rfl⟩

/-- What the reading of a due time raises is that it is no `datetime`. -/
theorem dueAt_error {headers : Dict String Value} {f : Failure} (h : dueAt headers = .ok (.error f)) :
    ∃ millis, f = noDatetime millis := by
  unfold dueAt at h
  split at h
  · cases h
  · cases h
  · split at h
    · cases h
    · split at h
      · cases h
      · rename_i millis _
        have hmillis := Except.ok.inj h
        unfold fromTimestamp at hmillis
        cases hread : fromMillis millis with
        | none =>
            rw [hread] at hmillis
            exact ⟨millis, (Except.error.inj hmillis).symm⟩
        | some when_ =>
            rw [hread] at hmillis
            cases hmillis

theorem forward_error {message : Message Bytes} : (s.forward message).Always Answered
    fun _ x ↦ ∀ f, x = .error f → f.isException = true := by
  cases hdue : dueAt message.envelope.headers with
  | error answer =>
      unfold forward
      rw [hdue]
      rintro f ⟨⟩
  | ok due =>
      cases due with
      | error f =>
          obtain ⟨millis, rfl⟩ := dueAt_error hdue
          unfold forward
          rw [hdue]
          rintro f ⟨⟩
          exact isException_of_noDatetime millis
      | ok when_ =>
          refine (forward_spec hdue).mono ?_
          rintro t x ⟨ok, -, rfl⟩ f hf
          cases hf

/-! ## The consumer of the control queue -/

section consumer

variable {A : Assumption (Consumer.Broker Bytes)} {B : Assumption Surroundings} {d : Delivery}
  {e : Envelope} {events : List (Event (Consumer.Broker Bytes))} {t : List (Event Around)}

/-- What the handler's answer asks for. -/
def asked : Except Failure Ack → Ack
  | .ok a => a
  | .error f => .retry (some f)

/-- A question is passed on, or answered without the consumer's surroundings. -/
theorem runs_answering {q : Consumer.Act Bytes} {r : (Consumer.Broker Bytes).Ans q}
    (h : Runs (A.sum B) (s.answering q) t (.ok r)) :
    (inners t = [⟨q, r⟩] ∧ outers t = []) ∨
      inners t = [] ∧ Consumer.publish? ⟨q, r⟩ = none ∧ Consumer.settle? ⟨q, r⟩ = none ∧
        (outers t = [] ∨ Consumer.decision? ⟨q, r⟩ ≠ none) := by
  cases q with
  | decode body contentType =>
      cases h
      exact .inr ⟨rfl, rfl, rfl, .inl rfl⟩
  | invoke context =>
      obtain ⟨t₁, t₂, answer, rfl, hforward, hret⟩ := runs_andThen.mp h
      obtain ⟨-, hinners⟩ := runs_beside hforward
      cases hret
      refine .inr ⟨by simpa using hinners, rfl, rfl, .inr ?_⟩
      cases answer <;> simp [Consumer.decision?, Except.map]
  | now | random | publish | sleep | halt | ack | nack =>
      cases h with
      | ask _ h =>
          cases h
          exact .inl ⟨rfl, rfl⟩

/-- What the consumer published and how it settled can be read off either trace. -/
theorem inners_filterMap {β : Type} {f : Event (Consumer.Broker Bytes) → Option β}
    (hf : ∀ event, Consumer.publish? event = none → Consumer.settle? event = none → f event = none)
    (h : Expands (A.sum B) s.answering events t) :
    (inners t).filterMap f = events.filterMap f := by
  induction h with
  | nil => rfl
  | @cons q r u rest t' hanswer _ ih =>
      rw [inners_append, List.filterMap_append, ih, List.filterMap_cons]
      rcases runs_answering hanswer with ⟨hinners, -⟩ | ⟨hinners, hpublish, hsettle, -⟩
      · rw [hinners, List.filterMap_cons, List.filterMap_nil]
        cases f ⟨q, r⟩ <;> rfl
      · rw [hinners, hf _ hpublish hsettle]
        rfl

/-- A consumer that does not ask the handler leaves the scheduler alone. -/
theorem outers_eq_nil (h : Expands (A.sum B) s.answering events t)
    (hnone : Consumer.decisions events = []) : outers t = [] := by
  induction h with
  | nil => rfl
  | cons hanswer _ ih =>
      rw [Consumer.decisions, List.filterMap_eq_nil_iff, List.forall_mem_cons] at hnone
      rw [outers_append, ih (List.filterMap_eq_nil_iff.mpr hnone.2), List.append_nil]
      rcases runs_answering hanswer with ⟨-, houters⟩ | ⟨-, -, -, houters | hdecision⟩
      · exact houters
      · exact houters
      · exact absurd hnone.1 hdecision

/-- What may be answered around the scheduler. -/
abbrev AnsweredAround : Assumption Around :=
  Assumption.sum (I := Consumer.Broker Bytes) Consumer.Answered Answered

/-- The answers the scheduler's consumer gets are answers a consumer may get. -/
theorem answered_of_given {q : Consumer.Act Bytes} {r : (Consumer.Broker Bytes).Ans q}
    (h : Given (I := Consumer.Broker Bytes) AnsweredAround s.answering q r) : Consumer.Answered q r := by
  obtain ⟨u, h⟩ := h
  cases q with
  | decode body contentType =>
      cases h
      rintro f ⟨⟩
  | invoke context =>
      obtain ⟨t₁, t₂, answer, rfl, hforward, hret⟩ := runs_andThen.mp h
      cases hret
      obtain ⟨y, hy, hrun⟩ := runs_outcome.mp (runs_beside hforward).1
      obtain rfl := Except.ok.inj hy
      intro f hf
      cases answer with
      | ok a => cases hf
      | error f' =>
          obtain rfl : f' = f := Except.error.inj hf
          exact always_iff_runs.mp forward_error _ _ hrun _ rfl
  | now | random | publish | sleep | halt | ack | nack =>
      cases h with
      | ask hA h =>
          cases h
          exact hA

/-- What the consumer does with an answer of the handler. -/
def settle (s : Scheduler) (d : Delivery) (answer : Envelope × Except Failure Decision) :
    Consumer.Step Bytes Unit :=
  match answer with
  | (envelope, answer) =>
      match answer with
      | .ok (.ack decision) => do
          let (settlement, wait) ← s.consumer.decide envelope decision
          s.consumer.carryOut d envelope settlement wait
      | .ok (.other typeName) =>
          s.consumer.carryOut d envelope ⟨.deadLettered,
            some ("the handler returned " ++ typeName ++ " instead of an Ack"), none⟩ none
      | .error failure =>
          if failure.isException then do
            let (settlement, wait) ← s.consumer.decide envelope (.retry (some failure))
            s.consumer.carryOut d envelope settlement wait
          else .raise failure

/-- What the handler of a delivery is given. -/
def contextOf (d : Delivery) (e : Envelope) : ConsumeContext Bytes where
  queue := scheduleDue
  envelope := e
  payload := d.body
  body := d.body
  contentType := d.contentType
  routingKey := d.routingKey
  redelivered := d.redelivered
  replyTo := d.replyTo

abbrev messageOf (d : Delivery) (e : Envelope) : Message Bytes := (contextOf d e).message

theorem expand_handleOne : (s.consumer.handleOne d e).expand s.answering =
    (s.answering (.invoke (contextOf d e))).andThen fun answer ↦
      (s.settle d answer).expand s.answering := rfl

/-- How a delivery ends, once the handler has answered. -/
def Settled (s : Scheduler) (d : Delivery) (e : Envelope) (answer : Except Failure Ack)
    (t : List (Event (Consumer.Broker Bytes))) : Prop :=
  (∃ course, Consumer.Chosen s.consumer e (.ack (asked answer)) course ∧
    Consumer.Takes s.consumer d course t) ∨
      Consumer.Overflowed s.consumer t ∧ (asked answer).action = .retry

/-- The handler runs on the message, and then the consumer does what it asked. -/
theorem handle_spec {fresh : String} {read : Instant} {x : Except Failure Unit}
    (hread : Consumer.arrive fresh read d = .ok e)
    (h : Runs AnsweredAround (s.handle fresh read d) t x) :
    ∃ t₁ t₂ answer, t = t₁ ++ t₂ ∧ Runs Answered (s.forward (messageOf d e)) (outers t₁) answer ∧
      inners t₁ = [] ∧ outers t₂ = [] ∧ s.Settled d e answer (inners t₂) := by
  rw [handle, Consumer.handle_of_ok hread, expand_handleOne] at h
  obtain ⟨t₁, t₂, r, rfl, hinvoke, hrest⟩ := runs_andThen.mp h
  obtain ⟨u, v, answer, rfl, hforward, hret⟩ := runs_andThen.mp hinvoke
  cases hret
  obtain ⟨hbeside, hinners⟩ := runs_beside hforward
  obtain ⟨y, hy, hrun⟩ := runs_outcome.mp hbeside
  obtain rfl := Except.ok.inj hy
  obtain ⟨events, hevents, hexpands⟩ := runs_expand.mp hrest
  have hsettle : s.settle d (e, answer.map .ack) =
      (s.consumer.decide e (asked answer)).bind fun (settlement, wait) ↦
        s.consumer.carryOut d e settlement wait := by
    cases answer with
    | ok a => rfl
    | error f => exact if_pos (always_iff_runs.mp forward_error _ _ hrun f rfl)
  change Runs _ (s.settle d (e, answer.map .ack)) events x at hevents
  rw [hsettle] at hevents
  have hpublishes := inners_filterMap (f := Consumer.publish?) (fun _ h _ ↦ h) hexpands
  have hsettlements := inners_filterMap (f := Consumer.settle?) (fun _ _ h ↦ h) hexpands
  refine ⟨u ++ [], t₂, answer, rfl, by simpa using hrun, by simpa using hinners, ?_⟩
  rcases always_iff_runs.mp (Consumer.decided_spec (asked answer)) _ _
      (hevents.mono fun _ _ ↦ answered_of_given) with
    ⟨course, hchosen, ⟨hp, hs⟩, hd⟩ | ⟨⟨hp, hpolicy⟩, hd, hretry⟩
  · exact ⟨outers_eq_nil hexpands hd, .inl ⟨course, hchosen, hpublishes.trans hp,
      hsettlements.trans hs⟩⟩
  · exact ⟨outers_eq_nil hexpands hd, .inr ⟨⟨hpublishes.trans hp, hpolicy⟩, hretry⟩⟩

end consumer

end Scheduler

end AcemqAmqp
