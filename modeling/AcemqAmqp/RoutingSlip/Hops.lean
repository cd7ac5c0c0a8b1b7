import AcemqAmqp.RoutingSlip.Runs

/-!
# One hop

Every way a run of the handler can go.  It is accepted when the step is done
and nothing is left to do for this message; and whatever happens, one message
goes out at most, which carries on the run of the one that came in.
-/

namespace AcemqAmqp

open Interaction Program

/-- A message carries on the run of the one that came in. -/
structure PassesOn (incoming copy : Envelope) : Prop where
  correlationId : incoming.id ≠ "" → copy.correlationId = incoming.correlationId
  causationId : copy.causationId = incoming.id
  attempt : copy.attempt = 1
  firstSeen : copy.firstSeen = incoming.firstSeen
  headers : copy.headers.erase headerRoutingSlip = incoming.headers.erase headerRoutingSlip
  extensions : copy.extensions = incoming.extensions

namespace Follower

variable {Payload : Type}

/-! ## What a run did -/

def decision? : Event (Surroundings Payload) → Option (Except Failure (Option Payload))
  | ⟨.decide _, answer⟩ => some answer
  | _ => none

def handed? : Event (Surroundings Payload) → Option Consumer.Publish
  | ⟨.publish exchange key message, answer⟩ =>
      some ⟨exchange, key, message, BrokerAnswer.delivered answer⟩
  | _ => none

/-- How the message that goes on failed to go out. -/
def sendFailure? (f : Follower) : Event (Surroundings Payload) → Option Failure
  | ⟨.encode _, .error failure⟩ => some failure
  | ⟨.publish exchange key message, answer⟩ =>
      match Publisher.sent ⟨f.connection, f.origin, exchange, key, f.contentType, true, true⟩
        message answer with
      | .error failure => some failure
      | .ok _ => none
  | _ => none

def counted? : Event (Surroundings Payload) → Option ℕ
  | ⟨.count metric delta _, _⟩ => if metric = metricPipelineRunTotal then some delta else none
  | _ => none

variable (t : List (Event (Surroundings Payload)))

/-- What the step answered or raised. -/
def decisions : List (Except Failure (Option Payload)) := t.filterMap decision?

/-- What was handed to the broker, and what became of it. -/
def handed : List Consumer.Publish := t.filterMap handed?

def sendFailures (f : Follower) : List Failure := t.filterMap f.sendFailure?

/-- What the run counter was raised by. -/
def counted : List ℕ := t.filterMap counted?

/-! ## The send -/

variable (f : Follower) (message : Message Payload)

/-- The two events of a send, or the first of them. -/
inductive Sending (stop : Stop) (payload : Payload) :
    List (Event (Surroundings Payload)) → Except Failure Unit → Prop
  | unencoded (failure : Failure) :
      Sending stop payload [⟨.encode payload, .error failure⟩] (.error failure)
  | refused {body : Bytes} {answer : BrokerAnswer} {failure : Failure} :
      (f.publisher stop).sent ((f.publisher stop).outbound body stop.envelope) answer =
        .error failure →
      Sending stop payload [⟨.encode payload, .ok body⟩, ⟨.publish stop.exchange stop.routingKey
        ((f.publisher stop).outbound body stop.envelope), answer⟩] (.error failure)
  | delivered {body : Bytes} {answer : BrokerAnswer} : answer.delivered = true →
      Sending stop payload [⟨.encode payload, .ok body⟩, ⟨.publish stop.exchange stop.routingKey
        ((f.publisher stop).outbound body stop.envelope), answer⟩] (.ok ())

theorem send_sending (stop : Stop) (payload : Payload) :
    (f.send stop payload).Always (Anything (Surroundings Payload)) (f.Sending stop payload) := by
  unfold send
  simp only [bind_eq, pure_eq, always_bind, always_call]
  intro encoded _
  cases encoded with
  | error failure => exact .unencoded failure
  | ok body =>
      rw [id, onEnd_ok]
      intro answer _
      cases hsent : (f.publisher stop).sent ((f.publisher stop).outbound body stop.envelope)
        answer with
      | error failure => exact .refused hsent
      | ok result => exact .delivered ((Publisher.sent_ok_iff rfl).mp ⟨result, hsent⟩)

/-! ## The whole run -/

/-- Every way a run can go, and how it ends. -/
inductive Course : List (Event (Surroundings Payload)) → Except Failure Ack → Prop
  | unfollowable {failure : Failure} : f.slipOf message.envelope = .error failure →
      failure.isFatal = true → Course [] (.ok (.reject (some failure)))
  | tooDeep : f.slipOf message.envelope = .error recursionError →
      Course [] (.error recursionError)
  | fatal {slip : RoutingSlip} {failure : Failure} : f.slipOf message.envelope = .ok slip →
      failure.isFatal = true →
      Course [⟨.decide message, .error failure⟩] (.ok (.reject (some failure)))
  | failed {slip : RoutingSlip} {failure : Failure} : f.slipOf message.envelope = .ok slip →
      failure.isFatal = false → failure.isException = true →
      Course [⟨.decide message, .error failure⟩] (.ok (.retry (some failure)))
  | cancelled {slip : RoutingSlip} {failure : Failure} : f.slipOf message.envelope = .ok slip →
      failure.isException = false → Course [⟨.decide message, .error failure⟩] (.error failure)
  | finished {slip : RoutingSlip} {answer : Option Payload} {tick : Tick} {read : Instant}
      {labels : Labels} : f.slipOf message.envelope = .ok slip →
      (slip.steps[1]? = none ∨ answer = none) →
      Course [⟨.decide message, .ok answer⟩, ⟨.tick, tick⟩, ⟨.now, read⟩,
        ⟨.observe metricPipelineRunDuration (read - message.envelope.firstSeen) labels, ()⟩,
        ⟨.count metricPipelineRunTotal 1 labels, ()⟩] (.ok .accept)
  | unwritable {slip : RoutingSlip} {payload : Payload} {tick : Tick} {onwards : Step}
      {unwritten failure : Failure} : f.slipOf message.envelope = .ok slip →
      slip.steps[1]? = some onwards →
      writeOn slip f.form f.origin tick onwards message.envelope = .error unwritten →
      Course [⟨.decide message, .ok (some payload)⟩, ⟨.tick, tick⟩]
        (.ok (.reject (some failure)))
  | sent {slip : RoutingSlip} {payload : Payload} {tick : Tick} {onwards : Step} {stop : Stop}
      {sending : List (Event (Surroundings Payload))} : f.slipOf message.envelope = .ok slip →
      slip.steps[1]? = some onwards →
      writeOn slip f.form f.origin tick onwards message.envelope = .ok stop →
      f.Sending stop payload sending (.ok ()) →
      Course (⟨.decide message, .ok (some payload)⟩ :: ⟨.tick, tick⟩ :: sending) (.ok .accept)
  | unsent {slip : RoutingSlip} {payload : Payload} {tick : Tick} {onwards : Step} {stop : Stop}
      {sending : List (Event (Surroundings Payload))} {failure told : Failure} :
      f.slipOf message.envelope = .ok slip → slip.steps[1]? = some onwards →
      writeOn slip f.form f.origin tick onwards message.envelope = .ok stop →
      f.Sending stop payload sending (.error failure) → failure.isException = true →
      Course (⟨.decide message, .ok (some payload)⟩ :: ⟨.tick, tick⟩ :: sending)
        (.ok (.retry (some told)))
  | cut {slip : RoutingSlip} {payload : Payload} {tick : Tick} {onwards : Step} {stop : Stop}
      {sending : List (Event (Surroundings Payload))} {failure : Failure} :
      f.slipOf message.envelope = .ok slip → slip.steps[1]? = some onwards →
      writeOn slip f.form f.origin tick onwards message.envelope = .ok stop →
      f.Sending stop payload sending (.error failure) → failure.isException = false →
      Course (⟨.decide message, .ok (some payload)⟩ :: ⟨.tick, tick⟩ :: sending) (.error failure)

variable {f message t}

theorem itinerary_error {room : Room} {e : Envelope} {raw : String} {failure : Failure}
    (h : itinerary room e raw = .error failure) : failure.isFatal = true ∨ failure = recursionError := by
  unfold itinerary at h
  split at h
  · obtain rfl := Except.error.inj h
    exact .inl rfl
  · exact .inr (Except.error.inj h).symm
  · split at h
    · cases h
    · obtain rfl := Except.error.inj h
      split
      · exact .inr ‹_›
      · exact .inl rfl

/-- A slip that cannot be read is fatal, but for one there is no room for. -/
theorem slipWithin_error {room : Room} {e : Envelope} {pipeline : String} {failure : Failure}
    (h : slipWithin room e pipeline = .error failure) :
    failure.isFatal = true ∨ failure = recursionError := by
  unfold slipWithin at h
  split at h
  · cases h
  · cases h
  · exact itinerary_error (Fallible.map_error_iff.mp h)
  · exact itinerary_error (Fallible.map_error_iff.mp h)
  · obtain rfl := Except.error.inj h
    exact .inl rfl

theorem next_advance (slip : RoutingSlip) (now : Instant) :
    (slip.advance now).next = slip.steps[1]? := by
  rw [RoutingSlip.next, (Pipeline.steps_advance slip now).1, List.head?_tail]

theorem goOn_course {slip : RoutingSlip} (hslip : f.slipOf message.envelope = .ok slip)
    (answer : Option Payload) :
    (f.goOn slip message answer).Always (Anything (Surroundings Payload)) fun t x ↦
      f.Course message (⟨.decide message, .ok answer⟩ :: t) x := by
  unfold goOn
  rw [bind_eq, always_bind, always_perform]
  intro tick _
  rw [onEnd_ok]
  cases hnext : (slip.advance tick.now).next with
  | none =>
      rw [next_advance] at hnext
      intro _ _ _ _ _ _
      exact .finished hslip (.inl hnext)
  | some onwards =>
      have honwards := hnext
      rw [next_advance] at honwards
      cases answer with
      | none =>
          intro _ _ _ _ _ _
          exact .finished hslip (.inr rfl)
      | some payload =>
          dsimp only
          rw [sendOn]
          cases hwrite : writeOn slip f.form f.origin tick onwards message.envelope with
          | error unwritten => exact .unwritable hslip honwards hwrite
          | ok stop =>
              dsimp only
              rw [always_rescue, always_bind]
              refine (f.send_sending stop payload).mono fun sending x hsending ↦ ?_
              cases x with
              | ok _ =>
                  have hsent : f.Course message (⟨.decide message, .ok (some payload)⟩ ::
                      ⟨.tick, tick⟩ :: sending) _ := .sent hslip honwards hwrite hsending
                  simpa using hsent
              | error failure =>
                  rw [onEnd_error, onEnd_error]
                  split
                  · rename_i hexception
                    have hunsent : ∀ told, f.Course message (⟨.decide message, .ok (some payload)⟩ ::
                        ⟨.tick, tick⟩ :: sending) (.ok (.retry (some told))) := fun _ ↦
                      .unsent hslip honwards hwrite hsending hexception
                    simpa using hunsent _
                  · rename_i hexception
                    have hcut : f.Course message (⟨.decide message, .ok (some payload)⟩ ::
                        ⟨.tick, tick⟩ :: sending) _ :=
                      .cut hslip honwards hwrite hsending (eq_false_of_ne_true hexception)
                    simpa using hcut

/-- Why a message has no slip to follow: for good, but for a slip there is no room for. -/
theorem slipOf_error {e : Envelope} {failure : Failure} (h : f.slipOf e = .error failure) :
    failure.isFatal = true ∨ failure = recursionError := by
  unfold slipOf at h
  split at h
  · rename_i unreadable hread
    obtain rfl := Except.error.inj h
    exact slipWithin_error hread
  · cases h
  · split at h
    · cases h
    · obtain rfl := Except.error.inj h
      exact .inl rfl

theorem travel_course (message : Message Payload) :
    (f.travel message).Always (Anything (Surroundings Payload)) (f.Course message) := by
  unfold travel
  cases hslip : f.slipOf message.envelope with
  | error failure =>
      dsimp only
      split
      · exact .unfollowable hslip ‹_›
      · rename_i hfatal
        obtain rfl := (slipOf_error hslip).resolve_left hfatal
        exact .tooDeep hslip
  | ok slip =>
      dsimp only
      rw [bind_eq, always_bind, always_perform]
      intro answer _
      rw [onEnd_ok]
      cases answer with
      | ok answer => exact goOn_course hslip answer
      | error failure =>
          dsimp only
          split
          · exact .fatal hslip ‹_›
          · rename_i hfatal
            split
            · exact .failed hslip (eq_false_of_ne_true hfatal) ‹_›
            · exact .cancelled hslip (eq_false_of_ne_true ‹_›)

end Follower

/-! ## What goes on -/

section wire

variable {incoming copy : Envelope} {slip : RoutingSlip} {form : Option SlipForm}
  {origin : String} {tick : Tick} {onwards : Step} {stop : Stop}

/-- What is carried on is kept by whatever changes the slip header at most. -/
theorem PassesOn.settle (h : PassesOn incoming copy) {f : EnvelopeFields}
    (hcorrelation : f.correlationId = copy.correlationId) (hcausation : f.causationId = copy.causationId)
    (hattempt : f.attempt = copy.attempt) (hseen : f.firstSeen = copy.firstSeen)
    (hheaders : f.headers.erase headerRoutingSlip = copy.headers.erase headerRoutingSlip)
    (hextensions : f.extensions = copy.extensions)
    (hfree : ∀ name ∈ f.headers, Headers.isReserved name = false) :
    PassesOn incoming (f.settle hfree) where
  correlationId hid := by
    have hne : incoming.correlationId ≠ "" := fun hempty ↦ hid (incoming.correlated hempty)
    rw [← h.correlationId hid] at hne ⊢
    rw [← hcorrelation] at hne ⊢
    exact if_neg hne
  causationId := hcausation.trans h.causationId
  attempt := by
    simp only [EnvelopeFields.settle, hattempt, h.attempt]
    rfl
  firstSeen := hseen.trans h.firstSeen
  headers := hheaders.trans h.headers
  extensions := hextensions.trans h.extensions

theorem passesOn_passedOn (id origin : String) (incoming : Envelope) :
    PassesOn incoming (incoming.passedOn id origin) where
  correlationId hid := if_neg fun hempty ↦ hid (incoming.correlated hempty)
  causationId := rfl
  attempt := rfl
  firstSeen := rfl
  headers := Dict.filter_eq_self fun _ hname ↦ (Dict.mem_filter.mp hname).1
  extensions := rfl

theorem PassesOn.onto (h : PassesOn incoming copy) {fresh : String} {copy' : Envelope}
    (honto : slip.onto fresh copy = .ok copy') : PassesOn incoming copy' := by
  unfold RoutingSlip.onto at honto
  split at honto
  · obtain rfl := Except.ok.inj honto
    unfold Envelope.withItinerary
    have herase : (copy.headers.set headerRoutingSlip (.text slip.toHeader)).erase
        headerRoutingSlip = copy.headers.erase headerRoutingSlip :=
      Dict.filter_set_of_neg (by simp)
    refine h.settle ?_ ?_ ?_ ?_ herase ?_ _ <;> rfl
  · obtain ⟨names, -, hroute⟩ := Fallible.bind_ok_iff.mp honto
    obtain rfl := Except.ok.inj hroute
    unfold Envelope.withRoute
    apply h.settle <;> rfl

theorem id_onto {fresh : String} {copy' : Envelope} (honto : slip.onto fresh copy = .ok copy') :
    copy'.id = copy.id := by
  unfold RoutingSlip.onto at honto
  split at honto
  · obtain rfl := Except.ok.inj honto
    rfl
  · obtain ⟨names, -, hroute⟩ := Fallible.bind_ok_iff.mp honto
    obtain rfl := Except.ok.inj hroute
    rfl

/-- What is handed to the publisher, and where it goes. -/
theorem writeOn_stop (h : writeOn slip form origin tick onwards incoming = .ok stop) :
    PassesOn incoming stop.envelope ∧ stop.exchange = onwards.exchange ∧
      stop.routingKey = onwards.routingKey ∧ stop.envelope.id = tick.id := by
  have hwritten : ∃ (written : RoutingSlip) (copy : Envelope),
      written.onto tick.run (incoming.passedOn tick.id origin) = .ok copy ∧
        stop = ⟨onwards.exchange, onwards.routingKey, written, copy⟩ := by
    unfold writeOn at h
    cases form
    all_goals
      obtain ⟨written, -, h⟩ := Fallible.bind_ok_iff.mp h
      obtain ⟨copy, honto, hstop⟩ := Fallible.bind_ok_iff.mp h
      exact ⟨written, copy, honto, (Except.ok.inj hstop).symm⟩
  obtain ⟨written, copy, honto, rfl⟩ := hwritten
  exact ⟨(passesOn_passedOn tick.id origin incoming).onto honto, rfl, rfl, id_onto honto⟩

theorem PassesOn.outgoing (h : PassesOn incoming copy) (p : Publisher) :
    PassesOn incoming (p.outgoing copy) ∧ (p.outgoing copy).id = copy.id := by
  unfold Publisher.outgoing
  split
  · refine ⟨?_, rfl⟩
    unfold Envelope.withOrigin
    apply h.settle <;> rfl
  · exact ⟨h, rfl⟩

/-- The next stop reads it off the headers. -/
theorem PassesOn.read (h : PassesOn incoming copy) (hid : copy.id ≠ "") {fresh : String}
    {now : Instant} {raw : Dict String Value} {routingKey messageId : String}
    (hread : Envelope.fromHeaders fresh now raw routingKey messageId = some incoming)
    (fresh' : String) (now' : Instant) (key routingKey' messageId' : String) :
    ∃ e', Envelope.fromHeaders fresh' now' (copy.toHeaders key) routingKey' messageId' = some e' ∧
      PassesOn incoming e' := by
  have hforeign : copy.Foreign := by
    intro name hname
    rw [h.extensions, (Envelope.fromHeaders_foreign hread).1] at hname
    exact (Dict.mem_filter.mp hname).1
  have hseen := fromMillis_millis (Envelope.fromHeaders_firstSeen hread)
  rw [← h.firstSeen] at hseen
  exact ⟨_, Envelope.fromHeaders_toHeaders hid hforeign hseen fresh' now' routingKey' messageId',
    h.correlationId, h.causationId, h.attempt, h.firstSeen, h.headers, h.extensions⟩

end wire

namespace Follower

variable {Payload : Type} {f : Follower} {message : Message Payload} {stop : Stop}
  {payload : Payload} {t : List (Event (Surroundings Payload))} {x : Except Failure Ack}

theorem Sending.quiet {y : Except Failure Unit} (h : f.Sending stop payload t y) :
    decisions t = [] ∧ ticks t = [] ∧ counted t = [] := by
  cases h <;> exact ⟨rfl, rfl, rfl⟩

theorem sendFailures_pair (body : Bytes) (outbound : Outbound) (answer : BrokerAnswer) :
    sendFailures ([⟨.encode payload, .ok body⟩,
        ⟨.publish stop.exchange stop.routingKey outbound, answer⟩] :
          List (Event (Surroundings Payload))) f =
      match (f.publisher stop).sent outbound answer with
      | .error failure => [failure]
      | .ok _ => [] := by
  have hpublish : f.sendFailure? (⟨.publish stop.exchange stop.routingKey outbound, answer⟩ :
      Event (Surroundings Payload)) =
        match (f.publisher stop).sent outbound answer with
        | .error failure => some failure
        | .ok _ => none := rfl
  cases hsent : (f.publisher stop).sent outbound answer with
  | error failure =>
      rw [hsent] at hpublish
      exact List.filterMap_cons_some hpublish
  | ok result =>
      rw [hsent] at hpublish
      exact List.filterMap_cons_none hpublish

theorem Sending.failures {failure : Failure} (h : f.Sending stop payload t (.error failure)) :
    sendFailures t f = [failure] := by
  cases h with
  | unencoded => rfl
  | refused hsent => rw [sendFailures_pair, hsent]

theorem Sending.sent (h : f.Sending stop payload t (.ok ())) : sendFailures t f = [] ∧
    ∃ p, handed t = [p] ∧ p.exchange = stop.exchange ∧ p.key = stop.routingKey ∧
      p.delivered = true := by
  cases h with
  | @delivered body answer hdelivered =>
      refine ⟨?_, _, rfl, rfl, rfl, hdelivered⟩
      obtain ⟨result, hresult⟩ := (Publisher.sent_ok_iff (p := f.publisher stop) rfl).mpr hdelivered
      rw [sendFailures_pair, hresult]

theorem Sending.handed {y : Except Failure Unit} (h : f.Sending stop payload t y) :
    handed t = [] ∨ ∃ body delivered, handed t = [⟨stop.exchange, stop.routingKey,
      (f.publisher stop).outbound body stop.envelope, delivered⟩] := by
  cases h with
  | unencoded => exact .inl rfl
  | refused => exact .inr ⟨_, _, rfl⟩
  | delivered => exact .inr ⟨_, _, rfl⟩

/-- What a run hands to the broker carries on the run of the message. -/
theorem Course.handed (h : f.Course message t x) : handed t = [] ∨
    ∃ p tick copy, handed t = [p] ∧ ticks t = [tick] ∧ copy.id = tick.id ∧
      PassesOn message.envelope copy ∧ p.message.headers = copy.toHeaders p.key := by
  have hsending : ∀ {slip : RoutingSlip} {tick : Tick} {onwards : Step} {stop : Stop}
      {payload : Payload} {sending : List (Event (Surroundings Payload))}
      {y : Except Failure Unit},
      writeOn slip f.form f.origin tick onwards message.envelope = .ok stop →
      f.Sending stop payload sending y → Follower.handed sending = [] ∨
        ∃ p copy, Follower.handed sending = [p] ∧ ticks (⟨.tick, tick⟩ :: sending) = [tick] ∧
          copy.id = tick.id ∧ PassesOn message.envelope copy ∧
          p.message.headers = copy.toHeaders p.key := by
    intro slip tick onwards stop payload sending y hwrite hsending
    obtain ⟨hpasses, -, -, hid⟩ := writeOn_stop hwrite
    rcases hsending.handed with hnone | ⟨body, delivered, hone⟩
    · exact .inl hnone
    · obtain ⟨hout, houtId⟩ := hpasses.outgoing (f.publisher stop)
      exact .inr ⟨_, _, hone, congrArg (tick :: ·) hsending.quiet.2.1, houtId.trans hid, hout, rfl⟩
  cases h with
  | unfollowable | tooDeep | fatal | failed | cancelled | finished | unwritable => exact .inl rfl
  | sent _ _ hwrite hsend | unsent _ _ hwrite hsend _ | cut _ _ hwrite hsend _ =>
      rcases hsending hwrite hsend with hnone | ⟨p, copy, hone, hticks, hrest⟩
      · exact .inl hnone
      · exact .inr ⟨p, _, copy, hone, hticks, hrest⟩

theorem Course.accepted (h : f.Course message t x) (hx : x = .ok .accept) :
    ∃ slip answer, f.slipOf message.envelope = .ok slip ∧ decisions t = [.ok answer] ∧
      (slip.steps[1]? = none ∨ answer = none ∨
        ∃ onwards p, slip.steps[1]? = some onwards ∧ Follower.handed t = [p] ∧
          p.exchange = onwards.exchange ∧ p.key = onwards.routingKey ∧ p.delivered = true) := by
  cases h with
  | unfollowable | tooDeep | fatal | failed | cancelled | unwritable | unsent | cut => cases hx
  | @finished slip answer _ _ _ hslip hover =>
      exact ⟨slip, answer, hslip, rfl, hover.imp_right .inl⟩
  | @sent slip payload _ onwards _ sending hslip honwards hwrite hsend =>
      obtain ⟨-, p, hone, hexchange, hkey, hdelivered⟩ := hsend.sent
      obtain ⟨-, hstop, hstopKey, -⟩ := writeOn_stop hwrite
      refine ⟨slip, some payload, hslip, ?_, .inr (.inr ⟨onwards, p, honwards, hone,
        hexchange.trans hstop, hkey.trans hstopKey, hdelivered⟩)⟩
      exact congrArg (Except.ok (some payload) :: ·) hsend.quiet.1

section events

variable (answer : Except Failure (Option Payload)) (tick : Tick)

theorem decisions_cons : decisions (⟨.decide message, answer⟩ :: ⟨.tick, tick⟩ :: t) =
    answer :: decisions t := rfl

theorem ticks_cons : ticks (⟨.decide message, answer⟩ :: ⟨.tick, tick⟩ :: t) =
    tick :: ticks t := rfl

theorem sendFailures_cons : sendFailures (⟨.decide message, answer⟩ :: ⟨.tick, tick⟩ :: t) f =
    sendFailures t f := rfl

end events

theorem Course.retried_iff (h : f.Course message t x) :
    (∃ told, x = .ok (.retry (some told))) ↔
      (∃ failure, decisions t = [.error failure] ∧ failure.isFatal = false ∧
        failure.isException = true) ∨
      ∃ failure, sendFailures t f = [failure] ∧ failure.isException = true := by
  have hfailed : ∀ failure : Failure, sendFailures [⟨.decide message, .error failure⟩] f = [] :=
    fun _ ↦ rfl
  cases h with
  | unfollowable | tooDeep => simp [decisions, sendFailures, Ack.reject, Ack.retry]
  | @finished _ answer tick read labels =>
      have hquiet : sendFailures [⟨.decide message, .ok answer⟩, ⟨.tick, tick⟩, ⟨.now, read⟩,
          ⟨.observe metricPipelineRunDuration (read - message.envelope.firstSeen) labels, ()⟩,
          ⟨.count metricPipelineRunTotal 1 labels, ()⟩] f = [] := rfl
      rw [hquiet]
      simp [decisions, decision?, Ack.accept, Ack.retry]
  | @unwritable _ payload tick =>
      have hquiet : sendFailures [⟨.decide message, .ok (some payload)⟩, ⟨.tick, tick⟩] f = [] := rfl
      rw [hquiet]
      simp [decisions, decision?, Ack.reject, Ack.retry]
  | fatal _ hfatal =>
      rw [hfailed]
      simp [decisions, decision?, Ack.reject, Ack.retry, hfatal]
  | failed _ hfatal hexception =>
      exact ⟨fun _ ↦ .inl ⟨_, rfl, hfatal, hexception⟩, fun _ ↦ ⟨_, rfl⟩⟩
  | cancelled _ hexception =>
      rw [hfailed]
      simp [decisions, decision?, hexception]
  | sent _ _ _ hsend =>
      rw [decisions_cons, sendFailures_cons, hsend.sent.1, hsend.quiet.1]
      simp [Ack.accept, Ack.retry]
  | unsent _ _ _ hsend hexception =>
      rw [sendFailures_cons, hsend.failures]
      exact ⟨fun _ ↦ .inr ⟨_, rfl, hexception⟩, fun _ ↦ ⟨_, rfl⟩⟩
  | cut _ _ _ hsend hexception =>
      rw [decisions_cons, sendFailures_cons, hsend.failures, hsend.quiet.1]
      simp [hexception]

theorem Course.rejected_iff (h : f.Course message t x)
    (hroom : f.slipOf message.envelope ≠ .error recursionError) :
    (∃ told, x = .ok (.reject (some told))) ↔
      (∃ failure, f.slipOf message.envelope = .error failure) ∨
      (∃ failure, decisions t = [.error failure] ∧ failure.isFatal = true) ∨
      ∃ slip payload tick onwards failure, f.slipOf message.envelope = .ok slip ∧
        decisions t = [.ok (some payload)] ∧ ticks t = [tick] ∧ slip.steps[1]? = some onwards ∧
        writeOn slip f.form f.origin tick onwards message.envelope = .error failure := by
  cases h with
  | unfollowable hslip => exact ⟨fun _ ↦ .inl ⟨_, hslip⟩, fun _ ↦ ⟨_, rfl⟩⟩
  | tooDeep hslip => exact absurd hslip hroom
  | fatal hslip hfatal => exact ⟨fun _ ↦ .inr (.inl ⟨_, rfl, hfatal⟩), fun _ ↦ ⟨_, rfl⟩⟩
  | failed hslip hfatal =>
      simp [hslip, decisions, decision?, hfatal, Ack.reject, Ack.retry]
  | @cancelled _ failure hslip hexception =>
      have hfatal : failure.isFatal = false := by
        unfold Failure.isException at hexception
        unfold Failure.isFatal
        grind
      simp [hslip, decisions, decision?, hfatal]
  | finished hslip hover =>
      rcases hover with hnone | rfl
      · simp [hslip, decisions, decision?, ticks, tick?, Ack.accept, Ack.reject, hnone]
      · simp [hslip, decisions, decision?, ticks, tick?, Ack.accept, Ack.reject]
  | unwritable hslip honwards hwrite =>
      exact ⟨fun _ ↦ .inr (.inr ⟨_, _, _, _, _, hslip, rfl, rfl, honwards, hwrite⟩),
        fun _ ↦ ⟨_, rfl⟩⟩
  | sent hslip honwards hwrite hsend | unsent hslip honwards hwrite hsend _
  | cut hslip honwards hwrite hsend _ =>
      rw [hslip, decisions_cons, ticks_cons, hsend.quiet.1, hsend.quiet.2.1]
      simp only [Except.ok.injEq, List.cons.injEq, and_true, Option.some.injEq]
      constructor
      · rintro ⟨told, htold⟩
        cases htold
      · rintro (⟨_, herror⟩ | ⟨_, herror, -⟩ | ⟨_, _, _, _, _, rfl, rfl, rfl, hnext, herror⟩)
        · cases herror
        · cases herror
        · rw [honwards] at hnext
          obtain rfl := Option.some.inj hnext
          rw [hwrite] at herror
          cases herror

/-- The run counter goes up by one when the message is accepted and nothing is sent on. -/
theorem Course.counted_eq (h : f.Course message t x) :
    (x = .ok .accept ∧ Follower.handed t = [] ∧ counted t = [1]) ∨
      (¬(x = .ok .accept ∧ Follower.handed t = []) ∧ counted t = []) := by
  cases h with
  | unfollowable | tooDeep | fatal | failed | cancelled | unwritable =>
      exact .inr ⟨fun hx ↦ (nomatch hx.1), rfl⟩
  | finished => exact .inl ⟨rfl, rfl, rfl⟩
  | sent _ _ _ hsend =>
      obtain ⟨-, p, hone, -⟩ := hsend.sent
      refine .inr ⟨fun hx ↦ ?_, hsend.quiet.2.2⟩
      have hnone : Follower.handed _ = [] := hx.2
      cases hone.symm.trans hnone
  | unsent _ _ _ hsend | cut _ _ _ hsend => exact .inr ⟨fun hx ↦ (nomatch hx.1), hsend.quiet.2.2⟩

/-- Only what `except Exception` does not catch is raised, by the step or by the
publish, where there is room for the slip. -/
theorem Course.raised {failure : Failure} (h : f.Course message t x) (hx : x = .error failure) :
    failure.isException = false ∨ f.slipOf message.envelope = .error recursionError := by
  cases h with
  | unfollowable | fatal | failed | finished | unwritable | sent | unsent => cases hx
  | tooDeep hslip => exact .inr hslip
  | cancelled _ hexception | cut _ _ _ _ hexception =>
      obtain rfl := Except.error.inj hx
      exact .inl hexception

/-- A hop is all or nothing.  The message is accepted when its step is done and
its next one has it, or there is none to have it; it is retried when the step or
the send failed, and rejected when it can never go on, where there is room for
its slip; one message goes out at most, and it carries on the run; and the run is
counted when it ends here. -/
theorem hop_all_or_nothing (h : Runs (Anything (Surroundings Payload)) (f.travel message) t x) :
    (x = .ok .accept → ∃ slip answer, f.slipOf message.envelope = .ok slip ∧
      decisions t = [.ok answer] ∧ (slip.steps[1]? = none ∨ answer = none ∨
        ∃ onwards p, slip.steps[1]? = some onwards ∧ Follower.handed t = [p] ∧
          p.exchange = onwards.exchange ∧ p.key = onwards.routingKey ∧ p.delivered = true)) ∧
    ((∃ told, x = .ok (.retry (some told))) ↔
      (∃ failure, decisions t = [.error failure] ∧ failure.isFatal = false ∧
        failure.isException = true) ∨
      ∃ failure, sendFailures t f = [failure] ∧ failure.isException = true) ∧
    (f.slipOf message.envelope ≠ .error recursionError → ((∃ told, x = .ok (.reject (some told))) ↔
      (∃ failure, f.slipOf message.envelope = .error failure) ∨
      (∃ failure, decisions t = [.error failure] ∧ failure.isFatal = true) ∨
      ∃ slip payload tick onwards failure, f.slipOf message.envelope = .ok slip ∧
        decisions t = [.ok (some payload)] ∧ ticks t = [tick] ∧ slip.steps[1]? = some onwards ∧
        writeOn slip f.form f.origin tick onwards message.envelope = .error failure)) ∧
    (∀ failure, x = .error failure → failure.isException = false ∨
      f.slipOf message.envelope = .error recursionError) ∧
    (Follower.handed t = [] ∨ ∃ p, Follower.handed t = [p] ∧
      (∃ copy, PassesOn message.envelope copy ∧ p.message.headers = copy.toHeaders p.key) ∧
      ∀ (fresh : String) (now : Instant) (raw : Dict String Value) (routingKey messageId : String),
        Envelope.fromHeaders fresh now raw routingKey messageId = some message.envelope →
        (∀ tick ∈ ticks t, tick.id ≠ "") →
        ∀ (fresh' : String) (now' : Instant) (routingKey' messageId' : String), ∃ e',
          Envelope.fromHeaders fresh' now' p.message.headers routingKey' messageId' = some e' ∧
            PassesOn message.envelope e') ∧
    (counted t = [1] ∨ counted t = []) ∧
    (counted t = [1] ↔ x = .ok .accept ∧ Follower.handed t = []) := by
  have hcourse := always_iff_runs.mp (travel_course message) t x h
  refine ⟨hcourse.accepted, hcourse.retried_iff, hcourse.rejected_iff, fun _ ↦ hcourse.raised,
    ?_, ?_, ?_⟩
  · refine hcourse.handed.imp_right ?_
    rintro ⟨p, tick, copy, hone, hticks, hid, hpasses, hheaders⟩
    refine ⟨p, hone, ⟨copy, hpasses, hheaders⟩, ?_⟩
    intro fresh now raw routingKey messageId hread hminted fresh' now' routingKey' messageId'
    have hnamed : copy.id ≠ "" := by
      rw [hid]
      exact hminted tick (hticks ▸ List.mem_singleton_self tick)
    rw [hheaders]
    exact hpasses.read hnamed hread fresh' now' p.key routingKey' messageId'
  · rcases hcourse.counted_eq with ⟨-, -, hone⟩ | ⟨-, hnone⟩
    · exact .inl hone
    · exact .inr hnone
  · rcases hcourse.counted_eq with ⟨hx, hnone, hone⟩ | ⟨hnot, hnone⟩
    · exact iff_of_true hone ⟨hx, hnone⟩
    · exact iff_of_false (by rw [hnone]; exact List.cons_ne_nil 1 [] ∘ Eq.symm) hnot

/-! ## An order with two stops -/

/-- To check, and then to pay. -/
def twoStops : RoutingSlip := ⟨[⟨"orders", "check", "", ""⟩, ⟨"orders", "pay", "", ""⟩], [], "", .json⟩

/-- A message without a slip is taken to be at the first of the two. -/
def checking : Follower := ⟨⟨5000000, 1000⟩, "svc", "", "", none, some twoStops, .ample⟩

def order : Message Unit := ⟨(), .new "m1" "order.placed" 0, "check", none, false, [], ""⟩

def orderTick : Tick := ⟨0, "m2", "r1"⟩

theorem slipOf_order : checking.slipOf order.envelope = .ok twoStops := by
  have hroute : declaredRoute order.envelope "" = none := by
    rw [declaredRoute]
    exact if_pos splitNames_empty
  have hslip : slipWithin checking.room order.envelope checking.pipeline =
      .ok (declaredRoute order.envelope "") := rfl
  rw [slipOf, hslip, hroute]
  rfl

/-- The order is checked, and a message for the next stop goes out. -/
theorem hop_all_or_nothing_order : ∃ t x,
    Runs (Anything (Surroundings Unit)) (checking.travel order) t x ∧
      ∃ p, Follower.handed t = [p] ∧ (∃ copy, PassesOn order.envelope copy ∧
        p.message.headers = copy.toHeaders p.key) ∧ counted t ≠ [1] := by
  have hnext : (twoStops.advance orderTick.now).next = some ⟨"orders", "pay", "", ""⟩ := rfl
  obtain ⟨t, x, hruns, hpublished⟩ := exists_runs_travel slipOf_order hnext rfl () []
  obtain ⟨-, -, -, -, hone, -, hcounted⟩ := hop_all_or_nothing hruns
  rcases hone with hnone | ⟨p, hp, hcopy, -⟩
  · have hsame : (Follower.handed t).map (fun p ↦ (p.exchange, p.key, p.message)) = published t := by
      rw [Follower.handed, published, List.map_filterMap]
      congr 1
      funext ⟨q, r⟩
      cases q <;> rfl
    rw [hnone, hpublished] at hsame
    cases hsame
  · refine ⟨t, x, hruns, p, hp, hcopy, fun hcount ↦ ?_⟩
    cases hp.symm.trans (hcounted.mp hcount).2

/-- A codec that raises `FatalError`: the message is retried all the same.  A
step that is cancelled: the message is not answered. -/
theorem hop_retries_fatal_send :
    (∃ t failure, Runs (Anything (Surroundings Unit)) (checking.travel order) t
        (.ok (.retry (some failure))) ∧ decisions t = [.ok (some ())] ∧
      ∃ fatal, sendFailures t checking = [fatal] ∧ fatal.isFatal = true) ∧
    ∃ t failure, Runs (Anything (Surroundings Unit)) (checking.travel order) t (.error failure) ∧
      decisions t = [.error failure] ∧ failure.isFatal = false := by
  constructor
  · obtain ⟨stop, hwrite⟩ : ∃ stop, writeOn twoStops checking.form checking.origin orderTick
        ⟨"orders", "pay", "", ""⟩ order.envelope = .ok stop := ⟨_, rfl⟩
    have hsend : Runs (Anything (Surroundings Unit)) (checking.send stop ())
        [⟨.encode (), .error (fatalError "")⟩] (.error (fatalError "")) :=
      .ask trivial (.raise (fatalError ""))
    have hsendOn : ∃ told, Runs (Anything (Surroundings Unit))
        (checking.sendOn twoStops orderTick ⟨"orders", "pay", "", ""⟩ order ())
        [⟨.encode (), .error (fatalError "")⟩] (.ok (.retry (some told))) := by
      rw [sendOn, hwrite]
      exact ⟨_, hsend.bind_error.rescue_error (.ret _)⟩
    obtain ⟨told, hsendOn⟩ := hsendOn
    refine ⟨[⟨.decide order, .ok (some ())⟩, ⟨.tick, orderTick⟩,
      ⟨.encode (), .error (fatalError "")⟩], told, ?_, rfl, fatalError "", rfl, rfl⟩
    rw [travel, slipOf_order]
    exact .ask trivial (.ask trivial hsendOn)
  · refine ⟨[⟨.decide order, .error ⟨.cancelled, "CancelledError", ""⟩⟩],
      ⟨.cancelled, "CancelledError", ""⟩, ?_, rfl, rfl⟩
    rw [travel, slipOf_order]
    exact .ask trivial (.raise _)

end Follower

end AcemqAmqp
