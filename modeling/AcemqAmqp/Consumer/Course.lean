import AcemqAmqp.Consumer.Handle

/-!
# The courses a delivery can take

Everything one delivery can lead to, said once: which copies the consumer
sends, in which order, and how it settles.  `handleOne_takes` is the inversion
lemma; what the consumer guarantees is read off the list of courses.
-/

namespace AcemqAmqp

namespace Consumer

open Interaction Program

variable {Payload : Type}

/-! ## What a run did -/

structure Publish where
  exchange : String
  key : String
  message : Outbound
  delivered : Bool

inductive Settle
  | ack (tag : ℕ)
  | nack (tag : ℕ) (requeue : Bool)
  deriving DecidableEq

def publish? : Event (Broker Payload) → Option Publish
  | ⟨.publish exchange key message, answer⟩ =>
      some ⟨exchange, key, message, BrokerAnswer.delivered answer⟩
  | _ => none

def settle? : Event (Broker Payload) → Option Settle
  | ⟨.ack tag, _⟩ => some (.ack tag)
  | ⟨.nack tag requeue, _⟩ => some (.nack tag requeue)
  | _ => none

/-- The envelope the interceptors left, and the decision: what was raised asks for a retry. -/
def decision? : Event (Broker Payload) → Option (Envelope × Decision)
  | ⟨.invoke _, (envelope, .ok decision)⟩ => some (envelope, decision)
  | ⟨.invoke _, (envelope, .error failure)⟩ => some (envelope, .ack (.retry (some failure)))
  | _ => none

def publishes (t : List (Event (Broker Payload))) : List Publish := t.filterMap publish?

def settlements (t : List (Event (Broker Payload))) : List Settle := t.filterMap settle?

def decisions (t : List (Event (Broker Payload))) : List (Envelope × Decision) :=
  t.filterMap decision?

/-- A run that decided nothing, published nothing and settled nothing. -/
def Quiet (t : List (Event (Broker Payload))) : Prop :=
  publishes t = [] ∧ settlements t = [] ∧ decisions t = []

/-- What may be answered: the codec and the handler raise no more than an
`Exception`, a draw is below one, and a publish that raises raises a `PublishError`. -/
def Answered : Assumption (Broker Payload)
  | .decode _ _, decoded => ∀ f, decoded = .error f → f.isException = true
  | .invoke _, answer => ∀ f, answer.2 = .error f → f.isException = true
  | .random, draw => 0 ≤ draw ∧ draw < (1 : ℚ)
  | .publish _ _ _, answer => ∀ f, answer = .raised f → f.isPublishError = true
  | _, _ => True

/-! ## Courses -/

/-- `moved` sends one copy; `fellBack` sends one to a rung that is not there
and then one to the consumer's own queue. -/
inductive Course
  | accepted
  | returned
  | moved (key : String) (copy : Envelope) (delivered : Bool)
  | fellBack (rung : String) (copy : Envelope) (delivered : Bool)

def Course.publishes (queue : String) (d : Delivery) : Course → List Publish
  | accepted => []
  | returned => []
  | moved key copy delivered => [⟨"", key, hop d copy, delivered⟩]
  | fellBack rung copy delivered =>
      [⟨"", rung, hop d copy, false⟩, ⟨"", queue, hop d copy, delivered⟩]

def Course.settle (d : Delivery) : Course → Settle
  | accepted => .ack d.tag
  | returned => .nack d.tag true
  | moved _ _ delivered => if delivered then .ack d.tag else .nack d.tag true
  | fellBack _ _ delivered => if delivered then .ack d.tag else .nack d.tag true

def Takes (c : Consumer) (d : Delivery) (course : Course)
    (t : List (Event (Broker Payload))) : Prop :=
  publishes t = course.publishes c.queue d ∧ settlements t = [course.settle d]

/-- The courses a decision can lead to.  `e` is the envelope the interceptors left. -/
inductive Chosen (c : Consumer) (e : Envelope) : Decision → Course → Prop
  | accept {a : Ack} : a.action = .accept → Chosen c e (.ack a) .accepted
  | reject {a : Ack} {delivered : Bool} : a.action = .reject → Chosen c e (.ack a)
      (.moved (deadLetterQueue c.queue)
        (e.withError ("the handler rejected it: " ++ describe a.error)) delivered)
  | park {a : Ack} {delivered : Bool} : a.action = .park → Chosen c e (.ack a)
      (.moved (parkedQueue c.queue)
        (e.withError ("the handler parked it: " ++ describe a.error)) delivered)
  | inProgress {a : Ack} {delivered : Bool} : a.action = .inProgress →
      Chosen c e (.ack a) (.moved c.queue e delivered)
  | stop {a : Ack} : a.action = .retry → a.error.any Failure.isStopReading = true →
      Chosen c e (.ack a) .returned
  | fatal {a : Ack} {delivered : Bool} : a.action = .retry →
      a.error.any Failure.isStopReading = false → a.error.any Failure.isFatal = true →
      Chosen c e (.ack a) (.moved (deadLetterQueue c.queue)
        (e.withError ("the handler reported an unprocessable message: " ++ describe a.error))
        delivered)
  | exhausted {a : Ack} {age : Duration} {draw : ℚ} {delivered : Bool} : a.action = .retry →
      a.error.any Failure.isStopReading = false → a.error.any Failure.isFatal = false →
      c.retry.nextWait e.attempt age draw = .ok none →
      Chosen c e (.ack a) (.moved (deadLetterQueue c.queue)
        (e.withError (c.exhausted e ++ ": " ++ describe a.error)) delivered)
  | again {a : Ack} {age : Duration} {draw : ℚ} {w : Wait} {delivered : Bool} :
      a.action = .retry → a.error.any Failure.isStopReading = false →
      a.error.any Failure.isFatal = false → w.inBroker = false →
      c.retry.nextWait e.attempt age draw = .ok (some w) →
      Chosen c e (.ack a) (.moved c.queue (e.withAttempt (e.attempt + 1)) delivered)
  | rung {a : Ack} {age : Duration} {draw : ℚ} {w : Wait} {delivered : Bool} :
      a.action = .retry → a.error.any Failure.isStopReading = false →
      a.error.any Failure.isFatal = false → w.inBroker = true →
      c.retry.nextWait e.attempt age draw = .ok (some w) →
      Chosen c e (.ack a)
        (.moved (retryQueue c.queue w.delay) (e.withAttempt (e.attempt + 1)) delivered)
  | fellBack {a : Ack} {age : Duration} {draw : ℚ} {w : Wait} {delivered : Bool} :
      a.action = .retry → a.error.any Failure.isStopReading = false →
      a.error.any Failure.isFatal = false → w.inBroker = true →
      c.retry.nextWait e.attempt age draw = .ok (some w) →
      Chosen c e (.ack a)
        (.fellBack (retryQueue c.queue w.delay) (e.withAttempt (e.attempt + 1)) delivered)
  | other {typeName : String} {delivered : Bool} : Chosen c e (.other typeName)
      (.moved (deadLetterQueue c.queue)
        (e.withError ("the handler returned " ++ typeName ++ " instead of an Ack")) delivered)

theorem Chosen.of_accept {c : Consumer} {e : Envelope} {a : Ack} {course : Course}
    (h : Chosen c e (.ack a) course) (haction : a.action = .accept) : course = .accepted := by
  cases h with
  | accept => rfl
  | reject h' | park h' | inProgress h' | stop h' | fatal h' | exhausted h' | again h' | rung h'
  | fellBack h' => cases haction.symm.trans h'

theorem Chosen.of_inProgress {c : Consumer} {e : Envelope} {a : Ack} {course : Course}
    (h : Chosen c e (.ack a) course) (haction : a.action = .inProgress) :
    ∃ delivered, course = .moved c.queue e delivered := by
  cases h with
  | inProgress => exact ⟨_, rfl⟩
  | accept h' | reject h' | park h' | stop h' | fatal h' | exhausted h' | again h' | rung h'
  | fellBack h' => cases haction.symm.trans h'

/-- A copy of an envelope as the consumer makes them. -/
inductive Copied (e : Envelope) : Envelope → Prop
  | self : Copied e e
  | attempt (n : ℤ) : Copied e (e.withAttempt n)
  | error (reason : String) : Copied e (e.withError reason)

theorem Copied.alike {e copy : Envelope} (h : Copied e copy) : Envelope.Alike e copy := by
  cases h with
  | self => exact e.alike_self
  | attempt n => exact e.alike_withAttempt n
  | error reason => exact e.alike_withError reason

/-- Every message sent is the delivery under a copy of the envelope. -/
theorem Chosen.copied {c : Consumer} {d : Delivery} {e : Envelope} {decision : Decision}
    {course : Course} (h : Chosen c e decision course) :
    ∀ p ∈ course.publishes c.queue d, ∃ copy, p.message = hop d copy ∧ Copied e copy := by
  cases h with
  | accept | stop => simp [Course.publishes]
  | fellBack =>
      simp only [Course.publishes, List.forall_mem_cons]
      exact ⟨⟨_, rfl, .attempt _⟩, ⟨_, rfl, .attempt _⟩, by simp⟩
  | inProgress =>
      intro p hp
      obtain rfl := List.mem_singleton.mp hp
      exact ⟨e, rfl, .self⟩
  | again | rung =>
      intro p hp
      obtain rfl := List.mem_singleton.mp hp
      exact ⟨_, rfl, .attempt _⟩
  | reject | park | fatal | exhausted | other =>
      intro p hp
      obtain rfl := List.mem_singleton.mp hp
      exact ⟨_, rfl, .error _⟩

/-! ## One lemma for each function -/

variable {c : Consumer} {d : Delivery} {e : Envelope}

@[simp] theorem always_sleep {delay : Duration}
    {Q : List (Event (Broker Payload)) → Except Failure Unit → Prop} :
    (sleep delay).Always Answered Q ↔ Q [⟨.sleep delay, ()⟩] (.ok ()) :=
  ⟨fun h ↦ h () trivial, fun h _ _ ↦ h⟩

@[simp] theorem always_halt {Q : List (Event (Broker Payload)) → Except Failure Unit → Prop} :
    halt.Always Answered Q ↔ Q [⟨.halt, ()⟩] (.ok ()) :=
  ⟨fun h ↦ h () trivial, fun h _ _ ↦ h⟩

theorem always_now {Q : List (Event (Broker Payload)) → Except Failure Instant → Prop} :
    now.Always Answered Q ↔ ∀ r : Instant, Q [⟨.now, r⟩] (.ok r) :=
  ⟨fun h r ↦ h r trivial, fun h r _ ↦ h r⟩

theorem always_random {Q : List (Event (Broker Payload)) → Except Failure ℚ → Prop} :
    random.Always Answered Q ↔
      ∀ draw : ℚ, 0 ≤ draw → draw < 1 → Q [⟨.random, draw⟩] (.ok draw) :=
  ⟨fun h r h₀ h₁ ↦ h r ⟨h₀, h₁⟩, fun h r hr ↦ h r hr.1 hr.2⟩

theorem always_decode {body : Bytes} {contentType : Option String}
    {Q : List (Event (Broker Payload)) → Except Failure (Except Failure Payload) → Prop} :
    (decode body contentType).Always Answered Q ↔
      ∀ r : Except Failure Payload, (∀ f, r = .error f → f.isException = true) →
        Q [⟨.decode body contentType, r⟩] (.ok r) :=
  Iff.rfl

theorem always_invoke {context : ConsumeContext Payload}
    {Q : List (Event (Broker Payload)) → Except Failure (Envelope × Except Failure Decision) → Prop} :
    (invoke context).Always Answered Q ↔
      ∀ r : Envelope × Except Failure Decision, (∀ f, r.2 = .error f → f.isException = true) →
        Q [⟨.invoke context, r⟩] (.ok r) :=
  Iff.rfl

/-- A republish answers whether the copy is on a queue, or that the broker refused it. -/
theorem republish_spec {key : String}
    {Q : List (Event (Broker Payload)) → Except Failure Bool → Prop}
    (hdelivered : ∀ r : BrokerAnswer, r.delivered = true →
      Q [⟨.publish "" key (hop d e), r⟩] (.ok true))
    (hrefused : ∀ r : BrokerAnswer, r.delivered = false →
      Q [⟨.publish "" key (hop d e), r⟩] (.ok false) ∧
      ∀ f : Failure, f.kind = .hopRefused → Q [⟨.publish "" key (hop d e), r⟩] (.error f)) :
    (c.republish d key e).Always Answered Q := by
  unfold republish
  simp only [bind_eq, pure_eq, always_bind, always_rescue, always_call]
  intro r hr
  cases hraw : c.connection.publishRaw "" key (hop d e) r with
  | ok result =>
      simp only [onEnd_ok, always_ret, List.append_nil]
      cases hrouted : result.routed with
      | true =>
          apply hdelivered
          exact (publishRaw_routed_iff ..).mp ⟨result, hraw, hrouted⟩
      | false =>
          refine (hrefused r ?_).1
          by_contra hdel
          obtain ⟨result', hraw', hrouted'⟩ :=
            (publishRaw_routed_iff c.connection "" key (hop d e) r).mpr (eq_true_of_ne_false hdel)
          rw [hraw] at hraw'
          cases hraw'
          rw [hrouted] at hrouted'
          cases hrouted'
  | error f =>
      have hpublish : f.isPublishError = true := by
        rcases publishRaw_error hraw with hraised | ⟨hpublish, -⟩
        · exact hr f hraised
        · exact hpublish
      have hfailed : r.delivered = false := by
        by_contra hdel
        obtain ⟨result, hraw', -⟩ :=
          (publishRaw_routed_iff c.connection "" key (hop d e) r).mpr (eq_true_of_ne_false hdel)
        rw [hraw] at hraw'
        cases hraw'
      simp only [onEnd_error, hpublish, if_true, always_raise, List.append_nil]
      exact (hrefused r hfailed).2 _ rfl

theorem republished_spec {key : String}
    {Q : List (Event (Broker Payload)) → Except Failure Bool → Prop}
    (h : ∀ r : BrokerAnswer, Q [⟨.publish "" key (hop d e), r⟩] (.ok r.delivered)) :
    (c.republished d key e).Always Answered Q := by
  rw [republished, always_rescue]
  apply republish_spec
  · intro r hr
    simpa [hr] using h r
  · intro r hr
    have hfalse : Q [⟨.publish "" key (hop d e), r⟩] (.ok false) := by simpa [hr] using h r
    refine ⟨hfalse, fun f hf ↦ ?_⟩
    simpa [hf] using hfalse

/-- The run has taken the course and asked the handler nothing. -/
def Ends (c : Consumer) (d : Delivery) (course : Course)
    (t : List (Event (Broker Payload))) : Prop :=
  Takes c d course t ∧ decisions t = []

/-- What comes after the copies: the settlement their fate calls for. -/
theorem Ends.settled {course : Course} {pre t : List (Event (Broker Payload))}
    (hpre : publishes pre = course.publishes c.queue d ∧ settlements pre = [] ∧ decisions pre = [])
    (ht : publishes t = [] ∧ settlements t = [course.settle d] ∧ decisions t = []) :
    Ends c d course (pre ++ t) := by
  obtain ⟨hp, hs, hd⟩ := hpre
  obtain ⟨hp', hs', hd'⟩ := ht
  refine ⟨⟨?_, ?_⟩, ?_⟩
  · rw [publishes, List.filterMap_append, ← publishes, ← publishes, hp, hp', List.append_nil]
  · rw [settlements, List.filterMap_append, ← settlements, ← settlements, hs, hs', List.nil_append]
  · rw [decisions, List.filterMap_append, ← decisions, ← decisions, hd, hd', List.nil_append]

theorem ack_spec (course : Course) (pre : List (Event (Broker Payload)))
    (hpre : publishes pre = course.publishes c.queue d ∧ settlements pre = [] ∧ decisions pre = [])
    (hcourse : course.settle d = .ack d.tag) :
    (ack d : Step Payload Unit).Always Answered fun t _ ↦ Ends c d course (pre ++ t) := by
  rw [ack, always_call]
  intro r _
  apply Ends.settled hpre
  exact ⟨rfl, by rw [hcourse]; rfl, rfl⟩

theorem nack_spec (course : Course) (pre : List (Event (Broker Payload)))
    (hpre : publishes pre = course.publishes c.queue d ∧ settlements pre = [] ∧ decisions pre = [])
    (hcourse : course.settle d = .nack d.tag true) :
    (nack d true : Step Payload Unit).Always Answered fun t _ ↦ Ends c d course (pre ++ t) := by
  rw [nack, always_call]
  intro r _
  apply Ends.settled hpre
  exact ⟨rfl, by rw [hcourse]; rfl, rfl⟩

theorem setAside_spec (target reason : String) :
    (c.setAside d e target reason : Step Payload Unit).Always Answered fun t _ ↦
      ∃ delivered, Ends c d (.moved target (e.withError reason) delivered) t := by
  simp only [setAside, bind_eq, always_bind]
  apply republished_spec
  intro r
  rw [onEnd_ok]
  cases hr : r.delivered with
  | true =>
      have h := ack_spec (c := c) (.moved target (e.withError reason) true)
        ([⟨.publish "" target (hop d (e.withError reason)), r⟩] : List (Event (Broker Payload)))
        ?_ (show _ = Settle.ack d.tag from rfl)
      · exact h.mono fun t _ ht ↦ ⟨true, ht⟩
      · refine ⟨?_, rfl, rfl⟩
        simp [publishes, publish?, Course.publishes, hr]
  | false =>
      simp only [Bool.false_eq_true, if_false, always_bind, always_sleep, onEnd_ok]
      have h := nack_spec (c := c) (.moved target (e.withError reason) false)
        ([⟨.publish "" target (hop d (e.withError reason)), r⟩,
          ⟨.sleep setAsideRefusedDelay, ()⟩] : List (Event (Broker Payload)))
        ?_ (show _ = Settle.nack d.tag true from rfl)
      · refine h.mono fun t _ ht ↦ ⟨false, ?_⟩
        simpa using ht
      · refine ⟨?_, rfl, rfl⟩
        simp [publishes, publish?, Course.publishes, hr]

/-- Send a copy to the consumer's own queue, after the events `pre`, and settle
by whether it arrived. -/
theorem requeue_spec {copy : Envelope} (course : Bool → Course)
    (pre : List (Event (Broker Payload)))
    (hcourse : ∀ delivered, publishes pre ++ [⟨"", c.queue, hop d copy, delivered⟩] =
      (course delivered).publishes c.queue d)
    (hsettle : ∀ delivered, (course delivered).settle d =
      if delivered then .ack d.tag else .nack d.tag true)
    (hs : settlements pre = []) (hd : decisions pre = []) :
    ((c.republished d c.queue copy).bind fun delivered ↦
      if delivered then ack d else nack d true : Step Payload Unit).Always Answered fun t _ ↦
        ∃ delivered, Ends c d (course delivered) (pre ++ t) := by
  rw [always_bind]
  apply republished_spec
  intro r
  rw [onEnd_ok]
  have hpre : publishes (pre ++ [⟨.publish "" c.queue (hop d copy), r⟩]) =
      (course r.delivered).publishes c.queue d ∧
      settlements (pre ++ [⟨.publish "" c.queue (hop d copy), r⟩]) = [] ∧
      decisions (pre ++ [⟨.publish "" c.queue (hop d copy), r⟩]) = [] := by
    rw [← hcourse]
    simp only [publishes, settlements, decisions, List.filterMap_append] at hs hd ⊢
    simp [hs, hd, publish?, settle?, decision?]
  have hsettle := hsettle r.delivered
  cases hr : r.delivered with
  | true =>
      rw [hr] at hpre hsettle
      refine (ack_spec _ _ hpre hsettle).mono fun t _ ht ↦ ⟨true, ?_⟩
      simpa using ht
  | false =>
      rw [hr] at hpre hsettle
      refine (nack_spec _ _ hpre hsettle).mono fun t _ ht ↦ ⟨false, ?_⟩
      simpa using ht

theorem putBack_spec (delay : Duration) :
    (c.putBack d e delay : Step Payload Unit).Always Answered fun t _ ↦
      ∃ delivered, Ends c d (.moved c.queue e delivered) t := by
  unfold putBack
  split
  · have h := requeue_spec (c := c) (d := d) (.moved c.queue e)
      ([⟨.sleep delay, ()⟩] : List (Event (Broker Payload))) (fun _ ↦ rfl) (fun _ ↦ rfl) rfl rfl
    simpa [always_bind] using h
  · have h := requeue_spec (c := c) (d := d) (.moved c.queue e)
      ([] : List (Event (Broker Payload))) (fun _ ↦ rfl) (fun _ ↦ rfl) rfl rfl
    simpa using h

/-- Either the rung settled the delivery, or there is no such rung and nothing
is settled yet. -/
theorem retryInBroker_spec (delay : Duration) :
    (c.retryInBroker d e delay : Step Payload Bool).Always Answered fun t x ↦
      (x ≠ .ok false ∧ ∃ delivered, Ends c d (.moved (retryQueue c.queue delay)
        (e.withAttempt (e.attempt + 1)) delivered) t) ∨
      (x = .ok false ∧ settlements t = [] ∧ decisions t = [] ∧ publishes t =
        [⟨"", retryQueue c.queue delay, hop d (e.withAttempt (e.attempt + 1)), false⟩]) := by
  set rung := retryQueue c.queue delay with hrung
  set copy := e.withAttempt (e.attempt + 1) with hcopy
  have hpre : ∀ r : BrokerAnswer,
      publishes ([⟨.publish "" rung (hop d copy), r⟩] : List (Event (Broker Payload))) =
        (Course.moved rung copy r.delivered).publishes c.queue d ∧
      settlements ([⟨.publish "" rung (hop d copy), r⟩] : List (Event (Broker Payload))) = [] ∧
      decisions ([⟨.publish "" rung (hop d copy), r⟩] : List (Event (Broker Payload))) = [] :=
    fun r ↦ ⟨rfl, rfl, rfl⟩
  simp only [retryInBroker, bind_eq, pure_eq, always_bind, always_rescue, ← hrung, ← hcopy]
  apply republish_spec
  · intro r hr
    have h := ack_spec (.moved rung copy true) _ (hr ▸ hpre r) rfl
    simp only [onEnd_ok, always_ret, always_bind, List.append_nil]
    refine h.mono fun t x ht ↦ ?_
    cases x with
    | ok u =>
        left
        exact ⟨by simp, true, by simpa using ht⟩
    | error f =>
        left
        exact ⟨by simp, true, by simpa using ht⟩
  · intro r hr
    refine ⟨?_, fun f hf ↦ ?_⟩
    · simp only [onEnd_ok, always_ret, List.append_nil]
      right
      refine ⟨trivial, rfl, rfl, ?_⟩
      rw [(hpre r).1, hr]
      rfl
    · have h := nack_spec (.moved rung copy false) _ (hr ▸ hpre r) rfl
      simp only [onEnd_error, hf, if_true, always_ret, onEnd_ok, always_bind, List.append_nil]
      refine h.mono fun t x ht ↦ ?_
      cases x with
      | ok u =>
          left
          exact ⟨by simp, false, by simpa using ht⟩
      | error f =>
          left
          exact ⟨by simp, false, by simpa using ht⟩

theorem Ends.after {course : Course} {pre t : List (Event (Broker Payload))} (hpre : Quiet pre)
    (h : Ends c d course t) : Ends c d course (pre ++ t) := by
  obtain ⟨hp, hs, hd⟩ := hpre
  obtain ⟨⟨hp', hs'⟩, hd'⟩ := h
  simp only [Ends, Takes, publishes, settlements, decisions, List.filterMap_append] at *
  simp [hp, hs, hd, hp', hs', hd']

/-- A granted retry goes to the rung or to the consumer's own queue. -/
theorem carryOut_retried_spec {a : Ack} {age : Duration} {draw : ℚ} {w : Wait}
    (haction : a.action = .retry) (hstop : a.error.any Failure.isStopReading = false)
    (hfatal : a.error.any Failure.isFatal = false)
    (hw : c.retry.nextWait e.attempt age draw = .ok (some w)) :
    (c.carryOut d e ⟨.retried, none, some w.delay⟩ (some w) : Step Payload Unit).Always Answered
      fun t _ ↦ ∃ course, Chosen c e (.ack a) course ∧ Ends c d course t := by
  have htail : ∀ (course : Bool → Course) (pre : List (Event (Broker Payload))),
      (∀ delivered, Chosen c e (.ack a) (course delivered)) →
      (∀ delivered, publishes pre ++
        [⟨"", c.queue, hop d (e.withAttempt (e.attempt + 1)), delivered⟩] =
          (course delivered).publishes c.queue d) →
      (∀ delivered, (course delivered).settle d =
        if delivered then .ack d.tag else .nack d.tag true) →
      settlements pre = [] → decisions pre = [] →
      ((do
        if 0 < w.delay then sleep w.delay
        c.retryAgain d e) : Step Payload Unit).Always Answered
          fun t _ ↦ ∃ course, Chosen c e (.ack a) course ∧ Ends c d course (pre ++ t) := by
    intro course pre hchosen hcourse hsettle hs hd
    split
    · simp only [bind_eq, always_bind, always_sleep, onEnd_ok]
      have hs' : settlements (pre ++ [⟨.sleep w.delay, ()⟩]) = [] := by
        simpa [settlements, settle?] using hs
      have hd' : decisions (pre ++ [⟨.sleep w.delay, ()⟩]) = [] := by
        simpa [decisions, decision?] using hd
      have hcourse' : ∀ delivered, publishes (pre ++ [⟨.sleep w.delay, ()⟩]) ++
          [⟨"", c.queue, hop d (e.withAttempt (e.attempt + 1)), delivered⟩] =
            (course delivered).publishes c.queue d := by
        intro delivered
        rw [← hcourse delivered]
        simp [publishes, publish?]
      refine (requeue_spec course _ hcourse' hsettle hs' hd').mono ?_
      rintro t - ⟨delivered, ht⟩
      exact ⟨course delivered, hchosen delivered, by simpa using ht⟩
    · refine (requeue_spec course _ hcourse hsettle hs hd).mono ?_
      rintro t - ⟨delivered, ht⟩
      exact ⟨course delivered, hchosen delivered, ht⟩
  cases hbroker : w.inBroker with
  | false =>
      have h := htail (.moved c.queue (e.withAttempt (e.attempt + 1))) []
        (fun _ ↦ .again haction hstop hfatal hbroker hw) (fun _ ↦ rfl) (fun _ ↦ rfl) rfl rfl
      simpa [carryOut, hbroker] using h
  | true =>
      simp only [carryOut, hbroker, if_true, bind_eq, always_bind]
      refine (retryInBroker_spec w.delay).mono ?_
      rintro t x (⟨hx, delivered, ht⟩ | ⟨rfl, hs, hd, hp⟩)
      · have hchosen : Chosen c e (.ack a) (.moved (retryQueue c.queue w.delay)
            (e.withAttempt (e.attempt + 1)) delivered) := .rung haction hstop hfatal hbroker hw
        cases x with
        | error f => exact ⟨_, hchosen, ht⟩
        | ok dealtWith =>
            obtain rfl : dealtWith = true := by simpa using hx
            simpa using ⟨_, hchosen, ht⟩
      · have h := htail (.fellBack (retryQueue c.queue w.delay) (e.withAttempt (e.attempt + 1))) t
          (fun _ ↦ .fellBack haction hstop hfatal hbroker hw)
          (fun _ ↦ by rw [hp]; rfl) (fun _ ↦ rfl) hs hd
        simpa using h

/-- The policy ran out of range: an exception, and nothing published. -/
def Overflowed (c : Consumer) (t : List (Event (Broker Payload))) : Prop :=
  publishes t = [] ∧ ¬c.retry.InRange

/-- From a decision to the end of the delivery. -/
theorem decided_spec (a : Ack) :
    ((c.decide e a).bind fun (settlement, wait) ↦ c.carryOut d e settlement wait :
      Step Payload Unit).Always Answered
        fun t _ ↦ (∃ course, Chosen c e (.ack a) course ∧ Ends c d course t) ∨
          Overflowed c t ∧ decisions t = [] ∧ a.action = .retry := by
  have haside : ∀ {target reason : String}
      (_ : ∀ delivered, Chosen c e (.ack a) (.moved target (e.withError reason) delivered)),
      (c.setAside d e target reason : Step Payload Unit).Always Answered
        fun t _ ↦ ∃ course, Chosen c e (.ack a) course ∧ Ends c d course t := by
    intro target reason hchosen
    refine (setAside_spec target reason).mono ?_
    rintro t - ⟨delivered, ht⟩
    exact ⟨_, hchosen delivered, ht⟩
  unfold decide
  cases haction : a.action with
  | accept =>
      have h := ack_spec (c := c) (d := d) .accepted
        ([] : List (Event (Broker Payload))) ⟨rfl, rfl, rfl⟩ rfl
      exact h.mono fun t _ ht ↦ .inl ⟨_, .accept haction, by simpa using ht⟩
  | reject => exact (haside fun _ ↦ .reject haction).mono fun t _ ↦ .inl
  | park => exact (haside fun _ ↦ .park haction).mono fun t _ ↦ .inl
  | inProgress =>
      refine (putBack_spec (a.delay.getD 0)).mono ?_
      rintro t - ⟨delivered, ht⟩
      exact .inl ⟨_, .inProgress haction, ht⟩
  | retry =>
      dsimp only
      split
      · rename_i hstop
        simp only [pure_eq, ret_bind, carryOut, bind_eq, always_bind, always_halt, onEnd_ok]
        have h := nack_spec (c := c) (d := d) .returned
          ([⟨.halt, ()⟩] : List (Event (Broker Payload))) ⟨rfl, rfl, rfl⟩ rfl
        exact h.mono fun t _ ht ↦ .inl ⟨_, .stop haction hstop, ht⟩
      · rename_i hstop
        have hstop := eq_false_of_ne_true hstop
        split
        · rename_i hfatal
          exact (haside fun _ ↦ .fatal haction hstop hfatal).mono fun t _ ↦ .inl
        · rename_i hfatal
          have hfatal := eq_false_of_ne_true hfatal
          simp only [bind_eq, bind_assoc]
          rw [always_bind, always_now]
          intro arrived
          rw [onEnd_ok, always_bind, always_random]
          intro draw hnonneg hlt
          rw [onEnd_ok]
          have hquiet : Quiet ([⟨.now, arrived⟩, ⟨.random, draw⟩] :
            List (Event (Broker Payload))) := ⟨rfl, rfl, rfl⟩
          cases hw : c.retry.nextWait e.attempt (arrived - e.firstSeen) draw with
          | error overflow =>
              refine .inr ⟨⟨rfl, fun hpolicy ↦ ?_⟩, rfl, trivial⟩
              obtain ⟨w, hinRange⟩ := hpolicy e.attempt (arrived - e.firstSeen) draw hnonneg hlt
              rw [hw] at hinRange
              cases hinRange
          | ok w =>
              cases w with
              | none =>
                  refine (haside fun _ ↦ .exhausted haction hstop hfatal hw).mono ?_
                  rintro t - ⟨course, hchosen, ht⟩
                  exact .inl ⟨course, hchosen, ht.after hquiet⟩
              | some w =>
                  refine (carryOut_retried_spec haction hstop hfatal hw).mono ?_
                  rintro t - ⟨course, hchosen, ht⟩
                  exact .inl ⟨course, hchosen, ht.after hquiet⟩

/-- The course of a run, and the decision it was taken on: a halted consumer
returns the delivery, a body that cannot be decoded is parked, and otherwise
the decision takes its course. -/
def Taken (c : Consumer) (d : Delivery) (e : Envelope) (t : List (Event (Broker Payload))) : Prop :=
  ∃ course, Takes c d course t ∧
    ((decisions t = [] ∧ (course = .returned ∨ ∃ reason delivered,
        course = .moved (parkedQueue c.queue) (e.withError reason) delivered)) ∨
      ∃ e' decision, decisions t = [(e', decision)] ∧ Chosen c e' decision course)

/-- Everything a delivery can lead to. -/
theorem handleOne_courses :
    (c.handleOne d e : Step Payload Unit).Always Answered fun t _ ↦ Taken c d e t ∨ Overflowed c t := by
  unfold handleOne
  split
  · have h := nack_spec (c := c) (d := d) .returned
      ([] : List (Event (Broker Payload))) ⟨rfl, rfl, rfl⟩ rfl
    exact h.mono fun t _ ht ↦ .inl ⟨_, ht.1, .inl ⟨ht.2, .inl rfl⟩⟩
  · rw [bind_eq, always_bind, always_decode]
    intro decoded hdecoded
    rw [onEnd_ok]
    have hquiet : Quiet ([⟨.decode d.body d.contentType, decoded⟩] :
      List (Event (Broker Payload))) := ⟨rfl, rfl, rfl⟩
    cases decoded with
    | error failure =>
        dsimp only
        rw [if_pos (hdecoded failure rfl)]
        refine (setAside_spec _ _).mono ?_
        rintro t - ⟨delivered, ht⟩
        have hends := ht.after hquiet
        exact .inl ⟨_, hends.1, .inl ⟨hends.2, .inr ⟨_, delivered, rfl⟩⟩⟩
    | ok payload =>
        dsimp only
        rw [bind_eq, always_bind, always_invoke]
        rintro ⟨e', answer⟩ hanswer
        rw [onEnd_ok]
        cases answer with
        | ok decision =>
            cases decision with
            | ack a =>
                refine (decided_spec a).mono ?_
                rintro t - (⟨course, hchosen, ⟨hp, hs⟩, hd⟩ | ⟨⟨hp, hpolicy⟩, -⟩)
                · refine .inl ⟨course, ⟨hp, hs⟩, .inr ⟨e', .ack a, ?_, hchosen⟩⟩
                  exact congrArg (_ :: ·) hd
                · exact .inr ⟨hp, hpolicy⟩
            | other typeName =>
                refine (setAside_spec _ _).mono ?_
                rintro t - ⟨delivered, ⟨hp, hs⟩, hd⟩
                refine .inl ⟨_, ⟨hp, hs⟩, .inr ⟨e', .other typeName, ?_, .other⟩⟩
                exact congrArg (_ :: ·) hd
        | error failure =>
            dsimp only
            rw [if_pos (hanswer failure rfl)]
            refine (decided_spec (.retry (some failure))).mono ?_
            rintro t - (⟨course, hchosen, ⟨hp, hs⟩, hd⟩ | ⟨⟨hp, hpolicy⟩, -⟩)
            · refine .inl ⟨course, ⟨hp, hs⟩, .inr ⟨e', .ack (.retry (some failure)), ?_, hchosen⟩⟩
              exact congrArg (_ :: ·) hd
            · exact .inr ⟨hp, hpolicy⟩

theorem handleOne_takes (hpolicy : c.retry.InRange) :
    (c.handleOne d e : Step Payload Unit).Always Answered fun t _ ↦ Taken c d e t :=
  handleOne_courses.mono fun _ _ ht ↦ ht.resolve_right fun h ↦ h.2 hpolicy

/-- Every message sent is the delivery under a copy of its envelope, or of the
one the interceptors left. -/
theorem handleOne_copied : (c.handleOne d e : Step Payload Unit).Always Answered fun t _ ↦
    ∀ p ∈ publishes t, ∃ e' copy, p.message = hop d copy ∧ Copied e' copy ∧
      (e' = e ∨ ∃ decision, (e', decision) ∈ decisions t) := by
  refine handleOne_courses.mono fun _ _ ht p hmem ↦ ?_
  rcases ht with ⟨course, ⟨hp, -⟩, ⟨-, rfl | ⟨reason, delivered, rfl⟩⟩ | ⟨e', decision, hd, hchosen⟩⟩ |
    ⟨hp, -⟩
  · rw [hp] at hmem
    exact absurd hmem List.not_mem_nil
  · rw [hp] at hmem
    obtain rfl := List.mem_singleton.mp hmem
    exact ⟨e, _, rfl, .error reason, .inl rfl⟩
  · rw [hp] at hmem
    obtain ⟨copy, hmessage, hcopied⟩ := hchosen.copied p hmem
    exact ⟨e', copy, hmessage, hcopied, .inr ⟨decision, hd ▸ List.mem_singleton_self _⟩⟩
  · rw [hp] at hmem
    exact absurd hmem List.not_mem_nil

theorem handleOne_copies : (c.handleOne d e : Step Payload Unit).Always Answered fun t _ ↦
    ∀ p ∈ publishes t, ∃ e' copy, p.message = hop d copy ∧ Envelope.Alike e' copy ∧
      (e' = e ∨ ∃ decision, (e', decision) ∈ decisions t) := by
  refine handleOne_copied.mono fun _ _ h p hp ↦ ?_
  obtain ⟨e', copy, hmessage, hcopied, hfrom⟩ := h p hp
  exact ⟨e', copy, hmessage, hcopied.alike, hfrom⟩

end Consumer

end AcemqAmqp
