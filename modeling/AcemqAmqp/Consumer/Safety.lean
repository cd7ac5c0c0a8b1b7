import AcemqAmqp.Consumer.Course

/-!
# No message is lost by the consumer

A delivery is settled once.  It is acknowledged when the handler accepted it or
when one copy of it is on a queue, and returned to the broker otherwise; and
there is never a second copy.
-/

namespace AcemqAmqp

namespace Consumer

open Interaction Program

variable {Payload : Type}

/-- The copies that reached a queue. -/
def copies (t : List (Event (Broker Payload))) : List Publish :=
  (publishes t).filter (·.delivered)

/-- The handler answered, or an interceptor for it, that the message is done with. -/
def AcceptedIn (t : List (Event (Broker Payload))) : Prop :=
  ∃ e a, (e, Decision.ack a) ∈ decisions t ∧ a.action = .accept

/-- The consumer's own queue, one of its rungs, its dead letters and its parking lot. -/
def Destination (c : Consumer) (key : String) : Prop :=
  key = c.queue ∨ (∃ delay, c.retry.waitsInBroker delay = true ∧ key = retryQueue c.queue delay) ∨
    key = deadLetterQueue c.queue ∨ key = parkedQueue c.queue

variable {c : Consumer} {d : Delivery} {e : Envelope} {course : Course} {decision : Decision}

theorem Chosen.destination (h : Chosen c e decision course) :
    ∀ p ∈ course.publishes c.queue d, c.Destination p.key := by
  have hrung : ∀ {age : Duration} {draw : ℚ} {w : Wait}, w.inBroker = true →
      c.retry.nextWait e.attempt age draw = .ok (some w) →
      c.Destination (retryQueue c.queue w.delay) := fun hbroker hw ↦
    .inr (.inl ⟨_, (RetryPolicy.nextWait_some hw).2 hbroker, rfl⟩)
  cases h with
  | accept | stop => simp [Course.publishes]
  | reject | fatal | exhausted | other =>
      intro p hp
      obtain rfl := List.mem_singleton.mp hp
      exact .inr (.inr (.inl rfl))
  | park =>
      intro p hp
      obtain rfl := List.mem_singleton.mp hp
      exact .inr (.inr (.inr rfl))
  | inProgress | again =>
      intro p hp
      obtain rfl := List.mem_singleton.mp hp
      exact .inl rfl
  | rung _ _ _ hbroker hw =>
      intro p hp
      obtain rfl := List.mem_singleton.mp hp
      exact hrung hbroker hw
  | fellBack _ _ _ hbroker hw =>
      intro p hp
      rcases List.mem_cons.mp hp with rfl | hp
      · exact hrung hbroker hw
      · obtain rfl := List.mem_singleton.mp hp
        exact .inl rfl

theorem Course.publishes_body : ∀ p ∈ course.publishes c.queue d,
    p.exchange = "" ∧ p.message.body = d.body := by
  cases course <;> simp [Course.publishes, hop]

/-- A course that is not an acceptance acknowledges exactly when a copy arrived. -/
theorem Course.settle_eq_ack (h : course ≠ .accepted) :
    course.settle d = .ack d.tag ↔
      ∃ p, (course.publishes c.queue d).filter (·.delivered) = [p] := by
  cases course with
  | accepted => exact absurd rfl h
  | returned => simp [Course.settle, Course.publishes]
  | moved key copy delivered => cases delivered <;> simp [Course.settle, Course.publishes]
  | fellBack rung copy delivered => cases delivered <;> simp [Course.settle, Course.publishes]

theorem Course.settle_cases (course : Course) :
    course.settle d = .ack d.tag ∨ course.settle d = .nack d.tag true := by
  cases course with
  | accepted => exact .inl rfl
  | returned => exact .inr rfl
  | moved key copy delivered => cases delivered <;> simp [Course.settle]
  | fellBack rung copy delivered => cases delivered <;> simp [Course.settle]

theorem Course.length_copies_le (course : Course) :
    ((course.publishes c.queue d).filter (·.delivered)).length ≤ 1 := by
  cases course with
  | accepted | returned => simp [Course.publishes]
  | moved key copy delivered => cases delivered <;> simp [Course.publishes]
  | fellBack rung copy delivered => cases delivered <;> simp [Course.publishes]

theorem Chosen.eq_accepted_iff (h : Chosen c e decision course) :
    course = .accepted ↔ ∃ a, decision = .ack a ∧ a.action = .accept := by
  cases h with
  | accept haction => exact ⟨fun _ ↦ ⟨_, rfl, haction⟩, fun _ ↦ rfl⟩
  | other => simp
  | reject haction | park haction | inProgress haction | stop haction | fatal haction
    | exhausted haction | again haction | rung haction | fellBack haction => simp [haction]

/-- Every run of the consumer settles the delivery once.  It acknowledges it if
and only if the handler accepted or one copy was confirmed and routed, and
otherwise returns it; every copy has the original bytes and goes to one of the
consumer's own queues; and there are never two. -/
theorem handleOne_loses_nothing (c : Consumer) (hpolicy : c.retry.InRange) (d : Delivery)
    (e : Envelope) (t : List (Event (Broker Payload))) (x : Except Failure Unit)
    (hrun : Runs Answered (c.handleOne d e) t x) :
    (settlements t = [.ack d.tag] ∨ settlements t = [.nack d.tag true]) ∧
      (settlements t = [.ack d.tag] ↔ AcceptedIn t ∨ ∃ p, copies t = [p]) ∧
      (copies t).length ≤ 1 ∧
      ∀ p ∈ publishes t, p.exchange = "" ∧ c.Destination p.key ∧ p.message.body = d.body := by
  obtain ⟨course, ⟨hpublishes, hsettlements⟩, hcourse⟩ :=
    always_iff_runs.mp (handleOne_takes (c := c) (d := d) (e := e) hpolicy) t x hrun
  have hdestination : ∀ p ∈ course.publishes c.queue d, c.Destination p.key := by
    rcases hcourse with ⟨-, rfl | ⟨reason, delivered, rfl⟩⟩ | ⟨e', decision, -, hchosen⟩
    · simp [Course.publishes]
    · intro p hp
      obtain rfl := List.mem_singleton.mp hp
      exact .inr (.inr (.inr rfl))
    · exact hchosen.destination
  have haccepted : course = .accepted ↔ AcceptedIn t := by
    rcases hcourse with ⟨hnone, rfl | ⟨reason, delivered, rfl⟩⟩ | ⟨e', decision, hd, hchosen⟩
    · simp [AcceptedIn, hnone]
    · simp [AcceptedIn, hnone]
    · rw [hchosen.eq_accepted_iff]
      simp [AcceptedIn, hd, eq_comm]
  refine ⟨?_, ?_, ?_, fun p hp ↦ ?_⟩
  · rw [hsettlements]
    rcases course.settle_cases (d := d) with h | h <;> simp [h]
  · rw [hsettlements, copies, hpublishes, ← haccepted, List.cons.injEq, and_iff_left rfl]
    by_cases hcourse : course = .accepted
    · simp [hcourse, Course.settle]
    · rw [Course.settle_eq_ack (c := c) hcourse]
      simp [hcourse]
  · rw [copies, hpublishes]
    exact course.length_copies_le
  · rw [hpublishes] at hp
    obtain ⟨hexchange, hbody⟩ := Course.publishes_body p hp
    exact ⟨hexchange, hdestination p hp, hbody⟩

/-- A handler rejects a message of the queue `orders`, and the broker takes the copy. -/
theorem handleOne_loses_nothing_rejected :
    let c : Consumer := ⟨⟨5000000, 1000⟩, "orders", fixedRetry 3 0, false⟩
    let d : Delivery := ⟨7, [104, 105], none, "orders", "m1", ∅, false, ""⟩
    let e := Envelope.new "m1" "orders" 0
    let failed := e.withError "the handler rejected it: no reason given"
    let t : List (Event (Broker Unit)) :=
      [⟨.decode d.body none, .ok ()⟩,
        ⟨.invoke ⟨"orders", e, (), d.body, none, "orders", false, ""⟩, (e, .ok (.ack (.reject none)))⟩,
        ⟨.publish "" "orders.dlq" (hop d failed), .answered ⟨"m1", true, true, ""⟩⟩,
        ⟨.ack 7, .ok ()⟩]
    (settlements t = [.ack 7] ∨ settlements t = [.nack 7 true]) ∧
      (settlements t = [.ack 7] ↔ AcceptedIn t ∨ ∃ p, copies t = [p]) ∧
      (copies t).length ≤ 1 ∧
      ∀ p ∈ publishes t, p.exchange = "" ∧ c.Destination p.key ∧ p.message.body = d.body := by
  intro c d e failed t
  refine handleOne_loses_nothing c (RetryPolicy.fixedRetry_inRange (by decide)) d e t (.ok ()) ?_
  refine .ask (fun f hf ↦ by cases hf) (.ask (fun f hf ↦ by cases hf) ?_)
  exact .ask (fun f hf ↦ by cases hf) (.ask trivial (.ret ()))

end Consumer

end AcemqAmqp
