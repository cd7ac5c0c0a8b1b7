import AcemqAmqp.Consumer.Course

/-!
# Attempts over the life of a message

The count of attempts lives in a header only: a copy carries it, the broker
brings the copy back, and the next delivery reads it.  A life is a sequence of
such turns.  The count is one more than the retries so far, whatever else the
handler answered in between, and the message is dead-lettered at the retry that
is asked for on the last attempt.
-/

namespace AcemqAmqp

namespace Consumer

open Interaction Program

variable {Payload : Type}

/-- A retry the policy is asked about: not one that stops a reader, and not a fatal error. -/
def AsksRetry : Decision → Prop
  | .ack a => a.action = .retry ∧ a.error.any Failure.isStopReading = false ∧
      a.error.any Failure.isFatal = false
  | .other _ => False

instance : DecidablePred AsksRetry
  | .ack a => inferInstanceAs (Decidable (a.action = .retry ∧
      a.error.any Failure.isStopReading = false ∧ a.error.any Failure.isFatal = false))
  | .other _ => inferInstanceAs (Decidable False)

def AsksToWait : Decision → Prop
  | .ack a => a.action = .inProgress
  | .other _ => False

/-- Answers that may put a message among the dead letters on any attempt. -/
def GivesUp : Decision → Prop
  | .ack a => a.action = .reject ∨ a.action = .retry ∧ a.error.any Failure.isFatal = true
  | .other _ => True

/-! ## Lives -/

/-- One delivery of the message, as it was read and handled. -/
structure Turn (Payload : Type) where
  delivery : Delivery
  envelope : Envelope
  events : List (Event (Broker Payload))

/-- The turn is one the consumer can have: the envelope is read off the
delivery, and no interceptor rewrites it.  The consumer may have been halted in
the meantime. -/
structure Turn.Possible (c : Consumer) (turn : Turn Payload) : Prop where
  read : ∃ fresh now, Envelope.fromHeaders fresh now turn.delivery.headers
    turn.delivery.routingKey turn.delivery.messageId = some turn.envelope
  run : ∃ halted x, Runs Answered
    ({ c with halted := halted }.handleOne turn.delivery turn.envelope) turn.events x
  kept : ∀ p ∈ decisions turn.events, p.1 = turn.envelope

/-- Every republish of the turn is confirmed and routed. -/
structure Turn.Valid (c : Consumer) (turn : Turn Payload) : Prop extends turn.Possible c where
  delivered : ∀ p ∈ publishes turn.events, p.delivered = true

def Turn.Retried (turn : Turn Payload) : Prop := ∃ p ∈ decisions turn.events, AsksRetry p.2

instance : DecidablePred (@Turn.Retried Payload) := fun turn ↦
  inferInstanceAs (Decidable (∃ p ∈ decisions turn.events, AsksRetry p.2))

/-- The broker brings a message back: it may add headers, and change none of the library's. -/
def Carries (body : Bytes) (headers : Dict String Value) (d : Delivery) : Prop :=
  d.body = body ∧ ∀ name, Headers.isReserved name = true → d.headers.get? name = headers.get? name

/-- The queues whose messages come back to the consumer. -/
def Circulates (c : Consumer) (key : String) : Prop :=
  key = c.queue ∨ ∃ delay, key = retryQueue c.queue delay

/-- What the consumer is handed after the turn: a copy that circulates, or the
delivery itself when it was returned. -/
inductive Next (c : Consumer) (turn : Turn Payload) (d : Delivery) : Prop
  | copied (p : Publish) : p ∈ publishes turn.events → Circulates c p.key →
      Carries p.message.body p.message.headers d → Next c turn d
  | returned : .nack turn.delivery.tag true ∈ settlements turn.events →
      Carries turn.delivery.body turn.delivery.headers d → Next c turn d

inductive Life (c : Consumer) (first : Delivery) : List (Turn Payload) → Delivery → Prop
  | start : Life c first [] first
  | turn {turns : List (Turn Payload)} {turn : Turn Payload} {d : Delivery} :
      Life c first turns turn.delivery → turn.Valid c → Next c turn d →
      Life c first (turns ++ [turn]) d

def retries (turns : List (Turn Payload)) : ℕ := turns.countP fun turn ↦ turn.Retried

/-! ## Names -/

theorem deadLetterQueue_not_circulates (c : Consumer) :
    ¬Circulates c (deadLetterQueue c.queue) := by
  rintro (h | ⟨delay, h⟩)
  · exact deadLetterQueue_ne_self h
  · exact retryQueue_ne_deadLetterQueue h.symm

theorem parkedQueue_not_circulates (c : Consumer) : ¬Circulates c (parkedQueue c.queue) := by
  rintro (h | ⟨delay, h⟩)
  · exact parkedQueue_ne_self h
  · exact retryQueue_ne_parkedQueue h.symm

/-! ## One turn -/

variable {c : Consumer} {turn : Turn Payload} {d : Delivery} {e : Envelope}

theorem Chosen.of_halted {halted : Bool} {decision : Decision} {course : Course}
    (h : Chosen { c with halted := halted } e decision course) : Chosen c e decision course := by
  cases h with
  | accept haction => exact .accept haction
  | reject haction => exact .reject haction
  | park haction => exact .park haction
  | inProgress haction => exact .inProgress haction
  | stop haction hstop => exact .stop haction hstop
  | fatal haction hstop hfatal => exact .fatal haction hstop hfatal
  | exhausted haction hstop hfatal hw => exact .exhausted haction hstop hfatal hw
  | again haction hstop hfatal hbroker hw => exact .again haction hstop hfatal hbroker hw
  | rung haction hstop hfatal hbroker hw => exact .rung haction hstop hfatal hbroker hw
  | fellBack haction hstop hfatal hbroker hw => exact .fellBack haction hstop hfatal hbroker hw
  | other => exact .other

/-- The course of a valid turn, with every copy delivered. -/
theorem Turn.Valid.course (hturn : turn.Valid c) (hpolicy : c.retry.InRange) :
    ∃ course : Course, publishes turn.events = course.publishes c.queue turn.delivery ∧
      settlements turn.events = [course.settle turn.delivery] ∧
      ((decisions turn.events = [] ∧ (course = .returned ∨ ∃ reason delivered,
          course = .moved (parkedQueue c.queue) (turn.envelope.withError reason) delivered)) ∨
        ∃ decision, decisions turn.events = [(turn.envelope, decision)] ∧
          Chosen c turn.envelope decision course) := by
  obtain ⟨halted, x, hrun⟩ := hturn.run
  have htakes := always_iff_runs.mp (@handleOne_takes Payload { c with halted := halted }
    turn.delivery turn.envelope hpolicy)
  obtain ⟨course, ⟨hp, hs⟩, hcourse⟩ := htakes _ _ hrun
  refine ⟨course, hp, hs, ?_⟩
  rcases hcourse with hnone | ⟨e', decision, hd, hchosen⟩
  · exact .inl hnone
  · have he : e' = turn.envelope := hturn.kept (e', decision) (by simp [hd])
    subst he
    exact .inr ⟨decision, hd, hchosen.of_halted⟩

/-- The attempt a published copy carries. -/
def Publish.attempt (p : Publish) : Option Value := p.message.headers.get? Headers.attempt

/-- The turn put exactly one copy on a queue, under the given attempt, and acknowledged. -/
def Turn.Sent (turn : Turn Payload) (where_ : String → Prop) (attempt : ℤ) : Prop :=
  ∃ p, publishes turn.events = [p] ∧ where_ p.key ∧ p.attempt = some (.int attempt) ∧
    settlements turn.events = [.ack turn.delivery.tag]

theorem Turn.Sent.of_moved (where_ : String → Prop) {key : String} {copy : Envelope}
    {delivered : Bool} (hturn : turn.Valid c)
    (hp : publishes turn.events =
      (Course.moved key copy delivered).publishes c.queue turn.delivery)
    (hs : settlements turn.events = [(Course.moved key copy delivered).settle turn.delivery])
    (hkey : where_ key) : turn.Sent where_ copy.attempt := by
  have hdelivered : delivered = true := by
    have h := hturn.delivered
    rw [hp] at h
    exact h _ (List.mem_singleton_self _)
  subst hdelivered
  exact ⟨_, hp, hkey, Envelope.get?_toHeaders_attempt copy _, hs⟩

/-- A turn never falls back to its own queue when every republish arrives. -/
theorem Turn.Valid.not_fellBack (hturn : turn.Valid c) {rung : String} {copy : Envelope}
    {delivered : Bool} : publishes turn.events ≠
      (Course.fellBack rung copy delivered).publishes c.queue turn.delivery := by
  intro hp
  have h := hturn.delivered
  rw [hp] at h
  exact Bool.noConfusion (h _ (List.mem_cons_self ..))

/-- A turn that sends a copy sends one, and acknowledges. -/
theorem Turn.Valid.single (hturn : turn.Valid c) (hpolicy : c.retry.InRange) {p : Publish}
    (hmem : p ∈ publishes turn.events) :
    publishes turn.events = [p] ∧ settlements turn.events = [.ack turn.delivery.tag] := by
  obtain ⟨course, hp, hs, -⟩ := hturn.course hpolicy
  cases course with
  | accepted | returned =>
      rw [hp] at hmem
      exact absurd hmem List.not_mem_nil
  | moved key copy delivered =>
      obtain ⟨p', hp', -, -, hs'⟩ :=
        Turn.Sent.of_moved (fun _ ↦ True) hturn hp hs trivial
      rw [hp'] at hmem
      obtain rfl := List.mem_singleton.mp hmem
      exact ⟨hp', hs'⟩
  | fellBack rung copy delivered => exact absurd hp hturn.not_fellBack

/-- A retry is granted below the last attempt and refused on it. -/
theorem Turn.Valid.retry (hturn : turn.Valid c) (hpolicy : c.retry.InRange)
    (hage : c.retry.maxMessageAge ≤ 0) (hretried : turn.Retried) :
    (turn.envelope.attempt < c.retry.maxAttempts →
      turn.Sent (Circulates c) (turn.envelope.attempt + 1)) ∧
    (c.retry.maxAttempts ≤ turn.envelope.attempt →
      turn.Sent (· = deadLetterQueue c.queue) turn.envelope.attempt) := by
  obtain ⟨⟨e', decision⟩, hmem, hasks⟩ := hretried
  obtain ⟨course, hp, hs, ⟨hnone, -⟩ | ⟨decision', hd, hchosen⟩⟩ := hturn.course hpolicy
  · simp [hnone] at hmem
  obtain rfl : decision = decision' := by
    rw [hd] at hmem
    exact (Prod.mk.inj (List.mem_singleton.mp hmem)).2
  have hone := turn.envelope.one_le_attempt
  have hnext : (turn.envelope.withAttempt (turn.envelope.attempt + 1)).attempt =
      turn.envelope.attempt + 1 := Envelope.withAttempt_attempt (by omega) _
  cases hchosen with
  | accept h | reject h | park h | inProgress h => simp [AsksRetry, h] at hasks
  | stop h hstop => simp [AsksRetry, hstop] at hasks
  | fatal h _ hfatal => simp [AsksRetry, hfatal] at hasks
  | other => exact hasks.elim
  | exhausted _ _ _ hw =>
      have hlast := (RetryPolicy.nextWait_eq_none_iff hage).mp hw
      refine ⟨fun h ↦ absurd hlast (not_le.mpr h), fun _ ↦ ?_⟩
      have hsent := Turn.Sent.of_moved (· = deadLetterQueue c.queue) hturn hp hs rfl
      rwa [Envelope.withError_attempt] at hsent
  | again _ _ _ _ hw =>
      have hleft := (RetryPolicy.nextWait_some hw).1
      refine ⟨fun _ ↦ ?_, fun h ↦ absurd hleft (not_lt.mpr h)⟩
      have hsent := Turn.Sent.of_moved (Circulates c) hturn hp hs (.inl rfl)
      rwa [hnext] at hsent
  | rung _ _ _ _ hw =>
      have hleft := (RetryPolicy.nextWait_some hw).1
      refine ⟨fun _ ↦ ?_, fun h ↦ absurd hleft (not_lt.mpr h)⟩
      have hsent := Turn.Sent.of_moved (Circulates c) hturn hp hs (.inr ⟨_, rfl⟩)
      rwa [hnext] at hsent
  | fellBack => exact absurd hp hturn.not_fellBack

/-- A put-back keeps the attempt. -/
theorem Turn.Valid.putBack (hturn : turn.Valid c) (hpolicy : c.retry.InRange)
    (hwait : ∃ p ∈ decisions turn.events, AsksToWait p.2) :
    turn.Sent (· = c.queue) turn.envelope.attempt := by
  obtain ⟨⟨e', decision⟩, hmem, hasks⟩ := hwait
  obtain ⟨course, hp, hs, ⟨hnone, -⟩ | ⟨decision', hd, hchosen⟩⟩ := hturn.course hpolicy
  · simp [hnone] at hmem
  obtain rfl : decision = decision' := by
    rw [hd] at hmem
    exact (Prod.mk.inj (List.mem_singleton.mp hmem)).2
  cases hchosen with
  | inProgress h => exact Turn.Sent.of_moved _ hturn hp hs rfl
  | other => exact hasks.elim
  | accept h | reject h | park h | stop h | fatal h | exhausted h | again h | rung h
    | fellBack h => simp [AsksToWait, h] at hasks

/-- A dead letter is a retry refused on the last attempt, or an answer that gives up. -/
theorem Turn.Valid.deadLetter (hturn : turn.Valid c) (hpolicy : c.retry.InRange)
    (hage : c.retry.maxMessageAge ≤ 0)
    (hdead : ∃ p ∈ publishes turn.events, p.key = deadLetterQueue c.queue) :
    (turn.Retried ∧ c.retry.maxAttempts ≤ turn.envelope.attempt) ∨
      ∃ p ∈ decisions turn.events, GivesUp p.2 := by
  obtain ⟨p, hmem, hkey⟩ := hdead
  obtain ⟨course, hp, -, ⟨-, rfl | ⟨reason, delivered, rfl⟩⟩ | ⟨decision, hd, hchosen⟩⟩ :=
    hturn.course hpolicy
  · rw [hp] at hmem
    exact absurd hmem List.not_mem_nil
  · rw [hp] at hmem
    obtain rfl := List.mem_singleton.mp hmem
    exact absurd hkey (parkedQueue_ne_deadLetterQueue _)
  · have hdecided : (turn.envelope, decision) ∈ decisions turn.events := by simp [hd]
    rw [hp] at hmem
    cases hchosen with
    | accept | stop => exact absurd hmem List.not_mem_nil
    | reject h => exact .inr ⟨_, hdecided, .inl h⟩
    | fatal h _ hfatal => exact .inr ⟨_, hdecided, .inr ⟨h, hfatal⟩⟩
    | other => exact .inr ⟨_, hdecided, trivial⟩
    | park =>
        obtain rfl := List.mem_singleton.mp hmem
        exact absurd hkey (parkedQueue_ne_deadLetterQueue _)
    | exhausted h hstop hfatal hw =>
        exact .inl ⟨⟨_, hdecided, h, hstop, hfatal⟩,
          (RetryPolicy.nextWait_eq_none_iff hage).mp hw⟩
    | inProgress | again =>
        obtain rfl := List.mem_singleton.mp hmem
        exact absurd (.inl hkey.symm) (deadLetterQueue_not_circulates c)
    | rung =>
        obtain rfl := List.mem_singleton.mp hmem
        exact absurd (.inr ⟨_, hkey.symm⟩) (deadLetterQueue_not_circulates c)
    | fellBack => exact absurd hp hturn.not_fellBack

/-- Without interceptors every copy is a copy of the envelope that was read. -/
theorem Turn.Possible.copy (hturn : turn.Possible c) : ∀ p ∈ publishes turn.events,
    ∃ copy, p.message = hop turn.delivery copy ∧ turn.envelope.Alike copy := by
  intro p hp
  obtain ⟨halted, x, hrun⟩ := hturn.run
  obtain ⟨e', copy, hmessage, halike, rfl | ⟨decision, hd⟩⟩ :=
    always_iff_runs.mp handleOne_copies _ x hrun p hp
  · exact ⟨copy, hmessage, halike⟩
  · obtain rfl : e' = turn.envelope := hturn.kept _ hd
    exact ⟨copy, hmessage, halike⟩

/-- Every copy carries the first-seen header of the envelope, in milliseconds. -/
theorem Turn.Valid.firstSeen (hturn : turn.Valid c) :
    ∀ p ∈ publishes turn.events, p.message.headers.get? Headers.firstSeen =
      some (.int (millis turn.envelope.firstSeen)) := by
  intro p hp
  obtain ⟨copy, hmessage, halike⟩ := hturn.copy p hp
  rw [hmessage, ← halike.firstSeen]
  exact Envelope.get?_toHeaders_firstSeen copy _

/-- Without a retry a copy that comes back carries the attempt it came with. -/
theorem Turn.Valid.unchanged (hturn : turn.Valid c) (hpolicy : c.retry.InRange)
    (hretried : ¬turn.Retried) {p : Publish} (hmem : p ∈ publishes turn.events)
    (hkey : Circulates c p.key) : p.attempt = some (.int turn.envelope.attempt) := by
  obtain ⟨course, hp, -, ⟨-, rfl | ⟨reason, delivered, rfl⟩⟩ | ⟨decision, hd, hchosen⟩⟩ :=
    hturn.course hpolicy
  · rw [hp] at hmem
    exact absurd hmem List.not_mem_nil
  · rw [hp] at hmem
    obtain rfl := List.mem_singleton.mp hmem
    exact absurd hkey (parkedQueue_not_circulates c)
  · have hasks : ¬AsksRetry decision := fun h ↦
      hretried ⟨(turn.envelope, decision), by simp [hd], h⟩
    cases hchosen with
    | accept | stop =>
        rw [hp] at hmem
        exact absurd hmem List.not_mem_nil
    | reject | fatal | exhausted | other =>
        rw [hp] at hmem
        obtain rfl := List.mem_singleton.mp hmem
        exact absurd hkey (deadLetterQueue_not_circulates c)
    | park =>
        rw [hp] at hmem
        obtain rfl := List.mem_singleton.mp hmem
        exact absurd hkey (parkedQueue_not_circulates c)
    | inProgress =>
        rw [hp] at hmem
        obtain rfl := List.mem_singleton.mp hmem
        exact Envelope.get?_toHeaders_attempt _ _
    | again h hstop hfatal | rung h hstop hfatal | fellBack h hstop hfatal =>
        exact absurd ⟨h, hstop, hfatal⟩ hasks

/-- From one delivery to the next the count goes up by the retry, if there was one. -/
theorem Next.attempt (h : Next c turn d) (hturn : turn.Valid c) (hpolicy : c.retry.InRange)
    (hage : c.retry.maxMessageAge ≤ 0) :
    Envelope.attemptOf d.headers = turn.envelope.attempt + (if turn.Retried then 1 else 0) ∧
      (turn.Retried → turn.envelope.attempt < c.retry.maxAttempts) := by
  have hone := turn.envelope.one_le_attempt
  have hread : ∀ {n : ℤ} {p : Publish}, 1 ≤ n → p.attempt = some (.int n) →
      Carries p.message.body p.message.headers d → Envelope.attemptOf d.headers = n := by
    intro n p hn hp hcarries
    apply Envelope.attemptOf_of_get? hn
    rw [hcarries.2 _ (Headers.isReserved_of_mem_reserved _ (by decide))]
    exact hp
  by_cases hretried : turn.Retried
  · obtain ⟨hgranted, hrefused⟩ := hturn.retry hpolicy hage hretried
    rw [if_pos hretried]
    rcases lt_or_ge turn.envelope.attempt c.retry.maxAttempts with hlt | hge
    · obtain ⟨p, hp, -, hattempt, hs⟩ := hgranted hlt
      refine ⟨?_, fun _ ↦ hlt⟩
      cases h with
      | copied p' hmem _ hcarries =>
          rw [hp] at hmem
          obtain rfl := List.mem_singleton.mp hmem
          exact hread (by omega) hattempt hcarries
      | returned hmem => simp [hs] at hmem
    · obtain ⟨p, hp, hkey, -, hs⟩ := hrefused hge
      cases h with
      | copied p' hmem hcirculates _ =>
          rw [hp] at hmem
          obtain rfl := List.mem_singleton.mp hmem
          exact absurd (hkey ▸ hcirculates) (deadLetterQueue_not_circulates c)
      | returned hmem => simp [hs] at hmem
  · rw [if_neg hretried, add_zero]
    refine ⟨?_, fun h ↦ absurd h hretried⟩
    cases h with
    | copied p hmem hkey hcarries =>
        exact hread hone (hturn.unchanged hpolicy hretried hmem hkey) hcarries
    | returned _ hcarries =>
        obtain ⟨fresh, now, hfrom⟩ := hturn.read
        rw [Envelope.fromHeaders_attempt hfrom, Envelope.attemptOf, Envelope.attemptOf,
          hcarries.2 _ (Headers.isReserved_of_mem_reserved _ (by decide))]

/-! ## The whole life -/

theorem Life.attempt {first : Delivery} {turns : List (Turn Payload)} (hpolicy : c.retry.InRange)
    (hmax : 1 ≤ c.retry.maxAttempts) (hage : c.retry.maxMessageAge ≤ 0)
    (hfirst : Envelope.attemptOf first.headers = 1) (hlife : Life c first turns d) :
    Envelope.attemptOf d.headers = retries turns + 1 ∧
      (retries turns : ℤ) + 1 ≤ c.retry.maxAttempts := by
  induction hlife with
  | start => simpa [retries, hfirst] using hmax
  | @turn turns turn d hlife hturn hnext ih =>
      obtain ⟨fresh, now, hfrom⟩ := hturn.read
      have hattempt := Envelope.fromHeaders_attempt hfrom
      obtain ⟨hcount, hlt⟩ := hnext.attempt hturn hpolicy hage
      rw [hcount, hattempt, ih.1]
      by_cases hretried : turn.Retried
      · have hlt := hlt hretried
        have hretries : retries (turns ++ [turn]) = retries turns + 1 := by
          simp [retries, hretried]
        rw [if_pos hretried, hretries]
        push_cast
        omega
      · have hretries : retries (turns ++ [turn]) = retries turns := by simp [retries, hretried]
        rw [if_neg hretried, hretries]
        exact ⟨by omega, ih.2⟩

/-- What the attempts of a message are after `k` retries, and what its next turn does. -/
structure Accounted (c : Consumer) (k : ℕ) (turn : Turn Payload) : Prop where
  attempt : turn.envelope.attempt = k + 1
  bounded : (k : ℤ) + 1 ≤ c.retry.maxAttempts
  retried : turn.Retried → (k : ℤ) + 1 < c.retry.maxAttempts → turn.Sent (Circulates c) (k + 1 + 1)
  exhausted : turn.Retried → (k : ℤ) + 1 = c.retry.maxAttempts →
    turn.Sent (· = deadLetterQueue c.queue) (k + 1)
  putBack : (∃ p ∈ decisions turn.events, AsksToWait p.2) → turn.Sent (· = c.queue) (k + 1)
  circulating : ∀ p ∈ publishes turn.events, Circulates c p.key →
    ∃ n, p.attempt = some (.int n) ∧ n ≤ c.retry.maxAttempts
  deadLetter : (∃ p ∈ publishes turn.events, p.key = deadLetterQueue c.queue) →
    (turn.Retried ∧ (k : ℤ) + 1 = c.retry.maxAttempts) ∨ ∃ p ∈ decisions turn.events, GivesUp p.2
  last : (∃ p ∈ publishes turn.events, p.key = deadLetterQueue c.queue) → ∀ d, ¬Next c turn d
  readable : ∀ p ∈ publishes turn.events, ∀ d, Carries p.message.body p.message.headers d →
    ∀ fresh now, (Envelope.fromHeaders fresh now d.headers d.routingKey d.messageId).isSome

/-- Over the whole life of a message that is first delivered on attempt 1, with
every republish confirmed and routed: after `k` retries the delivery is on
attempt `k + 1`; a retry below the last attempt sends one copy round again on
the next one; a retry on the last attempt sends one copy to the dead letters,
and short of an answer that gives up nothing else does; and a put-back changes
no attempt. -/
theorem attempts_over_life (c : Consumer) (hpolicy : c.retry.InRange)
    (hmax : 1 ≤ c.retry.maxAttempts) (hage : c.retry.maxMessageAge ≤ 0) (first : Delivery)
    (hfirst : Envelope.attemptOf first.headers = 1) (turns : List (Turn Payload))
    (turn : Turn Payload) (hlife : Life c first turns turn.delivery) (hturn : turn.Valid c) :
    Accounted c (retries turns) turn := by
  obtain ⟨fresh, now, hfrom⟩ := hturn.read
  obtain ⟨hcount, hbounded⟩ := hlife.attempt hpolicy hmax hage hfirst
  have hattempt : turn.envelope.attempt = retries turns + 1 := by
    rw [Envelope.fromHeaders_attempt hfrom, hcount]
  have hdead := hturn.deadLetter hpolicy hage
  refine ⟨hattempt, hbounded, fun h hlt ↦ ?_, fun h heq ↦ ?_, fun h ↦ ?_, fun p hp hkey ↦ ?_,
    fun h ↦ ?_, fun h d hnext ↦ ?_, fun p hp d hcarries fresh' now' ↦ ?_⟩
  · rw [← hattempt] at hlt ⊢
    exact (hturn.retry hpolicy hage h).1 hlt
  · rw [← hattempt] at heq ⊢
    exact (hturn.retry hpolicy hage h).2 heq.ge
  · rw [← hattempt]
    exact hturn.putBack hpolicy h
  · by_cases hretried : turn.Retried
    · obtain ⟨hgranted, hrefused⟩ := hturn.retry hpolicy hage hretried
      rcases lt_or_ge turn.envelope.attempt c.retry.maxAttempts with hlt | hge
      · obtain ⟨p', hp', -, hp'attempt, -⟩ := hgranted hlt
        rw [hp'] at hp
        obtain rfl := List.mem_singleton.mp hp
        exact ⟨_, hp'attempt, by omega⟩
      · obtain ⟨p', hp', hp'key, -, -⟩ := hrefused hge
        rw [hp'] at hp
        obtain rfl := List.mem_singleton.mp hp
        exact absurd (hp'key ▸ hkey) (deadLetterQueue_not_circulates c)
    · exact ⟨_, hturn.unchanged hpolicy hretried hp hkey, by omega⟩
  · rw [← hattempt]
    rcases hdead h with ⟨hretried, hge⟩ | hgives
    · exact .inl ⟨hretried, by omega⟩
    · exact .inr hgives
  · obtain ⟨p, hp, hkey⟩ := h
    obtain ⟨hone, hs⟩ := hturn.single hpolicy hp
    cases hnext with
    | copied p' hmem hcirculates _ =>
        rw [hone] at hmem
        obtain rfl := List.mem_singleton.mp hmem
        exact deadLetterQueue_not_circulates c (hkey ▸ hcirculates)
    | returned hmem => simp [hs] at hmem
  · have hseen : d.headers.get? Headers.firstSeen =
        some (.int (millis turn.envelope.firstSeen)) := by
      rw [hcarries.2 _ (Headers.isReserved_of_mem_reserved _ (by decide))]
      exact hturn.firstSeen p hp
    rw [Envelope.isSome_fromHeaders, hseen, number_some_int,
      fromMillis_millis (Envelope.fromHeaders_firstSeen hfrom)]
    rfl

/-- A first delivery that is retried through a rung and then accepted. -/
theorem attempts_over_life_retried :
    ∃ (c : Consumer) (turns : List (Turn Unit)) (turn : Turn Unit),
      retries turns = 1 ∧ Accounted c (retries turns) turn := by
  let c : Consumer := ⟨⟨5000000, 1000⟩, "orders", fixedRetry 2 60000000, false⟩
  let first : Delivery := ⟨1, [104, 105], none, "orders", "m1", ∅, false, ""⟩
  let e := Envelope.new "m1" "orders" 0
  let copy := hop first (e.withAttempt (e.attempt + 1))
  obtain ⟨headers, hheaders⟩ : ∃ headers,
      headers = (e.withAttempt (e.attempt + 1)).toHeaders first.routingKey := ⟨_, rfl⟩
  let second : Delivery := ⟨2, [104, 105], none, "orders", "m1", headers, false, ""⟩
  let turn₁ : Turn Unit := ⟨first, e, [⟨.decode first.body none, .ok ()⟩,
    ⟨.invoke ⟨"orders", e, (), first.body, none, "orders", false, ""⟩,
      (e, .ok (.ack (.retry none)))⟩, ⟨.now, (0 : ℤ)⟩, ⟨.random, (0 : ℚ)⟩,
    ⟨.publish "" (retryQueue "orders" 60000000) copy, .answered ⟨"m1", true, true, ""⟩⟩,
    ⟨.ack 1, .ok ()⟩]⟩
  have hread₁ : Envelope.fromHeaders "" 0 first.headers "orders" "m1" = some e :=
    Envelope.fromHeaders_empty
  have hread₂ : (Envelope.fromHeaders "" 0 second.headers "orders" "m1").isSome = true := by
    have hseen := Envelope.get?_toHeaders_firstSeen (e.withAttempt (e.attempt + 1)) first.routingKey
    have hzero : (e.withAttempt (e.attempt + 1)).firstSeen = 0 := rfl
    have hheader : second.headers.get? Headers.firstSeen = some (.int 0) := by
      rwa [hzero, millis_zero, ← hheaders] at hseen
    rw [Envelope.isSome_fromHeaders, hheader, number_some_int, fromMillis_zero]
    rfl
  obtain ⟨e₂, he₂⟩ := Option.isSome_iff_exists.mp hread₂
  let turn₂ : Turn Unit := ⟨second, e₂, [⟨.decode second.body none, .ok ()⟩,
    ⟨.invoke ⟨"orders", e₂, (), second.body, none, "orders", false, ""⟩, (e₂, .ok (.ack .accept))⟩,
    ⟨.ack 2, .ok ()⟩]⟩
  have hrun₁ : Runs Answered (c.handleOne first e) turn₁.events (.ok ()) := by
    refine .ask (fun f hf ↦ by cases hf) (.ask (fun f hf ↦ by cases hf) (.ask trivial ?_))
    refine .ask ⟨le_refl (0 : ℚ), zero_lt_one⟩ (.ask (fun f hf ↦ by cases hf) ?_)
    exact .ask trivial (.ret ())
  have hvalid₁ : turn₁.Valid c := by
    refine ⟨⟨⟨_, _, hread₁⟩, ⟨false, _, hrun₁⟩, fun p hp ↦ ?_⟩, fun p hp ↦ ?_⟩
    · obtain rfl := List.mem_singleton.mp hp
      rfl
    · obtain rfl := List.mem_singleton.mp hp
      rfl
  have hrun₂ : Runs Answered (c.handleOne second e₂) turn₂.events (.ok ()) :=
    .ask (fun f hf ↦ by cases hf) (.ask (fun f hf ↦ by cases hf) (.ask trivial (.ret ())))
  have hvalid₂ : turn₂.Valid c := by
    refine ⟨⟨⟨_, _, he₂⟩, ⟨false, _, hrun₂⟩, fun p hp ↦ ?_⟩, fun p hp ↦ absurd hp List.not_mem_nil⟩
    obtain rfl := List.mem_singleton.mp hp
    rfl
  have hcarries : Carries copy.body copy.headers second := by
    refine ⟨rfl, fun name _ ↦ ?_⟩
    simp only [copy, second, hop, hheaders]
  have hnext : Next c turn₁ second :=
    .copied ⟨"", retryQueue "orders" 60000000, copy, true⟩ (List.mem_singleton_self _)
      (.inr ⟨60000000, rfl⟩) hcarries
  have hlife : Life c first [turn₁] turn₂.delivery := Life.turn .start hvalid₁ hnext
  have hretried : turn₁.Retried :=
    ⟨(e, .ack (.retry none)), List.mem_singleton_self _, rfl, rfl, rfl⟩
  have hretries : retries [turn₁] = 1 := by simp [retries, hretried]
  exact ⟨c, [turn₁], turn₂, hretries, attempts_over_life c
    (RetryPolicy.fixedRetry_inRange (by decide)) (by decide) le_rfl first
    (by simp [first, Envelope.attemptOf]) [turn₁] turn₂ hlife hvalid₂⟩

end Consumer

end AcemqAmqp
