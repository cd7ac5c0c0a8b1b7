import AcemqAmqp.Consumer.Safety
import AcemqAmqp.Replay.Rounds

/-!
# Headers that cannot be read

A header that is missing or unreadable takes its default, and the delivery goes
on to its handler, or to the decision of a replay.  There are two exceptions, and
each raises before anything is decided: a first-seen header that is a number and
not a `datetime`, and an attempt that is too large for a float.
-/

namespace AcemqAmqp

open Interaction Program

variable {Payload : Type}

namespace Envelope

/-- A header that no default is taken from: it is not there, or not a number. -/
def Unreadable (value : Option Value) : Prop := ∀ fallback, number value fallback = fallback

/-- Every field whose header is missing or unreadable has its default. -/
structure TakesDefaults (fresh : String) (now : Instant) (raw : Dict String Value)
    (routingKey messageId : String) (e : Envelope) : Prop where
  id : text (raw.get? Headers.id) = "" → e.id = orElse messageId fresh
  type : text (raw.get? Headers.type) = "" → e.type = orElse routingKey defaultType
  version : Unreadable (raw.get? Headers.version) → e.version = 1
  correlationId : text (raw.get? Headers.correlation) = "" → e.correlationId = e.id
  causationId : text (raw.get? Headers.causation) = "" → e.causationId = ""
  attempt : Unreadable (raw.get? Headers.attempt) → e.attempt = 1
  firstSeen : Unreadable (raw.get? Headers.firstSeen) → fromMillis (millis now) = some e.firstSeen
  origin : text (raw.get? Headers.origin) = "" → e.origin = ""
  error : text (raw.get? Headers.error) = "" → e.error = ""
  claim : text (raw.get? Headers.claim) = "" → e.claim = ""
  route : text (raw.get? Headers.route) = "" → e.route = ""
  routePosition : Unreadable (raw.get? Headers.routePosition) → e.routePosition = 0
  routeId : text (raw.get? Headers.routeId) = "" → e.routeId = ""

theorem fromHeaders_takesDefaults {fresh : String} {now : Instant} {raw : Dict String Value}
    {routingKey messageId : String} {e : Envelope}
    (h : fromHeaders fresh now raw routingKey messageId = some e) :
    e.TakesDefaults fresh now raw routingKey messageId := by
  have hseen := fromHeaders_firstSeen h
  simp only [fromHeaders, Option.bind_eq_bind, Option.bind_eq_some_iff, Option.pure_def,
    Option.some.injEq] at h
  obtain ⟨firstSeen, -, rfl⟩ := h
  constructor
  case id | type =>
    intro hmissing
    simp only [EnvelopeFields.settle, hmissing, orElse_empty]
  case correlationId =>
    intro hmissing
    simp only [EnvelopeFields.settle, hmissing, orElse_empty, orElse_self]
  case version | attempt | routePosition =>
    intro hunreadable
    simp only [EnvelopeFields.settle, hunreadable _]
    rfl
  case firstSeen =>
    intro hunreadable
    rwa [hunreadable _] at hseen
  all_goals exact id

end Envelope

/-- A header table does not stand in a message's way: an envelope is read from
it, the consumer settles the delivery, and a replay gets to decide about it. -/
structure Deliverable (Payload : Type) (raw : Dict String Value) : Prop where
  read : ∀ (fresh : String) (now : Instant) (routingKey messageId : String),
    (fromMillis (millis now)).isSome = true →
    ∃ e, Envelope.fromHeaders fresh now raw routingKey messageId = some e ∧
      e.TakesDefaults fresh now raw routingKey messageId
  settled : ∀ (c : Consumer) (fresh : String) (now : Instant) (d : Delivery)
    (t : List (Event (Consumer.Broker Payload))) (x : Except Failure Unit), d.headers = raw →
    (fromMillis (millis now)).isSome = true → c.retry.InRange →
    Runs Consumer.Answered (c.handle fresh now d) t x →
    Consumer.settlements t = [.ack d.tag] ∨ Consumer.settlements t = [.nack d.tag true]
  decided : ∀ (o : Replay.Options) (s : Replay.State) (d : Delivery) (t : Replay.Trace)
    (x : Except Replay.Raised (Replay.State ⊕ ReplayResult)), d.headers = raw →
    Runs Replay.Answered (Replay.pullOne o s) t x → ⟨.pull o.queue, .ok (some d)⟩ ∈ t →
    (∃ e answer, ⟨.only e d.body, answer⟩ ∈ t) ∨
      ∃ exchange key message answer, ⟨.publish exchange key message, answer⟩ ∈ t

/-- The first-seen header, where it is a number, is a `datetime`. -/
theorem readable_iff {raw : Dict String Value} : Envelope.readable raw = true ↔
    -62135596800000 ≤ number (raw.get? Headers.firstSeen) 0 ∧
      number (raw.get? Headers.firstSeen) 0 ≤ 253402300799999 :=
  isSome_fromMillis_iff

theorem fromHeaders_eq_none {raw : Dict String Value} (h : Envelope.readable raw = false)
    {now : Instant} (hnow : (fromMillis (millis now)).isSome = true)
    (fresh routingKey messageId : String) :
    Envelope.fromHeaders fresh now raw routingKey messageId = none := by
  have hnone : (Envelope.fromHeaders fresh now raw routingKey messageId).isSome =
      Envelope.readable raw := Replay.isSome_fromHeaders_iff hnow
  rw [h] at hnone
  exact Option.isSome_eq_false_iff.mp hnone |> Option.isNone_iff_eq_none.mp

/-- The 1st of January 1970 will do for a clock. -/
theorem isSome_fromMillis_epoch : (fromMillis (millis 0)).isSome = true := by
  rw [millis_zero, fromMillis_zero]
  rfl

theorem mem_published {o : Replay.Options} {d : Delivery} {id : String} {read at_ : Instant}
    {asked : Replay.Trace} {e : Envelope} {answer : BrokerAnswer} :
    ⟨.publish o.exchange (o.routingKey.getD d.routingKey) (Replay.goingBack o d e at_), answer⟩ ∈
      Replay.published o d id read asked at_ e answer := by
  simp [Replay.published]

/-- A round that pulled a readable message got to decide about it. -/
theorem pulls_decided {o : Replay.Options} {s : Replay.State} {d : Delivery} {t : Replay.Trace}
    {x : Except Replay.Raised (Replay.State ⊕ ReplayResult)} (h : Replay.Pulls o s t x)
    (hreadable : Envelope.readable d.headers = true)
    (hpull : ⟨.pull o.queue, .ok (some d)⟩ ∈ t) :
    (∃ e answer, ⟨.only e d.body, answer⟩ ∈ t) ∨
      ∃ exchange key message answer, ⟨.publish exchange key message, answer⟩ ∈ t := by
  cases h with
  | failed | drained => simp at hpull
  | @unreadable d' id read hunreadable =>
      obtain rfl : d = d' := by simpa using hpull
      rw [hunreadable] at hreadable
      cases hreadable
  | @raised d' id read e f =>
      obtain rfl : d = d' := by simpa using hpull
      exact .inl ⟨e, .error f, by simp⟩
  | @declined d' id read e =>
      obtain rfl : d = d' := by simpa using hpull
      exact .inl ⟨e, .ok false, by simp⟩
  | moved | unacked | refused => exact .inr ⟨_, _, _, _, List.mem_append_left _ mem_published⟩

/-- Headers that a delivery is handled under: its first-seen header, where it is a number, is a `datetime`,
and its attempt has a float. -/
structure Envelope.Legible (raw : Dict String Value) : Prop where
  firstSeen : Envelope.readable raw = true
  attempt : Envelope.attemptOf raw < Binary64.bound

theorem Consumer.exists_arrive_iff {fresh : String} {now : Instant} {d : Delivery}
    (hnow : (fromMillis (millis now)).isSome = true) :
    (∃ e, Consumer.arrive fresh now d = .ok e) ↔ Envelope.Legible d.headers := by
  have hread := @Replay.isSome_fromHeaders_iff fresh now d.headers d.routingKey d.messageId hnow
  constructor
  · rintro ⟨e, he⟩
    obtain ⟨hfrom, hsmall⟩ := Consumer.arrive_ok_iff.mp he
    rw [hfrom] at hread
    exact ⟨hread.symm, Envelope.fromHeaders_attempt hfrom ▸ hsmall⟩
  · rintro ⟨hreadable, hsmall⟩
    rw [hreadable, Option.isSome_iff_exists] at hread
    obtain ⟨e, he⟩ := hread
    exact ⟨e, Consumer.arrive_of_small he (Envelope.fromHeaders_attempt he ▸ hsmall)⟩

theorem Consumer.not_legible_of_arrive {fresh : String} {now : Instant} {d : Delivery} {failure : Failure}
    (hnow : (fromMillis (millis now)).isSome = true) (h : Consumer.arrive fresh now d = .error failure) :
    ¬Envelope.Legible d.headers := by
  intro hlegible
  obtain ⟨e, he⟩ := (Consumer.exists_arrive_iff hnow).mpr hlegible
  rw [h] at he
  cases he

theorem attemptOf_lt_iff {raw : Dict String Value} : Envelope.attemptOf raw < Binary64.bound ↔
    number (raw.get? Headers.attempt) 1 < Binary64.bound := by
  have hbound := Binary64.one_lt_bound
  rw [Envelope.attemptOf]
  split <;> omega

theorem attempt_of_settled {raw : Dict String Value} (h : Deliverable Payload raw) :
    Envelope.attemptOf raw < Binary64.bound := by
  obtain ⟨e, he, -⟩ := h.read "f" 0 "orders" "m1" isSome_fromMillis_epoch
  rw [← Envelope.fromHeaders_attempt he]
  by_contra hlarge
  -- A consumer that retries up to three times would raise at such a delivery.
  set c : Consumer := ⟨⟨5000000, 1000⟩, "orders", fixedRetry 3 0, false⟩
  set d : Delivery := ⟨7, [], none, "orders", "m1", raw, false, ""⟩
  cases harrive : Consumer.arrive "f" 0 d with
  | ok e' =>
      obtain ⟨he', hsmall⟩ := Consumer.arrive_ok_iff.mp harrive
      obtain rfl := Option.some.inj (he.symm.trans he')
      exact hlarge hsmall
  | error failure =>
      have hrun : Runs Consumer.Answered (c.handle "f" 0 d : Consumer.Step Payload Unit) [] (.error failure) := by
        rw [Consumer.handle_of_error harrive]
        exact .raise failure
      rcases h.settled c "f" 0 d [] _ rfl isSome_fromMillis_epoch
        (RetryPolicy.fixedRetry_inRange (by decide)) hrun with hnone | hnone
      · cases hnone
      · cases hnone

end AcemqAmqp
