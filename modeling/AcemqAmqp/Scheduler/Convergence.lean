import AcemqAmqp.Scheduler.Journey

/-!
# The way down the ladder

A message is in one rung after the other until less than a second is left.
Each rung gives it back after the rung's length and some latency, and each run
of `_route` reads the clock again.  The first of them has the due time that was
asked for, the later ones the due time that the headers carry.
-/

namespace AcemqAmqp

namespace Scheduler

open Interaction Program

/-- What `_route` does with what remains: deliver, or a rung. -/
def nextRung (remaining : Duration) : Option Duration :=
  if remaining < lastRung then none
  else some ((scheduleRungs.find? (· ≤ remaining)).getD lastRung)

/-- The longest rung that does not overshoot. -/
structure Longest (remaining rung : Duration) : Prop where
  mem : rung ∈ scheduleRungs
  le : rung ≤ remaining
  longest : ∀ other ∈ scheduleRungs, other ≤ remaining → other ≤ rung

/-- One message from rung to rung, delivered at `last`.  A hop is the clock's
reading and the rung; `latency i` is what the broker takes over the length of
the rung of hop `i`. -/
inductive Trip (carried : Instant) :
    (ℕ → Duration) → Instant → Instant → List (Instant × Duration) → Instant → Prop
  | delivered {latency : ℕ → Duration} {when_ read : Instant} :
      nextRung (when_ - read) = none → Trip carried latency when_ read [] read
  | hop {latency : ℕ → Duration} {when_ read last : Instant} {rung : Duration}
      {hops : List (Instant × Duration)} : nextRung (when_ - read) = some rung →
      Trip carried (fun i ↦ latency (i + 1)) carried (read + rung + latency 0) hops last →
      Trip carried latency when_ read ((read, rung) :: hops) last

/-- The rungs of a trip, one after the other. -/
def waited (hops : List (Instant × Duration)) : Duration := (hops.map Prod.snd).sum

@[simp] theorem waited_nil : waited [] = 0 := rfl

@[simp] theorem waited_cons (hop : Instant × Duration) (hops : List (Instant × Duration)) :
    waited (hop :: hops) = hop.2 + waited hops := List.sum_cons

/-! ## One hop -/

theorem nextRung_eq_none_iff {remaining : ℤ} :
    nextRung remaining = none ↔ remaining < 1000000 := by
  rw [nextRung, show lastRung = 1000000 from rfl]
  split <;> simp_all

theorem longest_of_nextRung {remaining rung : Duration} (h : nextRung remaining = some rung) :
    Longest remaining rung := by
  rw [nextRung, show lastRung = 1000000 from rfl] at h
  split at h
  case isTrue => cases h
  case isFalse hleft =>
    obtain rfl := Option.some.inj h
    have hmem : ∀ r : Duration, r ∈ scheduleRungs ↔
        r = 3600000000 ∨ r = 600000000 ∨ r = 60000000 ∨ r = 10000000 ∨ r = 1000000 := by
      simp [scheduleRungs]
    have hfind : (scheduleRungs.find? (· ≤ remaining)).getD 1000000 =
        if 3600000000 ≤ remaining then 3600000000 else if 600000000 ≤ remaining then 600000000
        else if 60000000 ≤ remaining then 60000000 else if 10000000 ≤ remaining then 10000000
        else 1000000 := by
      simp only [scheduleRungs, List.find?_cons, List.find?_nil]
      grind
    rw [hfind]
    constructor
    case mem => grind
    case le => grind
    case longest => grind

theorem rung_le {remaining rung : ℤ} (h : nextRung remaining = some rung) : rung ≤ remaining :=
  (longest_of_nextRung h).le

/-- A rung is a number of whole seconds, and at least one. -/
theorem rung_seconds {rung : Duration} (h : rung ∈ scheduleRungs) :
    ∃ seconds : ℤ, 1 ≤ seconds ∧ rung = seconds * 1000000 := by
  have hall : ∀ r ∈ scheduleRungs, (1000000 : ℤ) ∣ r ∧ (1000000 : ℤ) ≤ r := by decide
  obtain ⟨⟨seconds, hseconds⟩, hle⟩ := hall rung h
  rw [hseconds] at hle
  exact ⟨seconds, by omega, hseconds.trans (mul_comm _ _)⟩

theorem route_eq (s : Scheduler) (body : Bytes) (headers : ApplicationHeaders) (when_ : Instant) :
    s.route body headers when_ = now.bind fun read ↦
      match nextRung (when_ - read) with
      | none => s.deliver body headers
      | some rung => s.hop body headers rung := by
  rw [route, bind_eq]
  congr 1
  funext read
  rw [nextRung]
  by_cases hleft : when_ - read < lastRung
  · simp only [if_pos hleft]
  · simp only [if_neg hleft]

/-! ## The whole trip -/

namespace Trip

variable {carried when_ read last : ℤ} {latency : ℕ → ℤ}
  {hops : List (Instant × Duration)}

theorem exists_of_carried (hlatency : ∀ i, 0 ≤ latency i) (read : ℤ) :
    ∃ hops last, Trip carried latency carried read hops last := by
  -- Each hop takes at least a second off what remains.
  induction hleft : ((carried - read) / 1000000).toNat using Nat.strong_induction_on
    generalizing latency read with
  | _ left ih =>
      cases hrung : nextRung (carried - read) with
      | none => exact ⟨[], read, .delivered hrung⟩
      | some rung =>
          obtain ⟨seconds, hone, rfl⟩ := rung_seconds (longest_of_nextRung hrung).mem
          have hle := rung_le hrung
          have hfirst := hlatency 0
          have hless :
              ((carried - (read + seconds * 1000000 + latency 0)) / 1000000).toNat < left := by
            omega
          obtain ⟨hops, last, htrip⟩ := ih _ hless (fun i ↦ hlatency (i + 1)) _ rfl
          exact ⟨_, last, .hop hrung htrip⟩

/-- However late the rungs are, a message is delivered after finitely many. -/
theorem exists_of_latency (hlatency : ∀ i, 0 ≤ latency i) (when_ read : ℤ) :
    ∃ hops last, Trip carried latency when_ read hops last := by
  cases hrung : nextRung (when_ - read) with
  | none => exact ⟨[], read, .delivered hrung⟩
  | some rung =>
      obtain ⟨hops, last, htrip⟩ :=
        exists_of_carried (fun i ↦ hlatency (i + 1)) (read + rung + latency 0)
      exact ⟨_, last, .hop hrung htrip⟩

theorem unique {hops' : List (Instant × Duration)} {last' : Instant}
    (h : Trip carried latency when_ read hops last)
    (h' : Trip carried latency when_ read hops' last') : hops' = hops ∧ last' = last := by
  induction h generalizing hops' last' with
  | delivered hrung =>
      cases h' with
      | delivered => exact ⟨rfl, rfl⟩
      | hop hrung' => rw [hrung] at hrung'; cases hrung'
  | hop hrung _ ih =>
      cases h' with
      | delivered hrung' => rw [hrung] at hrung'; cases hrung'
      | hop hrung' htrip =>
          obtain rfl := Option.some.inj (hrung.symm.trans hrung')
          obtain ⟨rfl, rfl⟩ := ih htrip
          exact ⟨rfl, rfl⟩

theorem nil_iff (h : Trip carried latency when_ read hops last) :
    hops = [] ↔ when_ - read < 1000000 := by
  rw [← nextRung_eq_none_iff]
  cases h with
  | delivered hrung => simp [hrung]
  | hop hrung => simp [hrung]

theorem longest_of_carried (h : Trip carried latency when_ read hops last)
    (hwhen : when_ = carried) : ∀ hop ∈ hops, Longest (carried - hop.1) hop.2 := by
  induction h with
  | delivered => exact fun _ hmem ↦ absurd hmem List.not_mem_nil
  | hop hrung _ ih =>
      subst hwhen
      rintro hop (_ | ⟨_, hmem⟩)
      · exact longest_of_nextRung hrung
      · exact ih rfl hop hmem

theorem longest_head (h : Trip carried latency when_ read hops last) :
    ∀ hop ∈ hops.head?, Longest (when_ - hop.1) hop.2 := by
  cases h with
  | delivered => exact fun _ hmem ↦ absurd hmem (Option.not_mem_none _)
  | hop hrung =>
      rintro _ ⟨⟩
      exact longest_of_nextRung hrung

theorem longest_tail (h : Trip carried latency when_ read hops last) :
    ∀ hop ∈ hops.tail, Longest (carried - hop.1) hop.2 := by
  cases h with
  | delivered => exact fun _ hmem ↦ absurd hmem List.not_mem_nil
  | hop _ htrip => exact htrip.longest_of_carried rfl

/-! ### Rungs that are never late -/

theorem last_eq (h : Trip carried latency when_ read hops last) (hzero : ∀ i, latency i = 0) :
    last = read + waited hops := by
  induction h with
  | delivered => simp
  | hop hrung _ ih => rw [ih fun i ↦ hzero (i + 1), waited_cons, hzero 0]; ring

theorem waited_of_carried (h : Trip carried latency when_ read hops last)
    (hzero : ∀ i, latency i = 0) (hwhen : when_ = carried) :
    waited hops = max 0 ((carried - read) / 1000000) * 1000000 := by
  induction h with
  | @delivered _ _ read hrung =>
      rw [hwhen, nextRung_eq_none_iff] at hrung
      have hleft : (carried - read) / 1000000 ≤ 0 := by omega
      rw [waited_nil, max_eq_left hleft, zero_mul]
  | @hop _ _ read _ _ _ hrung _ ih =>
      rw [hwhen] at hrung
      obtain ⟨seconds, hone, rfl⟩ := rung_seconds (longest_of_nextRung hrung).mem
      have hle := rung_le hrung
      have hleft : (carried - read) / 1000000 =
          seconds + (carried - (read + seconds * 1000000 + 0)) / 1000000 := by omega
      have hrest : 0 ≤ (carried - (read + seconds * 1000000 + 0)) / 1000000 := by omega
      rw [waited_cons, ih (fun i ↦ hzero (i + 1)) rfl, hzero 0, hleft, max_eq_right hrest,
        max_eq_right (by omega)]
      ring

theorem last_lt (h : Trip carried latency when_ read hops last) (hzero : ∀ i, latency i = 0)
    (hhops : hops ≠ []) : carried - last < 1000000 := by
  cases h with
  | delivered => exact absurd rfl hhops
  | hop _ htrip =>
      rw [htrip.last_eq fun i ↦ hzero (i + 1),
        htrip.waited_of_carried (fun i ↦ hzero (i + 1)) rfl]
      omega

theorem early_lt (h : Trip carried latency when_ read hops last) (hzero : ∀ i, latency i = 0)
    (hwhen : when_ = carried) : when_ - last < 1000000 := by
  rw [h.last_eq hzero, h.waited_of_carried hzero hwhen, hwhen]
  omega

theorem last_le (h : Trip carried latency when_ read hops last) (hzero : ∀ i, latency i = 0)
    (hread : read ≤ when_) : last ≤ max when_ carried := by
  cases h with
  | delivered => exact le_max_of_le_left hread
  | hop hrung htrip =>
      have hle := rung_le hrung
      rw [htrip.last_eq fun i ↦ hzero (i + 1),
        htrip.waited_of_carried (fun i ↦ hzero (i + 1)) rfl, hzero 0]
      omega

end Trip

theorem dueAt_headers (m : Scheduled) : dueAt m.headers.1 = .ok (fromTimestamp (dueMillis m.due)) := rfl

theorem dueAt_headers_whole (m : Scheduled) {value : ℤ} (hmillis : dueMillis m.due = value)
    (hsmall : |value| < 8589934592000) : dueAt m.headers.1 = .ok (.ok (value * 1000)) := by
  rw [dueAt_headers, hmillis, fromTimestamp_ok_iff.mpr (fromMillis_whole hsmall)]

/-- The ladder converges and does not overshoot.  A message goes through
finitely many rungs, each the longest that ends no later than the due time its
run has; and when the rungs are never late it is delivered less than a second
early and, unless the due time has passed already, not late. -/
theorem ladder_converges (m : Scheduled) (carried : Instant)
    (hcarried : dueAt m.headers.1 = .ok (.ok carried)) :
    (∀ s : Scheduler, s.contentType = m.contentType →
      s.at_ (.aware m.due) m.exchange m.routingKey (.ok m.body) =
        s.route m.body m.headers m.due) ∧
    (∀ (s : Scheduler) (message : Message Bytes), m.HeadersIn message.envelope.headers →
      s.forward message = ((s.route message.body
          ⟨message.envelope.headers, message.envelope.application⟩ carried).bind
            fun _ ↦ .ret Ack.accept).rescue fun failure ↦
          if failure.isException then .ret (.inProgress defaultInProgressDelay)
          else .raise failure) ∧
    (∀ (s : Scheduler) (body : Bytes) (headers : ApplicationHeaders) (when_ : Instant),
      s.route body headers when_ = now.bind fun read ↦
        match nextRung (when_ - read) with
        | none => s.deliver body headers
        | some rung => s.hop body headers rung) ∧
    ∀ (start : Instant) (latency : ℕ → Duration), (∀ i, 0 ≤ latency i) →
      ∃ hops last, Trip carried latency m.due start hops last ∧
        (∀ hops' last', Trip carried latency m.due start hops' last' →
          hops' = hops ∧ last' = last) ∧
        (∀ hop ∈ hops.head?, Longest (m.due - hop.1) hop.2) ∧
        (∀ hop ∈ hops.tail, Longest (carried - hop.1) hop.2) ∧
        (hops = [] ↔ m.due - start < 1000000) ∧
        ((∀ i, latency i = 0) →
          last = start + waited hops ∧ (start ≤ m.due → last ≤ max m.due carried) ∧
          (hops ≠ [] → carried - last < 1000000) ∧
          (carried = m.due → m.due - last < 1000000 ∧
            waited hops = max 0 ((m.due - start) / 1000000) * 1000000)) := by
  refine ⟨fun s htype ↦ ?_, fun s message hheaders ↦ ?_, route_eq, ?_⟩
  · rw [at_, htype]
    rfl
  · unfold forward
    rw [dueAt_congr hheaders, hcarried]
  · intro start latency hlatency
    obtain ⟨hops, last, htrip⟩ : ∃ hops last, Trip carried latency m.due start hops last :=
      Trip.exists_of_latency hlatency m.due start
    refine ⟨hops, last, htrip, fun _ _ ↦ htrip.unique, htrip.longest_head, htrip.longest_tail,
      htrip.nil_iff, fun hzero ↦ ⟨htrip.last_eq hzero, htrip.last_le hzero,
        htrip.last_lt hzero, fun hdue ↦ ⟨htrip.early_lt hzero hdue.symm, ?_⟩⟩⟩
    rw [htrip.waited_of_carried hzero hdue.symm, hdue]

/-- A message due in an hour, two minutes and a half second: an hour, a minute
and another one, and the half second is not waited for. -/
theorem ladder_converges_hour :
    let m : Scheduled := ⟨[1], jsonContentType, "billing", "invoice.due", 3720500000⟩
    dueAt m.headers.1 = .ok (.ok 3720500000) ∧
      ∃ hops last, Trip 3720500000 (fun _ ↦ 0) m.due 0 hops last ∧ waited hops = 3720000000 ∧
        last = 3720000000 := by
  intro m
  have hcarried : dueAt m.headers.1 = .ok (.ok 3720500000) :=
    dueAt_headers_whole m (show dueMillis m.due = 3720500 by decide +kernel) (by decide)
  obtain ⟨hops, last, htrip, -, -, -, -, hzero⟩ :=
    (ladder_converges m 3720500000 hcarried).2.2.2 0 (fun _ ↦ 0) fun _ ↦ le_refl 0
  obtain ⟨hlast, -, -, hdue⟩ := hzero fun _ ↦ rfl
  have hwaited : waited hops = 3720000000 := (hdue rfl).2
  exact ⟨hcarried, hops, last, htrip, hwaited, by rw [hlast, hwaited]; rfl⟩

/-- A due time that has passed: the message is delivered at once, and late.  A
due time with a part of a millisecond: its headers carry it without, the second
rung is not taken, and the message is delivered a whole second early. -/
theorem ladder_late_or_second_early :
    (∃ m : Scheduled, dueAt m.headers.1 = .ok (.ok m.due) ∧
      Trip m.due (fun _ ↦ 0) m.due 1 [] 1 ∧ m.due < 1) ∧
    ∃ m : Scheduled, dueAt m.headers.1 = .ok (.ok 2000000) ∧
      Trip 2000000 (fun _ ↦ 0) m.due 1 [(1, 1000000)] 1000001 ∧ m.due - 1000001 = 1000000 ∧
      waited [(1, 1000000)] ≠ (m.due - 1) / 1000000 * 1000000 := by
  have hzero : dueAt (Scheduled.headers ⟨[1], "", "", "orders", 0⟩).1 = .ok (.ok (0 * 1000)) :=
    dueAt_headers_whole _ (show dueMillis 0 = 0 by decide +kernel) (by decide)
  have htwo : dueAt (Scheduled.headers ⟨[1], "", "", "orders", 2000001⟩).1 =
      .ok (.ok (2000 * 1000)) :=
    dueAt_headers_whole _ (show dueMillis 2000001 = 2000 by decide +kernel) (by decide)
  exact ⟨⟨_, hzero, .delivered (by decide), by decide⟩,
    _, htwo, .hop (by decide) (.delivered (by decide)), rfl, by decide⟩

end Scheduler

end AcemqAmqp
