import AcemqAmqp.Core.Retry
import AcemqAmqp.Foundations.Fallible

/-!
# The schedule of a policy

`schedule` and `_unjittered` multiply the same delay in two loops.  One clamps
a copy and goes on multiplying; the other stops at the ceiling.  They part
where a product above the ceiling is followed by one below it.
-/

namespace AcemqAmqp

namespace RetryPolicy

open Fallible

variable (p : RetryPolicy)

/-- A delay, or the ceiling where there is one and the delay is above it. -/
def capped (delay : Duration) : Duration :=
  if 0 < p.maxDelay ∧ p.maxDelay < delay then p.maxDelay else delay

/-- The loop of `schedule`, with the rounds it still has to go. -/
def delays : ℕ → Duration → Except Failure (List Duration)
  | 0, _ => .ok []
  | rounds + 1, delay => do
      let longer ← timesFloat delay p.multiplier
      return p.capped delay :: (← delays rounds longer)

/-- The delays this policy would use, without jitter. -/
def schedule : Except Failure (List Duration) :=
  p.delays (p.maxAttempts - 1).toNat p.initialDelay

/-- The delays this policy needs a rung queue for. -/
def brokerRungs : Except Failure (List Duration) := do
  return ((← p.schedule).filter p.waitsInBroker).eraseDups

/-- A delay multiplied `n` times, rounded each time. -/
def times : ℕ → Duration → Except Failure Duration
  | 0, delay => .ok delay
  | n + 1, delay => do times n (← timesFloat delay p.multiplier)

variable {p} {n : ℕ} {delay : Duration}

theorem times_succ_ok_iff {d : Duration} : p.times (n + 1) delay = .ok d ↔
    ∃ longer, timesFloat delay p.multiplier = .ok longer ∧ p.times n longer = .ok d :=
  bind_ok_iff

/-- What `schedule` lists are the products, each under the ceiling. -/
theorem delays_ok {l : List Duration} (h : p.delays n delay = .ok l) :
    l.length = n ∧ (∃ e, p.times n delay = .ok e) ∧
      ∀ k < n, ∃ e, p.times k delay = .ok e ∧ l[k]? = some (p.capped e) := by
  induction n generalizing delay l with
  | zero =>
      obtain rfl := Except.ok.inj h
      exact ⟨rfl, ⟨delay, rfl⟩, fun k hk ↦ absurd hk (Nat.not_lt_zero k)⟩
  | succ n ih =>
      obtain ⟨longer, hlonger, h⟩ := bind_ok_iff.mp h
      obtain ⟨rest, hrest, h⟩ := bind_ok_iff.mp h
      obtain rfl := Except.ok.inj h
      obtain ⟨hlength, ⟨e, he⟩, hentries⟩ := ih hrest
      refine ⟨by simp [hlength], ⟨e, times_succ_ok_iff.mpr ⟨longer, hlonger, he⟩⟩, fun k hk ↦ ?_⟩
      cases k with
      | zero => exact ⟨delay, rfl, rfl⟩
      | succ k =>
          obtain ⟨e, he, hentry⟩ := hentries k (by omega)
          exact ⟨e, times_succ_ok_iff.mpr ⟨longer, hlonger, he⟩, by simpa using hentry⟩

theorem delays_of_times {e : Duration} (h : p.times n delay = .ok e) :
    ∃ l, p.delays n delay = .ok l := by
  induction n generalizing delay with
  | zero => exact ⟨[], rfl⟩
  | succ n ih =>
      obtain ⟨longer, hlonger, h⟩ := times_succ_ok_iff.mp h
      obtain ⟨rest, hrest⟩ := ih h
      exact ⟨p.capped delay :: rest, bind_ok_iff.mpr ⟨longer, hlonger, bind_ok_iff.mpr ⟨rest, hrest, rfl⟩⟩⟩

/-- The loop of `_unjittered` multiplies while no product is above the ceiling. -/
theorem backOff_eq_times
    (h : ∀ j d, 1 ≤ j → j ≤ n → p.times j delay = .ok d → ¬(0 < p.maxDelay ∧ p.maxDelay < d)) :
    p.backOff n delay = p.times n delay := by
  induction n generalizing delay with
  | zero => rfl
  | succ n ih =>
      rw [backOff, times]
      cases hlonger : timesFloat delay p.multiplier with
      | error e => rfl
      | ok longer =>
          have hlow : ¬(0 < p.maxDelay ∧ p.maxDelay < longer) :=
            h 1 longer le_rfl (by omega) (times_succ_ok_iff.mpr ⟨longer, hlonger, rfl⟩)
          simp only [if_neg hlow]
          refine ih fun j d hj hjn hd ↦ ?_
          exact h (j + 1) d (by omega) (by omega) (times_succ_ok_iff.mpr ⟨longer, hlonger, hd⟩)

/-- It stops at the ceiling at the first product above it. -/
theorem backOff_eq_maxDelay {j : ℕ} {d : Duration} (hj : 1 ≤ j) (hjn : j ≤ n)
    (hd : p.times j delay = .ok d) (hcap : 0 < p.maxDelay) (habove : p.maxDelay < d) :
    p.backOff n delay = .ok p.maxDelay := by
  induction n generalizing delay j with
  | zero => omega
  | succ n ih =>
      obtain ⟨j, rfl⟩ := Nat.exists_eq_add_of_le' hj
      obtain ⟨longer, hlonger, hrest⟩ := times_succ_ok_iff.mp hd
      rw [backOff, hlonger]
      by_cases hlow : 0 < p.maxDelay ∧ p.maxDelay < longer
      · simp only [if_pos hlow]
      · simp only [if_neg hlow]
        cases j with
        | zero =>
            obtain rfl := Except.ok.inj hrest
            exact absurd ⟨hcap, habove⟩ hlow
        | succ j => exact ih (by omega) (by omega) hrest

theorem capped_maxDelay : p.capped p.maxDelay = p.maxDelay := by
  simp [capped]

theorem unjittered_eq (attempt : ℤ) : p.unjittered attempt =
    (p.backOff (attempt - 1).toNat p.initialDelay).map p.capped := by
  unfold unjittered capped
  cases p.backOff (attempt - 1).toNat p.initialDelay <;> rfl

/-- Among the first `n` products none above the ceiling is followed by one below it. -/
def Steady (p : RetryPolicy) (n : ℕ) : Prop :=
  0 < p.maxDelay → ∀ j k d e, 1 ≤ j → j ≤ k → k < n → p.times j p.initialDelay = .ok d →
    p.times k p.initialDelay = .ok e → p.maxDelay < d → p.maxDelay ≤ e

/-! ## Both loops -/

section announced

variable {l : List Duration} (hl : p.schedule = .ok l) {attempt : ℤ} (hone : 1 ≤ attempt)
  (hlast : attempt < p.maxAttempts)
include hl hone hlast

/-- The delay after an attempt is that attempt's entry of the schedule, or the
ceiling that an earlier entry had reached. -/
theorem unjittered_cases :
    (∃ d, l[(attempt - 1).toNat]? = some d ∧ p.unjittered attempt = .ok d) ∨
      0 < p.maxDelay ∧ p.unjittered attempt = .ok p.maxDelay ∧ ∃ j d, 1 ≤ j ∧
        j ≤ (attempt - 1).toNat ∧ p.times j p.initialDelay = .ok d ∧ p.maxDelay < d := by
  obtain ⟨-, -, hentries⟩ := delays_ok hl
  obtain ⟨e, he, hentry⟩ := hentries (attempt - 1).toNat (by omega)
  by_cases hreached : ∃ j d, 1 ≤ j ∧ j ≤ (attempt - 1).toNat ∧
      p.times j p.initialDelay = .ok d ∧ 0 < p.maxDelay ∧ p.maxDelay < d
  · obtain ⟨j, d, hj, hjk, hd, hcap, habove⟩ := hreached
    refine .inr ⟨hcap, ?_, j, d, hj, hjk, hd, habove⟩
    rw [unjittered_eq, backOff_eq_maxDelay hj hjk hd hcap habove, Except.map, capped_maxDelay]
  · refine .inl ⟨_, hentry, ?_⟩
    rw [unjittered_eq, backOff_eq_times, he, Except.map]
    exact fun j d hj hjk hd habove ↦ hreached ⟨j, d, hj, hjk, hd, habove⟩

/-- A delay that is used is one that was announced, if not always the one for that attempt. -/
theorem unjittered_mem : ∃ d ∈ l, p.unjittered attempt = .ok d := by
  rcases unjittered_cases hl hone hlast with ⟨d, hd, hdelay⟩ | ⟨hcap, hdelay, j, d, -, hjk, hd, habove⟩
  · exact ⟨d, List.mem_of_getElem? hd, hdelay⟩
  · obtain ⟨e, he, hentry⟩ := (delays_ok hl).2.2 j (by omega)
    obtain rfl : d = e := by rwa [hd, Except.ok.injEq] at he
    have hcapped : p.capped d = p.maxDelay := if_pos ⟨hcap, habove⟩
    exact ⟨p.maxDelay, List.mem_of_getElem? (hcapped ▸ hentry), hdelay⟩

theorem unjittered_of_steady (hsteady : p.Steady (p.maxAttempts - 1).toNat) :
    ∃ d, l[(attempt - 1).toNat]? = some d ∧ p.unjittered attempt = .ok d := by
  rcases unjittered_cases hl hone hlast with h | ⟨hcap, hdelay, j, d, hj, hjk, hd, habove⟩
  · exact h
  · obtain ⟨e, he, hentry⟩ := (delays_ok hl).2.2 (attempt - 1).toNat (by omega)
    have hle := hsteady hcap j _ d e hj hjk (by omega) hd he habove
    have hcapped : p.capped e = p.maxDelay := by
      unfold capped
      split
      · rfl
      · rename_i hlow
        exact le_antisymm (not_lt.mp fun hlt ↦ hlow ⟨hcap, hlt⟩) hle
    exact ⟨p.maxDelay, hcapped ▸ hentry, hdelay⟩

end announced

/-- A wait in the broker is the delay after the attempt. -/
theorem nextWait_inBroker {attempt : ℤ} {age : Duration} {draw : ℚ} {w : Wait}
    (h : p.nextWait attempt age draw = .ok (some w)) (hbroker : w.inBroker = true) :
    p.unjittered attempt = .ok w.delay := by
  have hthere := (nextWait_some h).2 hbroker
  unfold nextWait at h
  split at h
  · cases h
  · split at h
    · cases h
    · cases hdelay : p.unjittered attempt with
      | error e => simp [hdelay] at h
      | ok delay =>
          simp only [hdelay] at h
          split at h
          · obtain rfl := Option.some.inj (Except.ok.inj h)
            rfl
          · split at h
            · cases hmoved : timesFloat delay (p.jitter draw) with
              | error e => simp [hmoved] at h
              | ok moved =>
                  simp only [hmoved] at h
                  obtain rfl := Option.some.inj (Except.ok.inj h)
                  cases hbroker
            · obtain rfl := Option.some.inj (Except.ok.inj h)
              cases hbroker

theorem nextWait_of_waitsInBroker {attempt : ℤ} {age : Duration} {draw : ℚ} {d : Duration}
    (hlast : attempt < p.maxAttempts) (hage : 0 < p.maxMessageAge → age < p.maxMessageAge)
    (hdelay : p.unjittered attempt = .ok d) (hbroker : p.waitsInBroker d = true) :
    p.nextWait attempt age draw = .ok (some ⟨d, true⟩) := by
  rw [nextWait, if_neg (not_le.mpr hlast), if_neg fun h ↦ not_le.mpr (hage h.1) h.2, hdelay]
  simp only [hbroker, if_true]

theorem mem_brokerRungs {rungs l : List Duration} (hl : p.schedule = .ok l)
    (h : p.brokerRungs = .ok rungs) {d : Duration} :
    d ∈ rungs ↔ d ∈ l ∧ p.waitsInBroker d = true := by
  rw [brokerRungs, hl] at h
  obtain rfl := Except.ok.inj h
  rw [List.mem_eraseDups, List.mem_filter]

theorem brokerRungs_of_schedule {l : List Duration} (hl : p.schedule = .ok l) :
    p.brokerRungs = .ok ((l.filter p.waitsInBroker).eraseDups) := by
  rw [brokerRungs, hl]
  rfl

/-- The schedule a policy announces is the one it runs: `schedule` returns, its
entries are the delays after the attempts, and the rungs are the waits that are
spent in the broker. -/
structure Announced (p : RetryPolicy) : Prop where
  entry : ∃ l, p.schedule = .ok l ∧ ∀ attempt, 1 ≤ attempt → attempt < p.maxAttempts →
    ∃ d, l[(attempt - 1).toNat]? = some d ∧ p.unjittered attempt = .ok d
  declared : ∀ attempt age draw w, 1 ≤ attempt → p.nextWait attempt age draw = .ok (some w) →
    w.inBroker = true → ∃ rungs, p.brokerRungs = .ok rungs ∧ w.delay ∈ rungs
  reached : ∀ rungs, p.brokerRungs = .ok rungs → ∀ d ∈ rungs, ∃ attempt, 1 ≤ attempt ∧
    ∀ age draw, (0 < p.maxMessageAge → age < p.maxMessageAge) →
      p.nextWait attempt age draw = .ok (some ⟨d, true⟩)

/-- A policy announces the schedule it runs exactly when every product is in
`timedelta`'s range and none above the ceiling is followed by one below it. -/
theorem announced_iff (p : RetryPolicy) : p.Announced ↔
    (∃ d, p.times (p.maxAttempts - 1).toNat p.initialDelay = .ok d) ∧
      p.Steady (p.maxAttempts - 1).toNat := by
  constructor
  · intro h
    obtain ⟨l, hl, hentry⟩ := h.entry
    obtain ⟨-, hrange, hentries⟩ := delays_ok hl
    refine ⟨hrange, fun hcap j k d e hj hjk hk hd he habove ↦ ?_⟩
    obtain ⟨d', hd', hdelay⟩ := hentry (k + 1) (by omega) (by omega)
    obtain ⟨e', he', hentry'⟩ := hentries k hk
    obtain rfl : e = e' := by rwa [he, Except.ok.injEq] at he'
    have hk' : ((k : ℤ) + 1 - 1).toNat = k := by omega
    rw [hk'] at hd'
    rw [unjittered_eq, hk', backOff_eq_maxDelay hj hjk hd hcap habove, Except.map, capped_maxDelay,
      Except.ok.injEq] at hdelay
    rw [hentry', Option.some.injEq, ← hdelay] at hd'
    unfold capped at hd'
    split at hd'
    · exact (‹0 < p.maxDelay ∧ p.maxDelay < e›).2.le
    · exact hd'.ge
  · rintro ⟨⟨d, hrange⟩, hsteady⟩
    obtain ⟨l, hl⟩ : ∃ l, p.schedule = .ok l := delays_of_times hrange
    constructor
    case entry => exact ⟨l, hl, fun attempt hone hlast ↦ unjittered_of_steady hl hone hlast hsteady⟩
    case declared =>
      intro attempt age draw w hone hw hbroker
      obtain ⟨d, hd, hdelay⟩ := unjittered_mem hl hone (nextWait_some hw).1
      rw [nextWait_inBroker hw hbroker, Except.ok.injEq] at hdelay
      refine ⟨_, brokerRungs_of_schedule hl, ?_⟩
      rw [mem_brokerRungs hl (brokerRungs_of_schedule hl), hdelay]
      exact ⟨hd, hdelay ▸ (nextWait_some hw).2 hbroker⟩
    case reached =>
      intro rungs hrungs d hd
      obtain ⟨hmem, hbroker⟩ := (mem_brokerRungs hl hrungs).mp hd
      obtain ⟨k, hk, hget⟩ := List.getElem_of_mem hmem
      rw [(delays_ok hl).1] at hk
      have hk' : ((k : ℤ) + 1 - 1).toNat = k := by omega
      have hone : 1 ≤ (k : ℤ) + 1 := by omega
      obtain ⟨d', hd', hdelay⟩ := unjittered_of_steady hl hone (by omega) hsteady
      rw [hk', List.getElem?_eq_some_iff] at hd'
      obtain ⟨_, hd'⟩ := hd'
      obtain rfl : d = d' := hget.symm.trans hd'
      exact ⟨k + 1, hone, fun age draw hage ↦
        nextWait_of_waitsInBroker (by omega) hage hdelay hbroker⟩

/-- Half as long each time, under a ceiling of ten seconds: the last delay that
is announced is shorter than the ceiling, and the ceiling is what is used. -/
theorem not_announced_shrinking :
    let p : RetryPolicy := ⟨6, 100000000, 1 / 2, 10000000, 0, 0, defaultBrokerWaitThreshold⟩
    p.schedule = .ok [10000000, 10000000, 10000000, 10000000, 6250000] ∧
      p.unjittered 5 = .ok 10000000 ∧ ¬p.Announced := by
  intro p
  have hschedule : p.schedule = .ok [10000000, 10000000, 10000000, 10000000, 6250000] := by decide +kernel
  have hdelay : p.unjittered 5 = .ok 10000000 := by decide +kernel
  refine ⟨hschedule, hdelay, fun h ↦ ?_⟩
  obtain ⟨l, hl, hentry⟩ := h.entry
  obtain ⟨d, hd, hused⟩ := hentry 5 (by decide) (by decide)
  rw [hschedule, Except.ok.injEq] at hl
  rw [hdelay, Except.ok.injEq] at hused
  subst hl hused
  exact absurd hd (by decide)

end RetryPolicy

end AcemqAmqp
