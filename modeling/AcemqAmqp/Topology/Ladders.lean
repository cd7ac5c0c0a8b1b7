import AcemqAmqp.Topology.Failures
import Mathlib.Logic.Function.Iterate

/-!
# Ladders that are too long to declare

The loop of `schedule` multiplies the delay that is not capped, and once more
than it lists.  A policy whose waits are all short can so run out of
`timedelta`'s range, and then no rung of it is declared.
-/

namespace AcemqAmqp

open Binary64 Fallible

/-- The first length of time above the largest `timedelta`. -/
def beyondTimedelta : Duration := (maxDays + 1) * 86400000000

/-- A delay multiplied `k` times, every product rounded to the microsecond. -/
def compounded (multiplier : ℚ) (k : ℕ) (delay : Duration) : Duration :=
  (fun delay : Duration ↦ roundHalfEven (delay * multiplier))^[k] delay

section compounded

variable {m : ℚ} {k : ℕ} {delay : Duration}

theorem compounded_succ : compounded m (k + 1) delay = compounded m k (roundHalfEven (delay * m)) :=
  Function.iterate_succ_apply ..

theorem le_product (hm : 1 ≤ m) (hdelay : 0 ≤ delay) : delay ≤ roundHalfEven (delay * m) := by
  have hproduct : ((delay : ℤ) : ℚ) ≤ delay * m := le_mul_of_one_le_right (by exact_mod_cast hdelay) hm
  simpa using roundHalfEven_mono hproduct

theorem le_compounded (hm : 1 ≤ m) (hdelay : 0 ≤ delay) : delay ≤ compounded m k delay := by
  induction k generalizing delay with
  | zero => exact le_rfl
  | succ k ih =>
      rw [compounded_succ]
      have hle := le_product hm hdelay
      exact hle.trans (ih (hdelay.trans hle))

/-- A product is representable when it is below a thousand million days. -/
theorem timesFloat_ok_iff (hm : 1 ≤ m) (hdelay : 0 ≤ delay) {longer : Duration} :
    timesFloat delay m = .ok longer ↔
      longer = roundHalfEven (delay * m) ∧ roundHalfEven (delay * m) < beyondTimedelta := by
  have hnonneg : (0 : ℤ) ≤ roundHalfEven (delay * m) := hdelay.trans (le_product hm hdelay)
  have hrange : ((roundHalfEven (delay * m) / 86400000000).natAbs : ℤ) ≤ maxDays ↔
      roundHalfEven (delay * m) < beyondTimedelta := by
    unfold beyondTimedelta maxDays
    omega
  simp only [timesFloat, hrange]
  split
  · rename_i hlow
    rw [Except.ok.injEq, eq_comm, and_iff_left hlow]
  · rename_i hhigh
    simp [hhigh]

end compounded

namespace RetryPolicy

variable {p : RetryPolicy}

theorem times_ok_iff (hm : 1 ≤ p.multiplier) {k : ℕ} {delay : Duration} (hdelay : 0 ≤ delay)
    (hlow : delay < beyondTimedelta) :
    (∃ d, p.times k delay = .ok d) ↔ compounded p.multiplier k delay < beyondTimedelta := by
  induction k generalizing delay with
  | zero => exact ⟨fun _ ↦ hlow, fun _ ↦ ⟨delay, rfl⟩⟩
  | succ k ih =>
      have hnonneg := hdelay.trans (le_product hm hdelay)
      rw [compounded_succ]
      constructor
      · rintro ⟨d, hd⟩
        obtain ⟨longer, hlonger, hrest⟩ := times_succ_ok_iff.mp hd
        obtain ⟨rfl, hbelow⟩ := (timesFloat_ok_iff hm hdelay).mp hlonger
        exact (ih hnonneg hbelow).mp ⟨d, hrest⟩
      · intro hbelow
        have hproduct := (le_compounded hm hnonneg).trans_lt hbelow
        obtain ⟨d, hd⟩ := (ih hnonneg hproduct).mpr hbelow
        exact ⟨d, times_succ_ok_iff.mpr ⟨_, (timesFloat_ok_iff hm hdelay).mpr ⟨rfl, hproduct⟩, hd⟩⟩

theorem capped_le (hcap : 0 < p.maxDelay) (delay : Duration) : p.capped delay ≤ p.maxDelay := by
  unfold capped
  split
  · exact le_rfl
  · rename_i hlow
    exact not_lt.mp fun hlt ↦ hlow ⟨hcap, hlt⟩

/-- Nothing the policy announces is above its ceiling, and a consumer or a
topology with the policy declares its rungs. -/
structure Declares (p : RetryPolicy) : Prop where
  schedule : ∃ delays, p.schedule = .ok delays ∧ ∀ d ∈ delays, d ≤ p.maxDelay
  rungs : ∃ rungs, p.brokerRungs = .ok rungs ∧ ∀ d ∈ rungs, d ≤ p.maxDelay
  consumer : ∀ queue, (declareWhereFailuresGo queue (some p)).2 = .ok ()
  topology : ∀ (t : Topology) name (o : Topology.QueueOptions) arguments, o.retry = some p →
    Topology.queueArguments name o = .ok arguments → (t.queue name o).1 = .ok ()

/-- A capped policy declares its rungs exactly when its initial delay,
compounded over all its attempts and not capped, is still a `timedelta`. -/
theorem declares_iff (p : RetryPolicy) (hcap : 0 < p.maxDelay) (hmax : p.maxDelay < beyondTimedelta)
    (hinitial : 0 ≤ p.initialDelay) (hbelow : p.initialDelay ≤ p.maxDelay) (hm : 1 ≤ p.multiplier) :
    p.Declares ↔
      compounded p.multiplier (p.maxAttempts - 1).toNat p.initialDelay < beyondTimedelta := by
  rw [← times_ok_iff hm hinitial (hbelow.trans_lt hmax)]
  constructor
  · rintro ⟨⟨delays, hdelays, -⟩, -⟩
    exact (delays_ok hdelays).2.1
  · rintro ⟨d, hd⟩
    obtain ⟨delays, hdelays⟩ : ∃ delays, p.schedule = .ok delays := delays_of_times hd
    have hrungs := brokerRungs_of_schedule hdelays
    have hle : ∀ d ∈ delays, d ≤ p.maxDelay := by
      intro d hmem
      obtain ⟨k, hk, rfl⟩ := List.getElem_of_mem hmem
      obtain ⟨hlength, -, hentries⟩ := delays_ok hdelays
      obtain ⟨e, -, hentry⟩ := hentries k (hlength ▸ hk)
      obtain ⟨_, hvalue⟩ := List.getElem?_eq_some_iff.mp hentry
      exact hvalue ▸ capped_le hcap e
    constructor
    case schedule => exact ⟨delays, hdelays, hle⟩
    case rungs => exact ⟨_, hrungs, fun d hmem ↦ hle d ((mem_brokerRungs hdelays hrungs).mp hmem).1⟩
    case consumer =>
      intro queue
      rw [declareWhereFailuresGo_of_rungs hrungs]
    case topology =>
      intro t name o arguments hretry harguments
      simp only [Topology.queue, harguments, hretry, hrungs]

/-- Four doublings of a second under a ceiling of a minute. -/
theorem declares_iff_short :
    let p : RetryPolicy := ⟨5, 1000000, 2, 60000000, 0, 0, defaultBrokerWaitThreshold⟩
    p.Declares ↔ compounded p.multiplier (p.maxAttempts - 1).toNat p.initialDelay < beyondTimedelta :=
  declares_iff _ (by decide) (by decide) (by decide) (by decide) (by decide +kernel)

/-- With 48 attempts no wait is longer than a minute, and no rung is declared. -/
theorem not_declares_long :
    let p : RetryPolicy := ⟨48, 1000000, 2, 60000000, 0, 0, defaultBrokerWaitThreshold⟩
    (0 < p.maxDelay ∧ p.maxDelay < beyondTimedelta ∧ 0 ≤ p.initialDelay ∧ p.initialDelay ≤ p.maxDelay ∧
      1 ≤ p.multiplier) ∧
      (∃ overflow, p.schedule = .error overflow ∧ p.brokerRungs = .error overflow ∧
        overflow.typeName = "OverflowError" ∧
        declareWhereFailuresGo "orders" (some p) = (declareDeadLetters "orders", .error overflow)) ∧
      ¬p.Declares := by
  intro p
  have hschedule : p.schedule = .error ⟨.exception, "OverflowError",
      "days=1628906115; must have magnitude <= 999999999"⟩ := by decide +kernel
  have hrungs : p.brokerRungs = .error ⟨.exception, "OverflowError",
      "days=1628906115; must have magnitude <= 999999999"⟩ := by
    rw [brokerRungs, hschedule]
    rfl
  refine ⟨⟨by decide, by decide, by decide, by decide, by decide +kernel⟩,
    ⟨_, hschedule, hrungs, rfl, ?_⟩, fun h ↦ ?_⟩
  · rw [declareWhereFailuresGo, longWaits, hrungs]
  · obtain ⟨delays, hdelays, -⟩ := h.schedule
    rw [hschedule] at hdelays
    cases hdelays

end RetryPolicy

end AcemqAmqp
