import AcemqAmqp.Core.Failure

/-!
# When to try again, and where to wait

The arithmetic of a retry policy.  A delay is multiplied as Python multiplies a
`timedelta` by a float: exactly, rounded half to even, and refused when the
product needs more than 999999999 days.
-/

namespace AcemqAmqp

open Binary64

/-- The largest number of whole days a `timedelta` has, in either direction. -/
def maxDays : ℤ := 999999999

/-- `delay * factor`. -/
def timesFloat (delay : Duration) (factor : ℚ) : Except Failure Duration :=
  let product := roundHalfEven (delay * factor)
  let days := product / 86400000000
  if days.natAbs ≤ maxDays then .ok product
  else .error ⟨.exception, "OverflowError",
    "days=" ++ toString days ++ "; must have magnitude <= 999999999"⟩

/-- How long before the next attempt, and where the message spends it. -/
structure Wait where
  delay : Duration
  inBroker : Bool
  deriving DecidableEq

structure RetryPolicy where
  maxAttempts : ℤ
  initialDelay : Duration
  multiplier : ℚ
  maxDelay : Duration
  jitterFactor : ℚ
  maxMessageAge : Duration
  brokerWaitThreshold : Duration

/-- `DEFAULT_BROKER_WAIT_THRESHOLD`. -/
def defaultBrokerWaitThreshold : Duration := 30000000

/-- `fixed_retry`. -/
def fixedRetry (maxAttempts : ℤ) (delay : Duration) : RetryPolicy where
  maxAttempts := maxAttempts
  initialDelay := delay
  multiplier := 1
  maxDelay := 0
  jitterFactor := 0
  maxMessageAge := 0
  brokerWaitThreshold := defaultBrokerWaitThreshold

namespace RetryPolicy

variable (p : RetryPolicy)

/-- Whether a wait of this length belongs on a rung queue. -/
def waitsInBroker (delay : Duration) : Bool :=
  0 < p.brokerWaitThreshold ∧ 0 < delay ∧ p.brokerWaitThreshold ≤ delay

/-- The loop of `_unjittered`, with the rounds it still has to go. -/
def backOff : ℕ → Duration → Except Failure Duration
  | 0, delay => .ok delay
  | rounds + 1, delay =>
      match timesFloat delay p.multiplier with
      | .error e => .error e
      | .ok longer =>
          if 0 < p.maxDelay ∧ p.maxDelay < longer then .ok p.maxDelay else backOff rounds longer

/-- The delay after `attempt`, before jitter and before the threshold. -/
def unjittered (attempt : ℤ) : Except Failure Duration :=
  match p.backOff (attempt - 1).toNat p.initialDelay with
  | .error e => .error e
  | .ok delay => .ok (if 0 < p.maxDelay ∧ p.maxDelay < delay then p.maxDelay else delay)

/-- How far jitter moves a delay.  `draw` is what `random.random()` answers. -/
def jitter (draw : ℚ) : ℚ :=
  binary64 (1 + binary64 (binary64 (binary64 (draw * 2) - 1) * p.jitterFactor))

/-- How long to wait before the next attempt, and where, or `none` to give up. -/
def nextWait (attempt : ℤ) (messageAge : Duration) (draw : ℚ) : Except Failure (Option Wait) :=
  if p.maxAttempts ≤ attempt then .ok none
  else if 0 < p.maxMessageAge ∧ p.maxMessageAge ≤ messageAge then .ok none
  else
    match p.unjittered attempt with
    | .error e => .error e
    | .ok delay =>
        if p.waitsInBroker delay then .ok (some ⟨delay, true⟩)
        else if 0 < p.jitterFactor ∧ 0 < delay then
          match timesFloat delay (p.jitter draw) with
          | .error e => .error e
          | .ok moved => .ok (some ⟨max moved 0, false⟩)
        else .ok (some ⟨max delay 0, false⟩)

/-- The delay arithmetic never leaves `timedelta`'s range. -/
def InRange : Prop :=
  ∀ attempt messageAge draw, 0 ≤ draw → draw < 1 → ∃ w, p.nextWait attempt messageAge draw = .ok w

variable {p}

/-- Without an age limit the policy gives up exactly when the attempts are used. -/
theorem nextWait_eq_none_iff {attempt : ℤ} {messageAge : Duration} {draw : ℚ}
    (hage : p.maxMessageAge ≤ 0) :
    p.nextWait attempt messageAge draw = .ok none ↔ p.maxAttempts ≤ attempt := by
  constructor
  · intro h
    by_contra hlt
    rw [nextWait, if_neg hlt, if_neg fun hold ↦ not_lt.mpr hage hold.1] at h
    cases hdelay : p.unjittered attempt with
    | error e => simp [hdelay] at h
    | ok delay =>
        simp only [hdelay] at h
        split at h
        · simp at h
        · split at h
          · cases hmoved : timesFloat delay (p.jitter draw) with
            | error e => simp [hmoved] at h
            | ok moved => simp [hmoved] at h
          · simp at h
  · intro h
    rw [nextWait, if_pos h]

/-- A wait is granted only while there is an attempt left, and a wait in the
broker is one the threshold sends there. -/
theorem nextWait_some {attempt : ℤ} {messageAge : Duration} {draw : ℚ} {w : Wait}
    (h : p.nextWait attempt messageAge draw = .ok (some w)) :
    attempt < p.maxAttempts ∧ (w.inBroker = true → p.waitsInBroker w.delay = true) := by
  unfold nextWait at h
  split at h
  · simp at h
  · rename_i hleft
    refine ⟨not_le.mp hleft, fun hbroker ↦ ?_⟩
    split at h
    · simp at h
    · cases hdelay : p.unjittered attempt with
      | error e => simp [hdelay] at h
      | ok delay =>
          simp only [hdelay] at h
          split at h
          · obtain rfl : _ = w := by simpa using h
            assumption
          · split at h
            · cases hmoved : timesFloat delay (p.jitter draw) with
              | error e => simp [hmoved] at h
              | ok moved =>
                  obtain rfl : _ = w := by simpa [hmoved] using h
                  cases hbroker
            · obtain rfl : _ = w := by simpa using h
              cases hbroker

theorem backOff_one (h : p.multiplier = 1) (hmax : p.maxDelay ≤ 0) {delay : Duration}
    (hdelay : (delay / 86400000000).natAbs ≤ maxDays) (rounds : ℕ) :
    p.backOff rounds delay = .ok delay := by
  have htimes : timesFloat delay p.multiplier = .ok delay := by
    simp only [timesFloat, h, mul_one, roundHalfEven_intCast]
    exact if_pos hdelay
  induction rounds with
  | zero => rfl
  | succ rounds ih =>
      simp only [backOff, htimes]
      rw [if_neg fun hcap ↦ not_lt.mpr hmax hcap.1, ih]

/-- A fixed policy stays in range whenever its one delay does. -/
theorem fixedRetry_inRange {maxAttempts : ℤ} {delay : Duration}
    (hdelay : (delay / 86400000000).natAbs ≤ maxDays) : (fixedRetry maxAttempts delay).InRange := by
  intro attempt messageAge draw _ _
  have hwait : (fixedRetry maxAttempts delay).unjittered attempt = .ok delay := by
    have hback : (fixedRetry maxAttempts delay).backOff (attempt - 1).toNat delay = .ok delay :=
      backOff_one rfl (le_refl (0 : ℤ)) hdelay _
    have hinitial : (fixedRetry maxAttempts delay).initialDelay = delay := rfl
    rw [unjittered, hinitial, hback]
    simp [fixedRetry]
  unfold nextWait
  split
  · exact ⟨_, rfl⟩
  · split
    · exact ⟨_, rfl⟩
    · simp only [hwait]
      split
      · exact ⟨_, rfl⟩
      · rw [if_neg (by simp [fixedRetry])]
        exact ⟨_, rfl⟩

end RetryPolicy

end AcemqAmqp
