import Mathlib.Data.Int.Log
import Mathlib.Data.Rat.Floor
import Mathlib.Tactic.Linarith
import Mathlib.Tactic.Positivity
import Mathlib.Tactic.Ring

/-!
# Rounding rationals to double precision

A double is a rational with 53 significant bits; an arithmetic operation on
doubles is the exact operation followed by `binary64`.  The exponent is left
unbounded, which is exact for every magnitude between the smallest normal
double and the largest finite one; `double?` is the double itself, at the two
ends as well.

Ties go to even throughout, both for the significand and for `round`.
-/

namespace Binary64

/-- Round to the nearest integer, ties to even. -/
def roundHalfEven (x : ℚ) : ℤ :=
  if x - ⌊x⌋ < 1 / 2 then ⌊x⌋
  else if 1 / 2 < x - ⌊x⌋ then ⌊x⌋ + 1
  else if Even ⌊x⌋ then ⌊x⌋ else ⌊x⌋ + 1

/-- Drop the fraction, towards zero. -/
def truncate (x : ℚ) : ℤ := if 0 ≤ x then ⌊x⌋ else ⌈x⌉

/-- The weight of the last significant bit of a double of the size of `x`. -/
def ulp (x : ℚ) : ℚ := 2 ^ (Int.log 2 |x| - 52)

def binary64 (x : ℚ) : ℚ := if x = 0 then 0 else roundHalfEven (x / ulp x) * ulp x

@[simp] theorem roundHalfEven_intCast (n : ℤ) : roundHalfEven n = n := by
  simp [roundHalfEven]

@[simp] theorem roundHalfEven_zero : roundHalfEven 0 = 0 := by
  simpa using roundHalfEven_intCast 0

theorem abs_roundHalfEven_sub_le (x : ℚ) : |(roundHalfEven x : ℚ) - x| ≤ 1 / 2 := by
  have hfloor := Int.floor_le x
  have hlt := Int.lt_floor_add_one x
  rw [abs_le]
  unfold roundHalfEven
  split_ifs <;> push_cast <;> constructor <;> linarith

theorem roundHalfEven_eq_floor_or (x : ℚ) :
    roundHalfEven x = ⌊x⌋ ∨ roundHalfEven x = ⌊x⌋ + 1 := by
  unfold roundHalfEven
  split_ifs <;> simp

theorem roundHalfEven_eq_of_abs_sub_lt {x : ℚ} {n : ℤ} (h : |x - n| < 1 / 2) :
    roundHalfEven x = n := by
  have hround := abs_roundHalfEven_sub_le x
  rw [abs_lt] at h
  rw [abs_le] at hround
  have hlt : (roundHalfEven x : ℚ) < n + 1 := by linarith
  have hgt : (n : ℚ) < roundHalfEven x + 1 := by linarith
  have hlt' : roundHalfEven x < n + 1 := by exact_mod_cast hlt
  have hgt' : n < roundHalfEven x + 1 := by exact_mod_cast hgt
  omega

theorem roundHalfEven_mono {x y : ℚ} (hxy : x ≤ y) : roundHalfEven x ≤ roundHalfEven y := by
  have hfloor : ⌊x⌋ ≤ ⌊y⌋ := Int.floor_mono hxy
  rcases hfloor.lt_or_eq with hlt | heq
  · rcases roundHalfEven_eq_floor_or x with hx | hx <;>
      rcases roundHalfEven_eq_floor_or y with hy | hy <;> omega
  · unfold roundHalfEven
    rw [heq]
    split_ifs <;> first | omega | (exfalso; linarith)

theorem roundHalfEven_neg (x : ℚ) : roundHalfEven (-x) = -roundHalfEven x := by
  by_cases hx : x = ⌊x⌋
  · rw [hx, ← Int.cast_neg, roundHalfEven_intCast, roundHalfEven_intCast]
  · have hceil : ⌈x⌉ = ⌊x⌋ + 1 := by
      rw [Int.ceil_eq_iff]
      push_cast
      exact ⟨by simpa using lt_of_le_of_ne (Int.floor_le x) (Ne.symm hx),
        (Int.lt_floor_add_one x).le⟩
    have hfloor : ⌊-x⌋ = -⌊x⌋ - 1 := by
      rw [Int.floor_neg, hceil]
      ring
    have heven : Even (-⌊x⌋ - 1) ↔ ¬Even ⌊x⌋ := by
      rw [Int.even_sub_one, even_neg]
    unfold roundHalfEven
    rw [hfloor]
    simp only [heven]
    push_cast
    split_ifs <;> first | omega | (exfalso; linarith)

theorem truncate_mono {x y : ℚ} (hxy : x ≤ y) : truncate x ≤ truncate y := by
  unfold truncate
  split_ifs with hx hy hy
  · exact Int.floor_mono hxy
  · exact absurd (hx.trans hxy) hy
  · exact (Int.ceil_le.mpr (by exact_mod_cast (not_le.mp hx).le)).trans (Int.floor_nonneg.mpr hy)
  · exact Int.ceil_mono hxy

theorem ulp_pos (x : ℚ) : 0 < ulp x := zpow_pos two_pos _

@[simp] theorem ulp_neg (x : ℚ) : ulp (-x) = ulp x := by simp [ulp]

@[simp] theorem binary64_zero : binary64 0 = 0 := by simp [binary64]

theorem binary64_neg (x : ℚ) : binary64 (-x) = -binary64 x := by
  by_cases hx : x = 0
  · simp [hx]
  · simp [binary64, hx, neg_div, roundHalfEven_neg]

theorem binary64_nonneg {x : ℚ} (hx : 0 ≤ x) : 0 ≤ binary64 x := by
  unfold binary64
  split_ifs
  · exact le_rfl
  · have h : roundHalfEven 0 ≤ roundHalfEven (x / ulp x) :=
      roundHalfEven_mono (div_nonneg hx (ulp_pos x).le)
    rw [roundHalfEven_zero] at h
    exact mul_nonneg (by exact_mod_cast h) (ulp_pos x).le

/-- Rounding a number below `2 ^ k` moves it by at most half its last bit. -/
theorem abs_binary64_sub_le {x : ℚ} {k : ℤ} (h : |x| < 2 ^ k) :
    |binary64 x - x| ≤ 2 ^ (k - 54) := by
  by_cases hx : x = 0
  · simp only [hx, binary64_zero, sub_zero, abs_zero]
    exact (zpow_pos two_pos _).le
  · have hulp := ulp_pos x
    have hlog : Int.log 2 |x| ≤ k - 1 := by
      have hlt := (Int.lt_zpow_iff_log_lt (b := 2) one_lt_two (abs_pos.mpr hx)).mp h
      omega
    have hscale : binary64 x - x = (roundHalfEven (x / ulp x) - x / ulp x) * ulp x := by
      rw [binary64, if_neg hx, sub_mul, div_mul_cancel₀ x hulp.ne']
    calc |binary64 x - x| = |(roundHalfEven (x / ulp x) : ℚ) - x / ulp x| * ulp x := by
          rw [hscale, abs_mul, abs_of_pos hulp]
      _ ≤ 1 / 2 * ulp x :=
          mul_le_mul_of_nonneg_right (abs_roundHalfEven_sub_le _) hulp.le
      _ ≤ 1 / 2 * 2 ^ (k - 1 - 52) := by
          refine mul_le_mul_of_nonneg_left ?_ (by norm_num)
          exact zpow_le_zpow_right₀ one_le_two (by omega)
      _ = 2 ^ (k - 54) := by
          rw [show k - 1 - 52 = k - 54 + 1 by ring, zpow_add_one₀ two_ne_zero]
          ring

theorem abs_sub_truncate_lt (x : ℚ) : |x - truncate x| < 1 := by
  have hfloor := Int.floor_le x
  have hlt := Int.lt_floor_add_one x
  have hceil := Int.le_ceil x
  have hceil' := Int.ceil_lt_add_one x
  rw [abs_lt]
  unfold truncate
  split_ifs <;> constructor <;> linarith

private theorem two_zpow_split (z : ℤ) : (2 : ℚ) ^ z = 2 ^ (52 : ℕ) * 2 ^ (z - 52) := by
  rw [← zpow_natCast, ← zpow_add₀ two_ne_zero]
  congr 1
  ring

/-- A positive number rounds into the binade it lies in, or onto its upper end. -/
theorem binary64_mem_binade {x : ℚ} (hx : 0 < x) :
    2 ^ Int.log 2 x ≤ binary64 x ∧ binary64 x ≤ 2 ^ (Int.log 2 x + 1) := by
  have hulp : ulp x = 2 ^ (Int.log 2 x - 52) := by rw [ulp, abs_of_pos hx]
  have hpos := ulp_pos x
  have hlow : ((2 ^ 52 : ℤ) : ℚ) ≤ x / ulp x := by
    rw [le_div_iff₀ hpos, hulp]
    have h := Int.zpow_log_le_self (b := 2) one_lt_two hx
    rw [Nat.cast_ofNat, two_zpow_split] at h
    exact_mod_cast h
  have hhigh : x / ulp x ≤ ((2 ^ 53 : ℤ) : ℚ) := by
    rw [div_le_iff₀ hpos, hulp]
    have h := (Int.lt_zpow_succ_log_self (b := 2) one_lt_two x).le
    rw [Nat.cast_ofNat, two_zpow_split, show Int.log 2 x + 1 - 52 = Int.log 2 x - 52 + 1 by ring,
      zpow_add_one₀ two_ne_zero] at h
    calc x ≤ _ := h
      _ = _ := by push_cast; ring
  have hlow' := roundHalfEven_mono hlow
  have hhigh' := roundHalfEven_mono hhigh
  rw [roundHalfEven_intCast] at hlow' hhigh'
  rw [binary64, if_neg hx.ne']
  constructor
  · rw [two_zpow_split, ← hulp]
    exact mul_le_mul_of_nonneg_right (by exact_mod_cast hlow') hpos.le
  · rw [zpow_add_one₀ two_ne_zero, two_zpow_split, ← hulp]
    calc (roundHalfEven (x / ulp x) : ℚ) * ulp x ≤ 2 ^ 53 * ulp x :=
          mul_le_mul_of_nonneg_right (by exact_mod_cast hhigh') hpos.le
      _ = _ := by ring

private theorem binary64_mono_pos {x y : ℚ} (hx : 0 < x) (hxy : x ≤ y) :
    binary64 x ≤ binary64 y := by
  have hy : 0 < y := hx.trans_le hxy
  rcases (Int.log_mono_right (b := 2) hx hxy).lt_or_eq with hlt | heq
  · calc binary64 x ≤ 2 ^ (Int.log 2 x + 1) := (binary64_mem_binade hx).2
      _ ≤ 2 ^ Int.log 2 y := zpow_le_zpow_right₀ one_le_two hlt
      _ ≤ binary64 y := (binary64_mem_binade hy).1
  · have hulp : ulp x = ulp y := by rw [ulp, ulp, abs_of_pos hx, abs_of_pos hy, heq]
    rw [binary64, binary64, if_neg hx.ne', if_neg hy.ne', hulp]
    refine mul_le_mul_of_nonneg_right ?_ (ulp_pos y).le
    exact_mod_cast roundHalfEven_mono (div_le_div_of_nonneg_right hxy (ulp_pos y).le)

/-- A number whose double is below `2 ^ k` is itself below `2 ^ k`. -/
theorem abs_lt_of_abs_binary64_lt {x : ℚ} {k : ℤ} (h : |binary64 x| < 2 ^ k) : |x| < 2 ^ k := by
  wlog hx : 0 ≤ x generalizing x
  · have hneg := this (x := -x) (by rwa [binary64_neg, abs_neg]) (by linarith)
    rwa [abs_neg] at hneg
  · rw [abs_of_nonneg (binary64_nonneg hx)] at h
    rw [abs_of_nonneg hx]
    by_contra hge
    have hpos : (0 : ℚ) < 2 ^ k := zpow_pos two_pos _
    have hx' : 0 < x := hpos.trans_le (not_lt.mp hge)
    have hlog : k ≤ Int.log 2 x := by
      have hle := (Int.zpow_le_iff_le_log (b := 2) one_lt_two hx').mp (by exact_mod_cast not_lt.mp hge)
      exact hle
    have hlow := (binary64_mem_binade hx').1
    have hstep : (2 : ℚ) ^ k ≤ 2 ^ Int.log 2 x := zpow_le_zpow_right₀ one_le_two hlog
    linarith

theorem binary64_mono : Monotone binary64 := by
  intro x y hxy
  rcases lt_trichotomy x 0 with hx | rfl | hx
  · rcases lt_or_ge y 0 with hy | hy
    · have h := binary64_mono_pos (neg_pos.mpr hy) (neg_le_neg hxy)
      rwa [binary64_neg, binary64_neg, neg_le_neg_iff] at h
    · have h := binary64_nonneg (neg_nonneg.mpr hx.le)
      rw [binary64_neg, neg_nonneg] at h
      exact h.trans (binary64_nonneg hy)
  · simpa using binary64_nonneg hxy
  · exact binary64_mono_pos hx hxy

theorem log_of_mem_binade {x : ℚ} {n : ℤ} (h : 2 ^ n ≤ x) (h' : x < 2 ^ (n + 1)) :
    Int.log 2 x = n := by
  have hx : 0 < x := (zpow_pos two_pos n).trans_le h
  have hlow : n ≤ Int.log 2 x :=
    (Int.zpow_le_iff_le_log (b := 2) one_lt_two hx).mp (by exact_mod_cast h)
  have hhigh : Int.log 2 x < n + 1 :=
    (Int.lt_zpow_iff_log_lt (b := 2) one_lt_two hx).mp (by exact_mod_cast h')
  omega

/-- A number in a binade is rounded to a multiple of that binade's unit. -/
theorem binary64_of_mem_binade {x : ℚ} {n : ℤ} (h : 2 ^ n ≤ x) (h' : x < 2 ^ (n + 1)) :
    binary64 x = roundHalfEven (x / 2 ^ (n - 52)) * 2 ^ (n - 52) := by
  have hx : 0 < x := (zpow_pos two_pos n).trans_le h
  have hulp : ulp x = 2 ^ (n - 52) := by
    rw [ulp, abs_of_pos hx, log_of_mem_binade h h']
  rw [binary64, if_neg hx.ne', hulp]

/-- Integers of up to 53 bits are doubles. -/
theorem binary64_intCast {n : ℤ} (h : |n| < 2 ^ 53) : binary64 n = n := by
  by_cases hn : n = 0
  · simp [hn]
  · have hn' : (n : ℚ) ≠ 0 := by exact_mod_cast hn
    have habs : 0 < |(n : ℚ)| := abs_pos.mpr hn'
    have hone : (1 : ℚ) ≤ |(n : ℚ)| := by exact_mod_cast Int.one_le_abs hn
    have hlog : 0 ≤ Int.log 2 |(n : ℚ)| :=
      (Int.zpow_le_iff_le_log (b := 2) one_lt_two habs).mp (by simpa using hone)
    have hlog' : Int.log 2 |(n : ℚ)| < 53 := by
      refine (Int.lt_zpow_iff_log_lt (b := 2) one_lt_two habs).mp ?_
      have hlt : |(n : ℚ)| < ((2 ^ 53 : ℤ) : ℚ) := by exact_mod_cast h
      calc |(n : ℚ)| < _ := hlt
        _ = _ := by norm_num
    obtain ⟨k, hk⟩ := Int.eq_ofNat_of_zero_le (a := 52 - Int.log 2 |(n : ℚ)|) (by omega)
    have hdiv : (n : ℚ) / ulp n = ((n * 2 ^ k : ℤ) : ℚ) := by
      rw [ulp, show Int.log 2 |(n : ℚ)| - 52 = -(k : ℤ) by omega, zpow_neg, div_inv_eq_mul]
      push_cast
      rw [zpow_natCast]
    rw [binary64, if_neg hn', hdiv, roundHalfEven_intCast, ← hdiv, div_mul_cancel₀ _ (ulp_pos _).ne']

/-! ## The ends of the range -/

/-- The double nearest to a number, which is none beyond the largest.  Below the smallest normal
double the last bit has one weight. -/
def double? (x : ℚ) : Option ℚ :=
  let last : ℚ := 2 ^ (-1074 : ℤ)
  let rounded := if |x| < 2 ^ (-1022 : ℤ) then roundHalfEven (x / last) * last else binary64 x
  if |rounded| < 2 ^ (1024 : ℤ) then some rounded else none

/-- Half of the last bit beyond the largest double: from here on there is no nearest one. -/
def bound : ℤ := 2 ^ 1024 - 2 ^ 970

theorem bound_cast : (bound : ℚ) = 2 ^ (971 : ℤ) * (2 ^ 53 - 1 / 2) := by
  have hcast : (bound : ℚ) = 2 ^ (1024 : ℤ) - 2 ^ (970 : ℤ) := by
    rw [bound, Int.cast_sub, Int.cast_pow, Int.cast_pow]
    exact congrArg₂ (· - ·) (zpow_natCast _ 1024).symm (zpow_natCast _ 970).symm
  have hhigh : (2 : ℚ) ^ (1024 : ℤ) = 2 ^ (971 : ℤ) * 2 ^ 53 := by
    rw [← zpow_natCast, ← zpow_add₀ two_ne_zero]
    rfl
  have hlow : (2 : ℚ) ^ (971 : ℤ) = 2 ^ (970 : ℤ) * 2 := zpow_add_one₀ two_ne_zero 970
  rw [hcast, hhigh, hlow]
  ring

theorem one_lt_bound : 1 < bound := by
  have hpow : (1 : ℚ) ≤ 2 ^ (971 : ℤ) := one_le_zpow₀ one_le_two (by norm_num)
  have hcast : ((1 : ℤ) : ℚ) < bound := by
    rw [bound_cast]
    calc ((1 : ℤ) : ℚ) < 2 ^ 53 - 1 / 2 := by norm_num
      _ ≤ 2 ^ (971 : ℤ) * (2 ^ 53 - 1 / 2) := le_mul_of_one_le_left (by norm_num) hpow
  exact Int.cast_lt.mp hcast

/-- Half of the way to an even number is rounded up to it. -/
theorem roundHalfEven_lt_iff {x : ℚ} {n : ℤ} (hn : Even n) : roundHalfEven x < n ↔ x < n - 1 / 2 := by
  constructor
  · intro h
    by_contra hge
    have htie : roundHalfEven ((n : ℚ) - 1 / 2) = n := by
      have hfloor : ⌊(n : ℚ) - 1 / 2⌋ = n - 1 := by
        rw [Int.floor_eq_iff]
        push_cast
        constructor <;> linarith
      have hodd : ¬Even (n - 1) := by
        rw [Int.even_sub_one, not_not]
        exact hn
      rw [roundHalfEven, hfloor, if_neg hodd]
      push_cast
      rw [if_neg (by linarith), if_neg (by linarith)]
      ring
    have hmono := roundHalfEven_mono (not_lt.mp hge)
    omega
  · intro h
    obtain ⟨-, hround⟩ := abs_le.mp (abs_roundHalfEven_sub_le x)
    have hlt : (roundHalfEven x : ℚ) < n := by linarith
    exact_mod_cast hlt

/-- A positive number is rounded to one of the range exactly when it is below the bound. -/
theorem binary64_lt_iff {x : ℚ} (hx : 0 < x) : binary64 x < 2 ^ (1024 : ℤ) ↔ x < bound := by
  have hpos : (0 : ℚ) < 2 ^ (971 : ℤ) := zpow_pos two_pos _
  have hhigh : (2 : ℚ) ^ (1024 : ℤ) = 2 ^ (971 : ℤ) * 2 ^ 53 := by
    rw [← zpow_natCast, ← zpow_add₀ two_ne_zero]
    rfl
  have hmiddle : (2 : ℚ) ^ (1023 : ℤ) = 2 ^ (971 : ℤ) * 2 ^ 52 := by
    rw [← zpow_natCast, ← zpow_add₀ two_ne_zero]
    rfl
  have hlow := Int.zpow_log_le_self (b := 2) one_lt_two hx
  have hup := Int.lt_zpow_succ_log_self (b := 2) one_lt_two x
  rw [Nat.cast_ofNat] at hlow hup
  obtain ⟨hround, hround'⟩ := binary64_mem_binade hx
  rcases lt_trichotomy (Int.log 2 x) 1023 with hlog | hlog | hlog
  · have hbinade : (2 : ℚ) ^ (Int.log 2 x + 1) ≤ 2 ^ (1023 : ℤ) := zpow_le_zpow_right₀ one_le_two (by omega)
    have hbound : (2 : ℚ) ^ (1023 : ℤ) < bound := by
      rw [bound_cast, hmiddle]
      exact mul_lt_mul_of_pos_left (by norm_num) hpos
    refine iff_of_true ?_ (hup.trans_le hbinade |>.trans hbound)
    refine (hround'.trans hbinade).trans_lt ?_
    rw [hmiddle, hhigh]
    exact mul_lt_mul_of_pos_left (by norm_num) hpos
  · rw [hlog] at hlow hup
    rw [binary64_of_mem_binade hlow hup, bound_cast, hhigh, show (1023 : ℤ) - 52 = 971 by norm_num,
      mul_comm, mul_lt_mul_iff_right₀ hpos, ← div_lt_iff₀' hpos]
    have hround := @roundHalfEven_lt_iff (x / 2 ^ (971 : ℤ)) (2 ^ 53) (by decide)
    rw [← @Int.cast_lt ℚ, Int.cast_pow, Int.cast_ofNat] at hround
    exact hround
  · have hbinade : (2 : ℚ) ^ (1024 : ℤ) ≤ 2 ^ Int.log 2 x := zpow_le_zpow_right₀ one_le_two (by omega)
    have hbound : (bound : ℚ) < 2 ^ (1024 : ℤ) := by
      rw [bound_cast, hhigh]
      exact mul_lt_mul_of_pos_left (by norm_num) hpos
    exact iff_of_false (not_lt.mpr (hbinade.trans hround)) (not_lt.mpr (hbound.le.trans (hbinade.trans hlow)))

/-- The integers that have a double. -/
theorem isSome_double?_iff {n : ℤ} (hn : 1 ≤ n) : (double? n).isSome = true ↔ n < bound := by
  have hpos : (0 : ℚ) < n := by exact_mod_cast hn
  have hnormal : ¬|(n : ℚ)| < 2 ^ (-1022 : ℤ) := by
    rw [abs_of_pos hpos, not_lt]
    calc (2 : ℚ) ^ (-1022 : ℤ) ≤ 1 := zpow_le_one_of_nonpos₀ one_le_two (by norm_num)
      _ ≤ n := by exact_mod_cast hn
  unfold double?
  dsimp only
  rw [if_neg hnormal, Option.isSome_ite, abs_of_nonneg (binary64_nonneg hpos.le), binary64_lt_iff hpos,
    Int.cast_lt]

end Binary64
