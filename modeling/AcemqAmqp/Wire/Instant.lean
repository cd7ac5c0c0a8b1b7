import AcemqAmqp.Foundations.Binary64

/-!
# Instants and durations

A `datetime` in UTC is a number of microseconds since 1970, and a `timedelta`
is a number of microseconds.  `timestamp` and `fromtimestamp` go through
doubles, as Python's do, and `fromtimestamp` fails outside the years 1 to 9999.
-/

namespace AcemqAmqp

open Binary64

/-- Microseconds since 1970-01-01T00:00:00Z. -/
abbrev Instant := ℤ

/-- Microseconds. -/
abbrev Duration := ℤ

namespace Instant

/-- 0001-01-01T00:00:00Z. -/
def min : Instant := -62135596800000000

/-- 9999-12-31T23:59:59.999999Z. -/
def max : Instant := 253402300799999999

/-- `when.timestamp()`. -/
def timestamp (when_ : Instant) : ℚ := binary64 ((when_ : ℚ) / 1000000)

/-- `datetime.fromtimestamp(t, timezone.utc)`: the whole seconds are exact, and
the fraction is rounded to a microsecond. -/
def fromtimestamp (t : ℚ) : Option Instant :=
  let seconds := truncate t
  let micros := seconds * 1000000 + roundHalfEven (binary64 ((t - seconds) * 1000000))
  if Instant.min ≤ micros ∧ micros ≤ Instant.max then some micros else none

theorem timestamp_mono {when_ later : Instant} (h : when_ ≤ later) : when_.timestamp ≤ later.timestamp :=
  binary64_mono (div_le_div_of_nonneg_right (by exact_mod_cast h) (by norm_num))

/-! ## The calendar -/

/-- Year, month and day of a day number, by 400-year eras that start in March. -/
def civil (day : ℤ) : ℤ × ℤ × ℤ :=
  let z := day + 719468
  let era := z / 146097
  let doe := z % 146097
  let yoe := (doe - doe / 1460 + doe / 36524 - doe / 146096) / 365
  let doy := doe - (365 * yoe + yoe / 4 - yoe / 100)
  let mp := (5 * doy + 2) / 153
  let month := if mp < 10 then mp + 3 else mp - 9
  (yoe + era * 400 + if month ≤ 2 then 1 else 0, month, doy - (153 * mp + 2) / 5 + 1)

/-- A number in decimal, padded with zeros on the left. -/
def padded (width : ℕ) (n : ℤ) : String :=
  let digits := (toString n.toNat).toList
  String.ofList (List.replicate (width - digits.length) '0' ++ digits)

/-- The date and the time to the second, with `between` between them. -/
def isoSeconds (between : String) (when_ : Instant) : String :=
  let (year, month, day) := civil (when_ / 86400000000)
  let second := when_ % 86400000000 / 1000000
  padded 4 year ++ "-" ++ padded 2 month ++ "-" ++ padded 2 day ++ between ++
    padded 2 (second / 3600) ++ ":" ++ padded 2 (second / 60 % 60) ++ ":" ++
    padded 2 (second % 60)

/-- `isoformat(timespec="milliseconds")` with its offset replaced by `Z`. -/
def isoMillis (when_ : Instant) : String :=
  isoSeconds "T" when_ ++ "." ++ padded 3 (when_ % 1000000 / 1000) ++ "Z"

/-- `str(when)`: microseconds only when there are any. -/
def str (when_ : Instant) : String :=
  let micros := when_ % 1000000
  isoSeconds " " when_ ++ (if micros = 0 then "" else "." ++ padded 6 micros) ++ "+00:00"

example : isoMillis 1770091445789123 = "2026-02-03T04:04:05.789Z" := by decide

end Instant

/-- `str(timedelta)`. -/
def Duration.str (d : Duration) : String :=
  let days := d / 86400000000
  let second := d % 86400000000 / 1000000
  let micros := d % 1000000
  (if days = 0 then "" else toString days ++ (if days.natAbs = 1 then " day, " else " days, ")) ++
    toString (second / 3600) ++ ":" ++ Instant.padded 2 (second / 60 % 60) ++ ":" ++
    Instant.padded 2 (second % 60) ++
    (if micros = 0 then "" else "." ++ Instant.padded 6 micros)

/-- `_millis`: an instant as epoch milliseconds, rounded. -/
def millis (when_ : Instant) : ℤ := roundHalfEven (binary64 (when_.timestamp * 1000))

/-- `_from_millis`. -/
def fromMillis (value : ℤ) : Option Instant := Instant.fromtimestamp (binary64 (value / 1000))

@[simp] theorem millis_zero : millis 0 = 0 := by simp [millis, Instant.timestamp]

theorem fromMillis_zero : fromMillis 0 = some 0 := by
  simp [fromMillis, Instant.fromtimestamp, truncate, Instant.min, Instant.max]

/-- The microseconds `fromtimestamp` counts, before it looks at the year. -/
def Instant.micros (t : ℚ) : ℤ :=
  truncate t * 1000000 + roundHalfEven (binary64 ((t - truncate t) * 1000000))

theorem Instant.fromtimestamp_eq (t : ℚ) : Instant.fromtimestamp t =
    if Instant.min ≤ Instant.micros t ∧ Instant.micros t ≤ Instant.max then
      some (Instant.micros t) else none := rfl

theorem Instant.abs_micros_sub_le (t : ℚ) : |(Instant.micros t : ℚ) - t * 1000000| ≤ 1 := by
  have htrunc := abs_sub_truncate_lt t
  have hfraction : |(t - truncate t) * 1000000| < 2 ^ (20 : ℤ) := by
    rw [abs_mul, abs_of_pos (by norm_num : (0 : ℚ) < 1000000)]
    norm_num
    linarith
  have hround := abs_roundHalfEven_sub_le (binary64 ((t - truncate t) * 1000000))
  have hbinary := abs_binary64_sub_le hfraction
  obtain ⟨hround, hround'⟩ := abs_le.mp hround
  obtain ⟨hbinary, hbinary'⟩ := abs_le.mp hbinary
  norm_num at hbinary hbinary'
  rw [abs_le, Instant.micros]
  push_cast
  constructor <;> linarith

/-- The microseconds `fromtimestamp` finds are within one of the exact ones. -/
theorem Instant.abs_fromtimestamp_sub_le {t : ℚ} {when_ : Instant}
    (h : Instant.fromtimestamp t = some when_) : |(when_ : ℚ) - t * 1000000| ≤ 1 := by
  rw [Instant.fromtimestamp_eq, Option.ite_none_right_eq_some, Option.some.injEq] at h
  obtain ⟨-, rfl⟩ := h
  exact Instant.abs_micros_sub_le t

/-- Reading milliseconds and writing them again changes nothing: the doubles
in between are off by far less than half a millisecond. -/
theorem millis_of_fromMillis {value : ℤ} {when_ : Instant} (h : fromMillis value = some when_) :
    millis when_ = value := by
  have hrange : Instant.min ≤ when_ ∧ when_ ≤ Instant.max := by
    simp only [fromMillis, Instant.fromtimestamp, Option.ite_none_right_eq_some,
      Option.some.injEq] at h
    exact h.2 ▸ h.1
  have hwhen : |(when_ : ℚ)| < 2 ^ (58 : ℤ) := by
    have hlow : (Instant.min : ℚ) ≤ when_ := by exact_mod_cast hrange.1
    have hhigh : (when_ : ℚ) ≤ Instant.max := by exact_mod_cast hrange.2
    norm_num [Instant.min, Instant.max] at hlow hhigh
    rw [abs_lt]
    norm_num
    constructor <;> linarith
  obtain ⟨hwhen, hwhen'⟩ := abs_lt.mp hwhen
  obtain ⟨hfrom, hfrom'⟩ := abs_le.mp (Instant.abs_fromtimestamp_sub_le h)
  norm_num at hwhen hwhen'
  -- the seconds that were read
  have hread : |binary64 ((value : ℚ) / 1000)| < 2 ^ (39 : ℤ) := by
    rw [abs_lt]
    norm_num
    constructor <;> linarith
  have hvalue := abs_lt_of_abs_binary64_lt hread
  obtain ⟨herror, herror'⟩ := abs_le.mp (abs_binary64_sub_le hvalue)
  -- the seconds that are written, and the milliseconds made of them
  have hseconds : |(when_ : ℚ) / 1000000| < 2 ^ (39 : ℤ) := by
    rw [abs_lt]
    norm_num
    constructor <;> linarith
  obtain ⟨hwritten, hwritten'⟩ := abs_le.mp (abs_binary64_sub_le hseconds)
  norm_num at herror herror' hwritten hwritten'
  have hmillis : |binary64 ((when_ : ℚ) / 1000000) * 1000| < 2 ^ (49 : ℤ) := by
    rw [abs_lt]
    norm_num
    constructor <;> linarith
  obtain ⟨hscaled, hscaled'⟩ := abs_le.mp (abs_binary64_sub_le hmillis)
  norm_num at hscaled hscaled'
  have hclose : |binary64 (binary64 ((when_ : ℚ) / 1000000) * 1000) - value| < 1 / 2 := by
    rw [abs_lt]
    constructor <;> linarith
  exact roundHalfEven_eq_of_abs_sub_lt hclose

theorem fromMillis_millis {value : ℤ} {when_ : Instant} (h : fromMillis value = some when_) :
    fromMillis (millis when_) = some when_ := by
  rw [millis_of_fromMillis h, h]

/-! ## The range of a `datetime` -/

theorem Instant.floor_le_micros {t : ℚ} (ht : 0 ≤ t) :
    ⌊t⌋ * 1000000 ≤ Instant.micros t := by
  have hfloor : truncate t = ⌊t⌋ := if_pos ht
  have hdown := Int.floor_le t
  have hfraction : 0 ≤ binary64 ((t - (⌊t⌋ : ℤ)) * 1000000) := binary64_nonneg (by linarith)
  have hround := roundHalfEven_mono hfraction
  rw [roundHalfEven_zero] at hround
  rw [Instant.micros, hfloor]
  omega

/-- A whole second before 1970 is not left downwards. -/
theorem Instant.le_micros_of_neg {t : ℚ} (ht : t < 0) {s : ℤ} (h : (s : ℚ) ≤ t) :
    s * 1000000 ≤ Instant.micros t := by
  have hceil : truncate t = ⌈t⌉ := if_neg ht.not_ge
  have hup := Int.le_ceil t
  have hle : s ≤ ⌈t⌉ := by exact_mod_cast h.trans hup
  rw [Instant.micros, hceil]
  rcases hle.eq_or_lt with rfl | hlt
  · have hzero : t - (⌈t⌉ : ℤ) = 0 := by linarith
    simp [hzero]
  · have hfraction : binary64 ((-1000000 : ℤ) : ℚ) ≤ binary64 ((t - (⌈t⌉ : ℤ)) * 1000000) := by
      refine binary64_mono ?_
      have hclose := Int.ceil_lt_add_one t
      push_cast
      linarith
    rw [binary64_intCast (by norm_num)] at hfraction
    have hround := roundHalfEven_mono hfraction
    rw [roundHalfEven_intCast] at hround
    omega

/-- The milliseconds `_from_millis` reads are those of the years 1 to 9999. -/
theorem isSome_fromMillis_iff {value : ℤ} :
    (fromMillis value).isSome = true ↔ -62135596800000 ≤ value ∧ value ≤ 253402300799999 := by
  have hspec : (fromMillis value).isSome = true ↔
      Instant.min ≤ Instant.micros (binary64 (value / 1000)) ∧
        Instant.micros (binary64 (value / 1000)) ≤ Instant.max := by
    rw [fromMillis, Instant.fromtimestamp_eq, Option.isSome_ite]
  have hmicros := abs_le.mp (Instant.abs_micros_sub_le (binary64 (value / 1000)))
  have hearliest : binary64 ((-62135596800 : ℤ) : ℚ) = (-62135596800 : ℤ) :=
    binary64_intCast (by norm_num)
  have hend : binary64 ((253402300800 : ℤ) : ℚ) = (253402300800 : ℤ) :=
    binary64_intCast (by norm_num)
  rw [hspec]
  constructor
  · rintro ⟨hmin, hmax⟩
    constructor
    · by_contra hlow
      have hvalue : (value : ℚ) ≤ -62135596800001 := by exact_mod_cast Int.le_of_lt_add_one (by omega)
      have hread := binary64_mono (show (value : ℚ) / 1000 ≤ -62135596800001 / 1000 by linarith)
      have hwritten : binary64 (-62135596800001 / 1000 : ℚ) ≤ -62135596800001 / 1000 + 1 / 2 ^ 18 := by
        have herror : |binary64 (-62135596800001 / 1000 : ℚ) - -62135596800001 / 1000| ≤ _ :=
          abs_binary64_sub_le (k := 36) (by rw [abs_of_neg] <;> norm_num)
        have hup := (abs_le.mp herror).2
        norm_num at hup ⊢
        linarith
      have hmin' : (Instant.min : ℚ) ≤ Instant.micros (binary64 (value / 1000)) := by exact_mod_cast hmin
      norm_num [Instant.min] at hmin' hmicros hread hwritten
      linarith [hmicros.2]
    · by_contra hhigh
      have hvalue : (253402300800000 : ℚ) ≤ value := by exact_mod_cast (by omega : (253402300800000 : ℤ) ≤ value)
      have hread := binary64_mono (show ((253402300800 : ℤ) : ℚ) ≤ value / 1000 by push_cast; linarith)
      rw [hend] at hread
      have hfloor := Instant.floor_le_micros (le_trans (by norm_num) hread)
      have hwhole : 253402300800 ≤ ⌊binary64 (value / 1000)⌋ := Int.le_floor.mpr hread
      change _ ≤ (253402300799999999 : ℤ) at hmax
      omega
  · rintro ⟨hlow, hhigh⟩
    constructor
    · rcases le_or_gt 0 (binary64 (value / 1000)) with ht | ht
      · have hfloor := Instant.floor_le_micros ht
        have hwhole : 0 ≤ ⌊binary64 (value / 1000)⌋ := Int.floor_nonneg.mpr ht
        change (-62135596800000000 : ℤ) ≤ _
        omega
      · have hvalue : (-62135596800000 : ℚ) ≤ value := by exact_mod_cast hlow
        have hread := binary64_mono (show ((-62135596800 : ℤ) : ℚ) ≤ value / 1000 by push_cast; linarith)
        rw [hearliest] at hread
        exact Instant.le_micros_of_neg ht hread
    · have hvalue : (value : ℚ) ≤ 253402300799999 := by exact_mod_cast hhigh
      have hread := binary64_mono (show (value : ℚ) / 1000 ≤ 253402300799999 / 1000 by linarith)
      have hwritten : binary64 (253402300799999 / 1000 : ℚ) ≤ 253402300799999 / 1000 + 1 / 2 ^ 16 := by
        have herror : |binary64 (253402300799999 / 1000 : ℚ) - 253402300799999 / 1000| ≤ _ :=
          abs_binary64_sub_le (k := 38) (by rw [abs_of_pos] <;> norm_num)
        have hup := (abs_le.mp herror).2
        norm_num at hup ⊢
        linarith
      have hlt : (Instant.micros (binary64 (value / 1000)) : ℚ) < ((Instant.max + 1 : ℤ) : ℚ) := by
        norm_num [Instant.max] at hread hwritten hmicros ⊢
        linarith [hmicros.2]
      exact Int.lt_add_one_iff.mp (by exact_mod_cast hlt)

/-! ## Whole milliseconds -/

/-- Writing a whole millisecond is exact. -/
theorem millis_whole {value : ℤ} (hlow : -62135596800000 ≤ value)
    (hhigh : value ≤ 253402300799999) : millis (value * 1000) = value := by
  have hlow' : (-62135596800000 : ℚ) ≤ value := by exact_mod_cast hlow
  have hhigh' : (value : ℚ) ≤ 253402300799999 := by exact_mod_cast hhigh
  have hseconds : (((value * 1000 : ℤ) : ℚ) / 1000000) = value / 1000 := by
    push_cast
    ring
  have hsize : |(value : ℚ) / 1000| < 2 ^ (38 : ℤ) := by
    rw [abs_lt]
    norm_num
    constructor <;> linarith
  obtain ⟨hwritten, hwritten'⟩ := abs_le.mp (abs_binary64_sub_le hsize)
  norm_num at hwritten hwritten'
  have hproduct : |binary64 ((value : ℚ) / 1000) * 1000| < 2 ^ (48 : ℤ) := by
    rw [abs_lt]
    norm_num
    constructor <;> linarith
  obtain ⟨hscaled, hscaled'⟩ := abs_le.mp (abs_binary64_sub_le hproduct)
  norm_num at hscaled hscaled'
  have hclose : |binary64 (binary64 ((value : ℚ) / 1000) * 1000) - value| < 1 / 2 := by
    rw [abs_lt]
    constructor <;> linarith
  rw [millis, Instant.timestamp, hseconds]
  exact roundHalfEven_eq_of_abs_sub_lt hclose

/-- Reading a millisecond is exact to sixteen microseconds. -/
theorem abs_fromMillis_sub_le {value : ℤ} {when_ : Instant} (h : fromMillis value = some when_) :
    |when_ - value * 1000| ≤ 16 := by
  obtain ⟨hlow, hhigh⟩ := isSome_fromMillis_iff.mp (Option.isSome_iff_exists.mpr ⟨when_, h⟩)
  have hlow' : (-62135596800000 : ℚ) ≤ value := by exact_mod_cast hlow
  have hhigh' : (value : ℚ) ≤ 253402300799999 := by exact_mod_cast hhigh
  have hsize : |(value : ℚ) / 1000| < 2 ^ (38 : ℤ) := by
    rw [abs_lt]
    norm_num
    constructor <;> linarith
  obtain ⟨hread, hread'⟩ := abs_le.mp (abs_binary64_sub_le hsize)
  obtain ⟨hmicros, hmicros'⟩ := abs_le.mp (Instant.abs_fromtimestamp_sub_le h)
  norm_num at hread hread'
  have hclose : |((when_ - value * 1000 : ℤ) : ℚ)| < ((17 : ℤ) : ℚ) := by
    rw [abs_lt]
    push_cast
    constructor <;> linarith
  have hlt : |when_ - value * 1000| < 17 := by exact_mod_cast hclose
  exact Int.lt_add_one_iff.mp hlt

/-- Reading a millisecond is exact while a double can tell microseconds apart,
from 1697 to 2242. -/
theorem fromMillis_whole {value : ℤ} (h : |value| < 8589934592000) :
    fromMillis value = some (value * 1000) := by
  obtain ⟨hlow, hhigh⟩ := abs_lt.mp h
  obtain ⟨when_, hwhen⟩ := Option.isSome_iff_exists.mp
    (isSome_fromMillis_iff.mpr (⟨by omega, by omega⟩ : -62135596800000 ≤ value ∧ _))
  have hsize : |(value : ℚ) / 1000| < 2 ^ (33 : ℤ) := by
    have hlow' : (-8589934592000 : ℚ) < value := by exact_mod_cast hlow
    have hhigh' : (value : ℚ) < 8589934592000 := by exact_mod_cast hhigh
    rw [abs_lt]
    norm_num
    constructor <;> linarith
  obtain ⟨hread, hread'⟩ := abs_le.mp (abs_binary64_sub_le hsize)
  norm_num at hread hread'
  -- the fraction of a second, as it is multiplied and as it is rounded
  have htrunc := abs_sub_truncate_lt (binary64 ((value : ℚ) / 1000))
  have hfraction : |(binary64 ((value : ℚ) / 1000) - truncate (binary64 ((value : ℚ) / 1000))) *
      1000000| < 2 ^ (20 : ℤ) := by
    rw [abs_mul, abs_of_pos (by norm_num : (0 : ℚ) < 1000000)]
    norm_num
    linarith
  obtain ⟨hproduct, hproduct'⟩ := abs_le.mp (abs_binary64_sub_le hfraction)
  norm_num at hproduct hproduct'
  have hround : roundHalfEven (binary64 ((binary64 ((value : ℚ) / 1000) -
      truncate (binary64 ((value : ℚ) / 1000))) * 1000000)) =
      value * 1000 - truncate (binary64 ((value : ℚ) / 1000)) * 1000000 := by
    refine roundHalfEven_eq_of_abs_sub_lt ?_
    rw [abs_lt]
    push_cast
    constructor <;> linarith
  have hmicros : Instant.micros (binary64 ((value : ℚ) / 1000)) = value * 1000 := by
    rw [Instant.micros, hround]
    ring
  rw [fromMillis, Instant.fromtimestamp_eq, hmicros] at hwhen ⊢
  rw [Option.ite_none_right_eq_some] at hwhen
  rw [if_pos hwhen.1]

/-- Beyond that a millisecond can be read as the microsecond before it. -/
theorem fromMillis_inexact : fromMillis 8589934592001 = some 8589934592000999 := by
  have hread : binary64 (((8589934592001 : ℤ) : ℚ) / 1000) = 8589934592 + 524 / 2 ^ 19 := by
    rw [binary64_of_mem_binade (n := 33) (by norm_num) (by norm_num),
      roundHalfEven_eq_of_abs_sub_lt (n := 4503599627371020) (by rw [abs_lt]; norm_num)]
    norm_num
  have htrunc : truncate (8589934592 + 524 / 2 ^ 19 : ℚ) = 8589934592 := by
    rw [truncate, if_pos (by norm_num), Int.floor_eq_iff]
    norm_num
  have hround : roundHalfEven (binary64
      (((8589934592 + 524 / 2 ^ 19 : ℚ) - (8589934592 : ℤ)) * 1000000)) = 999 := by
    have herror : |binary64 (((8589934592 + 524 / 2 ^ 19 : ℚ) - (8589934592 : ℤ)) * 1000000) -
        ((8589934592 + 524 / 2 ^ 19 : ℚ) - (8589934592 : ℤ)) * 1000000| ≤ 2 ^ (10 - 54 : ℤ) :=
      abs_binary64_sub_le (by rw [abs_of_pos] <;> norm_num)
    obtain ⟨hdown, hup⟩ := abs_le.mp herror
    norm_num at hdown hup
    refine roundHalfEven_eq_of_abs_sub_lt ?_
    rw [abs_lt]
    norm_num
    constructor <;> linarith
  rw [fromMillis, Instant.fromtimestamp_eq, hread, Instant.micros, htrunc, hround]
  rfl

end AcemqAmqp
