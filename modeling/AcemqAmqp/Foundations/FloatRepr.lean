import AcemqAmqp.Foundations.Binary64
import Mathlib.Data.Nat.Notation

/-!
# The text of a double

The shortest decimals that a double is read back from, laid out as Python lays
them out.
-/

namespace Binary64

/-- The shortest decimals of a positive double, the nearest of them, and the power of ten they count. -/
def shortest (v : ℚ) : ℕ × ℤ :=
  let attempts := (List.range 17).findSome? fun more ↦
    let power := Int.log 10 v - more
    let exact := v / 10 ^ power
    let near := roundHalfEven exact
    let far := if near = ⌊exact⌋ then ⌈exact⌉ else ⌊exact⌋
    ([near, far].find? fun digits : ℤ ↦ double? (digits * 10 ^ power) = some v).map fun digits ↦ (digits.toNat, power)
  attempts.getD (0, 0)

/-- At least two digits, after a sign. -/
def exponentText (n : ℤ) : String :=
  (if n < 0 then "-" else "+") ++ (if n.natAbs < 10 then "0" else "") ++ toString n.natAbs

/-- `repr` of a double that is positive. -/
def layOut (digits : ℕ) (power : ℤ) : String :=
  let cs := (toString digits).toList
  let point := power + cs.length
  let text (cs : List Char) : String := String.ofList cs
  if point ≤ -4 ∨ 16 < point then
    text (cs.take 1) ++ (if cs.length = 1 then "" else "." ++ text (cs.drop 1)) ++ "e" ++ exponentText (point - 1)
  else if point ≤ 0 then "0." ++ text (List.replicate point.natAbs '0') ++ text cs
  else if cs.length ≤ point then text cs ++ text (List.replicate (point.toNat - cs.length) '0') ++ ".0"
  else text (cs.take point.toNat) ++ "." ++ text (cs.drop point.toNat)

/-- `repr(float(literal))`, of a literal that is read as `x`, with or without a minus sign. -/
def floatRepr (negative : Bool) (x : ℚ) : String :=
  (if negative then "-" else "") ++
    match double? x with
    | none => "inf"
    | some v =>
        if v = 0 then "0.0"
        else
          let (digits, power) := shortest v
          layOut digits power

end Binary64
