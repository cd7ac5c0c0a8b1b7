import AcemqAmqp.Wire.Instant
import AcemqAmqp.Wire.Text

/-!
# Header values

The values an AMQP header table can carry, and the three readings the library
makes of one: `text`, `number`, and whether it is truthy.  A float and a decimal
are kept as the text Python prints for them, which is all that is ever read of one.
-/

namespace AcemqAmqp

inductive Value
  | null
  | bool (b : Bool)
  | int (n : ℤ)
  | float (repr : String)
  | decimal (str : String)
  | text (s : String)
  | bytes (bs : Bytes)
  | timestamp (when_ : Instant)
  | list (items : List Value)
  | table (items : List (String × Value))

namespace Value

/-- `repr(bytes)`. -/
def reprBytes (bs : Bytes) : String :=
  let quote := if 0x27 ∈ bs ∧ 0x22 ∉ bs then doubleQuote else apostrophe
  let digit (n : ℕ) : Char := Nat.digitChar n
  let escape (b : UInt8) : List Char :=
    if 0x80 ≤ b then ['\\', 'x', digit (b.toNat / 16), digit (b.toNat % 16)]
    else quoteChar quote (Char.ofNat b.toNat)
  String.ofList ('b' :: quote :: (bs.flatMap escape ++ [quote]))

/-- `repr(datetime)`: the seconds and the microseconds are left out from the
right while they are zero. -/
def reprTimestamp (when_ : Instant) : String :=
  let (year, month, day) := Instant.civil (when_ / 86400000000)
  let second := when_ % 86400000000 / 1000000
  let micros := when_ % 1000000
  let tail := if micros ≠ 0 then [second % 60, micros]
    else if second % 60 ≠ 0 then [second % 60] else []
  let fields := [year, month, day, second / 3600, second / 60 % 60] ++ tail
  "datetime.datetime(" ++ ", ".intercalate (fields.map toString) ++
    ", tzinfo=datetime.timezone.utc)"

mutual

/-- `repr(value)`. -/
def repr : Value → String
  | null => "None"
  | bool b => if b then "True" else "False"
  | int n => toString n
  | float r => r
  | decimal s => "Decimal(" ++ reprText s ++ ")"
  | text s => reprText s
  | bytes bs => reprBytes bs
  | timestamp when_ => reprTimestamp when_
  | list items => "[" ++ ", ".intercalate (reprList items) ++ "]"
  | table items => "\x7b" ++ ", ".intercalate (reprItems items) ++ "\x7d"

def reprList : List Value → List String
  | [] => []
  | v :: rest => v.repr :: reprList rest

def reprItems : List (String × Value) → List String
  | [] => []
  | (k, v) :: rest => (reprText k ++ ": " ++ v.repr) :: reprItems rest

end

/-- `str(value)`. -/
def str : Value → String
  | text s => s
  | decimal s => s
  | timestamp when_ => when_.str
  | v => v.repr

/-- `bool(value)`. -/
def truthy : Value → Bool
  | null => false
  | bool b => b
  | int n => n ≠ 0
  | float r => r ≠ "0.0" ∧ r ≠ "-0.0"
  | decimal s => !(s.toList.takeWhile (· ≠ 'E')).all fun c ↦ c = '0' ∨ c = '.' ∨ c = '-'
  | text s => s ≠ ""
  | bytes bs => bs ≠ []
  | timestamp _ => true
  | list items => !items.isEmpty
  | table items => !items.isEmpty

end Value

/-- `_text`: a header that may be absent, as a string. -/
def text : Option Value → String
  | none => ""
  | some .null => ""
  | some (.bytes bs) => decodeReplace bs
  | some v => v.str

/-- `_number`: a header as an integer, or the default when it is not one. -/
def number (value : Option Value) (fallback : ℤ) : ℤ :=
  match value with
  | some (.bool _) => fallback
  | some (.int n) => n
  | v => (int? (text v)).getD fallback

@[simp] theorem text_none : text none = "" := rfl

@[simp] theorem text_some_text (s : String) : text (some (.text s)) = s := rfl

@[simp] theorem number_some_int (n fallback : ℤ) : number (some (.int n)) fallback = n := rfl

/-- A header that is absent reads as its default. -/
@[simp] theorem number_none (fallback : ℤ) : number none fallback = fallback := by
  have hempty : int? "" = none := by decide
  simp [number, hempty]

end AcemqAmqp
