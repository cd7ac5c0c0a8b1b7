import Mathlib.Data.Int.Notation
import Mathlib.Data.Nat.Notation

/-!
# Python's text conversions

`bytes.decode("utf-8", errors="replace")`, `int(text)` and `repr(text)`, as far
as header values are read through them.  Each is total: bad UTF-8 becomes
U+FFFD, and text that is no integer reads as `none`, where Python raises
`ValueError`.
-/

namespace AcemqAmqp

abbrev Bytes := List UInt8

/-! ## Decoding UTF-8 -/

/-- A character whose first bytes have been read. -/
structure PartialChar where
  owed : ℕ
  low : UInt8
  high : UInt8
  code : ℕ

/-- What a byte means between two characters. -/
def leadByte (b : UInt8) : List Char × Option PartialChar :=
  if b < 0x80 then ([Char.ofNat b.toNat], none)
  else if 0xC2 ≤ b ∧ b ≤ 0xDF then ([], some ⟨1, 0x80, 0xBF, b.toNat - 0xC0⟩)
  else if b = 0xE0 then ([], some ⟨2, 0xA0, 0xBF, 0⟩)
  else if b = 0xED then ([], some ⟨2, 0x80, 0x9F, 0xD⟩)
  else if 0xE1 ≤ b ∧ b ≤ 0xEF then ([], some ⟨2, 0x80, 0xBF, b.toNat - 0xE0⟩)
  else if b = 0xF0 then ([], some ⟨3, 0x90, 0xBF, 0⟩)
  else if 0xF1 ≤ b ∧ b ≤ 0xF3 then ([], some ⟨3, 0x80, 0xBF, b.toNat - 0xF0⟩)
  else if b = 0xF4 then ([], some ⟨3, 0x80, 0x8F, 4⟩)
  else (['\uFFFD'], none)

/-- A character cut short is one U+FFFD, and the byte that cut it starts afresh. -/
def decodeFrom : Option PartialChar → Bytes → List Char
  | none, [] => []
  | some _, [] => ['\uFFFD']
  | none, b :: rest => (leadByte b).1 ++ decodeFrom (leadByte b).2 rest
  | some p, b :: rest =>
      if p.low ≤ b ∧ b ≤ p.high then
        if p.owed = 1 then Char.ofNat (p.code * 64 + b.toNat % 64) :: decodeFrom none rest
        else decodeFrom (some ⟨p.owed - 1, 0x80, 0xBF, p.code * 64 + b.toNat % 64⟩) rest
      else '\uFFFD' :: ((leadByte b).1 ++ decodeFrom (leadByte b).2 rest)

def decodeReplace (bytes : Bytes) : String := String.ofList (decodeFrom none bytes)

/-! ## Reading integers -/

/-- The zeros of Unicode's decimal digits; the other nine follow each of them. -/
def decimalZeros : List ℕ :=
  [0x30, 0x660, 0x6f0, 0x7c0, 0x966, 0x9e6, 0xa66, 0xae6, 0xb66, 0xbe6, 0xc66, 0xce6, 0xd66,
    0xde6, 0xe50, 0xed0, 0xf20, 0x1040, 0x1090, 0x17e0, 0x1810, 0x1946, 0x19d0, 0x1a80, 0x1a90,
    0x1b50, 0x1bb0, 0x1c40, 0x1c50, 0xa620, 0xa8d0, 0xa900, 0xa9d0, 0xa9f0, 0xaa50, 0xabf0,
    0xff10, 0x104a0, 0x10d30, 0x11066, 0x110f0, 0x11136, 0x111d0, 0x112f0, 0x11450, 0x114d0,
    0x11650, 0x116c0, 0x11730, 0x118e0, 0x11950, 0x11c50, 0x11d50, 0x11da0, 0x16a60, 0x16ac0,
    0x16b50, 0x1d7ce, 0x1d7d8, 0x1d7e2, 0x1d7ec, 0x1d7f6, 0x1e140, 0x1e2f0, 0x1e950, 0x1fbf0]

def decimal? (c : Char) : Option ℕ :=
  decimalZeros.findSome? fun z ↦
    if z ≤ c.toNat ∧ c.toNat < z + 10 then some (c.toNat - z) else none

def isSpace (c : Char) : Bool :=
  c.toNat ∈ [0x9, 0xa, 0xb, 0xc, 0xd, 0x1c, 0x1d, 0x1e, 0x1f, 0x20, 0x85, 0xa0, 0x1680, 0x2000,
    0x2001, 0x2002, 0x2003, 0x2004, 0x2005, 0x2006, 0x2007, 0x2008, 0x2009, 0x200a, 0x2028,
    0x2029, 0x202f, 0x205f, 0x3000]

def strip (cs : List Char) : List Char :=
  ((cs.dropWhile isSpace).reverse.dropWhile isSpace).reverse

/-- Digits, with single underscores allowed between two of them.  The flag says
whether a digit has to come next. -/
def digits? : Bool → List Char → Option (List ℕ)
  | true, [] => none
  | false, [] => some []
  | owed, c :: rest =>
      match decimal? c with
      | some n => (digits? false rest).map (n :: ·)
      | none => if c = '_' ∧ owed = false then digits? true rest else none

/-- The most digits `int` reads from text. -/
def maxStrDigits : ℕ := 4300

def natural? (cs : List Char) : Option ℕ :=
  match digits? true cs with
  | some ds => if ds.length ≤ maxStrDigits then some (ds.foldl (fun n d ↦ n * 10 + d) 0) else none
  | none => none

/-- What `int` takes for white space: not the four separators from U+001C on, which `str.strip` removes. -/
def isIntSpace (c : Char) : Bool := isSpace c && !(0x1c ≤ c.toNat && c.toNat ≤ 0x1f)

/-- `int(text)`. -/
def int? (s : String) : Option ℤ :=
  match ((s.toList.dropWhile isIntSpace).reverse.dropWhile isIntSpace).reverse with
  | '-' :: rest => (natural? rest).map fun n ↦ -n
  | '+' :: rest => (natural? rest).map fun n ↦ n
  | rest => (natural? rest).map fun n ↦ n

example : int? " +1_000\n" = some 1000 := by decide

example : int? "1.5" = none := by decide

example : int? "\x1c1" = none := by decide

/-! ## Quoting -/

def apostrophe : Char := Char.ofNat 0x27

def doubleQuote : Char := Char.ofNat 0x22

/-- One character inside quotes.  Python also escapes what Unicode calls
unprintable beyond ASCII; such characters are left as they are here. -/
def quoteChar (quote c : Char) : List Char :=
  if c = quote ∨ c = '\\' then ['\\', c]
  else if c = '\n' then ['\\', 'n']
  else if c = '\r' then ['\\', 'r']
  else if c = '\t' then ['\\', 't']
  else if c.toNat < 0x20 ∨ c.toNat = 0x7f then
    ['\\', 'x', Nat.digitChar (c.toNat / 16), Nat.digitChar (c.toNat % 16)]
  else [c]

/-- `repr(text)`: single quotes, unless only double quotes avoid an escape. -/
def reprText (s : String) : String :=
  let quote := if apostrophe ∈ s.toList ∧ doubleQuote ∉ s.toList then doubleQuote
    else apostrophe
  String.ofList (quote :: (s.toList.flatMap (quoteChar quote) ++ [quote]))

end AcemqAmqp
