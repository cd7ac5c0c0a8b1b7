import AcemqAmqp.Foundations.FloatRepr
import Mathlib.Tactic.Common

/-!
# JSON text

JSON values, the ASCII text that is written of one, and the reader of such
texts, which has room for so many lists and objects inside each other.  What was
written of a value made of texts is read back as that value.
-/

/-- A JSON value.  An object keeps the order it was written in, and a float is the text Python prints
for it. -/
inductive Json
  | null
  | bool (b : Bool)
  | int (n : ℤ)
  | float (repr : String)
  | str (s : String)
  | arr (items : List Json)
  | obj (items : List (String × Json))

namespace Json

/-! ## Texts -/

def quote : Char := Char.ofNat 0x22

/-- The value of a hexadecimal digit. -/
def hexDigit? (c : Char) : Option ℕ :=
  if '0' ≤ c ∧ c ≤ '9' then some (c.toNat - 48)
  else if 'a' ≤ c ∧ c ≤ 'f' then some (c.toNat - 87)
  else if 'A' ≤ c ∧ c ≤ 'F' then some (c.toNat - 55)
  else none

/-- One UTF-16 code unit, escaped. -/
def escapeUnit (n : ℕ) : List Char :=
  ['\\', 'u', Nat.digitChar (n / 4096), Nat.digitChar (n / 256 % 16), Nat.digitChar (n / 16 % 16),
    Nat.digitChar (n % 16)]

def readUnit (a b c d : Char) : Option ℕ := do
  let a ← hexDigit? a
  let b ← hexDigit? b
  let c ← hexDigit? c
  let d ← hexDigit? d
  return ((a * 16 + b) * 16 + c) * 16 + d

/-- The characters that have an escape of their own, and the letter of it. -/
def shortEscapes : List (Char × Char) :=
  [(quote, quote), ('\\', '\\'), ('\n', 'n'), ('\r', 'r'), ('\t', 't'), (Char.ofNat 8, 'b'),
    (Char.ofNat 12, 'f')]

def surrogates (n : ℕ) : ℕ × ℕ := (0xd800 + (n - 0x10000) / 1024, 0xdc00 + (n - 0x10000) % 1024)

/-- A character between quotes.  What is written is ASCII. -/
def escape (c : Char) : List Char :=
  match shortEscapes.lookup c with
  | some letter => ['\\', letter]
  | none =>
      if 0x20 ≤ c.toNat ∧ c.toNat < 0x7f then [c]
      else if c.toNat < 0x10000 then escapeUnit c.toNat
      else escapeUnit (surrogates c.toNat).1 ++ escapeUnit (surrogates c.toNat).2

/-- The character a letter after a backslash stands for. -/
def unescape (letter : Char) : Option Char :=
  if letter = '/' then some '/' else (shortEscapes.find? (·.2 = letter)).map Prod.fst

/-- What stands before the closing quote, and what follows it: characters, and
code units that were escaped. -/
def scan : List Char → Option (List (Char ⊕ ℕ) × List Char)
  | [] => none
  | c :: rest =>
      if c = quote then some ([], rest)
      else if c = '\\' then
        match rest with
        | [] => none
        | 'u' :: a :: b :: c :: d :: rest => do
            let n ← readUnit a b c d
            let (units, left) ← scan rest
            return (.inr n :: units, left)
        | letter :: rest => do
            let c ← unescape letter
            let (units, left) ← scan rest
            return (.inl c :: units, left)
      else if c.toNat < 0x20 then none
      else do
        let (units, left) ← scan rest
        return (.inl c :: units, left)

/-- A code unit by itself.  A lone surrogate is no `Char`, and is read as U+FFFD. -/
def unit (n : ℕ) : Char := if 0xd800 ≤ n ∧ n < 0xe000 then '\uFFFD' else Char.ofNat n

/-- Surrogate pairs are put together. -/
def join : List (Char ⊕ ℕ) → List Char
  | [] => []
  | .inl c :: rest => c :: join rest
  | [.inr n] => [unit n]
  | .inr n :: .inl c :: rest => unit n :: join (.inl c :: rest)
  | .inr n :: .inr low :: rest =>
      if (0xd800 ≤ n ∧ n < 0xdc00) ∧ 0xdc00 ≤ low ∧ low < 0xe000 then
        Char.ofNat (0x10000 + (n - 0xd800) * 1024 + (low - 0xdc00)) :: join rest
      else unit n :: join (.inr low :: rest)

def writeText (s : String) : List Char := quote :: (s.toList.flatMap escape ++ [quote])

/-- What follows an opening quote, as a text. -/
def readText (cs : List Char) : Option (String × List Char) := do
  let (units, left) ← scan cs
  return (String.ofList (join units), left)

/-- What `scan` makes of an escaped character. -/
def units (c : Char) : List (Char ⊕ ℕ) :=
  match shortEscapes.lookup c with
  | some _ => [.inl c]
  | none =>
      if 0x20 ≤ c.toNat ∧ c.toNat < 0x7f then [.inl c]
      else if c.toNat < 0x10000 then [.inr c.toNat]
      else [.inr (surrogates c.toNat).1, .inr (surrogates c.toNat).2]

theorem hexDigit?_digitChar : ∀ n < 16, hexDigit? (Nat.digitChar n) = some n := by decide

theorem readUnit_digits {n : ℕ} (h : n < 0x10000) :
    readUnit (Nat.digitChar (n / 4096)) (Nat.digitChar (n / 256 % 16))
      (Nat.digitChar (n / 16 % 16)) (Nat.digitChar (n % 16)) = some n := by
  rw [readUnit, hexDigit?_digitChar _ (by omega), hexDigit?_digitChar _ (by omega),
    hexDigit?_digitChar _ (by omega), hexDigit?_digitChar _ (by omega)]
  have hvalue : ((n / 4096 * 16 + n / 256 % 16) * 16 + n / 16 % 16) * 16 + n % 16 = n := by omega
  exact congrArg some hvalue

theorem scan_escapeUnit {n : ℕ} (h : n < 0x10000) (rest : List Char) :
    scan (escapeUnit n ++ rest) = (scan rest).map fun (units, left) ↦ (.inr n :: units, left) := by
  have hbackslash : '\\' ≠ quote := by decide
  simp only [escapeUnit, List.cons_append, List.nil_append, scan, if_neg hbackslash, if_true,
    readUnit_digits h, Option.bind_eq_bind, Option.bind_some]
  cases scan rest with
  | none => rfl
  | some scanned => rfl

theorem shortEscapes_spec : ∀ p ∈ shortEscapes, p.2 ≠ 'u' ∧ unescape p.2 = some p.1 := by decide

theorem scan_letter {c letter : Char} (h : shortEscapes.lookup c = some letter) (rest : List Char) :
    scan ('\\' :: letter :: rest) =
      (scan rest).map fun (units, left) ↦ (.inl c :: units, left) := by
  obtain ⟨before, after, hsplit, -⟩ := List.lookup_eq_some_iff.mp h
  obtain ⟨hu, hletter⟩ := shortEscapes_spec (c, letter) (by simp [hsplit])
  have hbackslash : '\\' ≠ quote := by decide
  rw [scan, if_neg hbackslash, if_pos rfl]
  · rw [hletter]
    cases scan rest with
    | none => rfl
    | some scanned => rfl
  · rintro a b c d rest' rfl
    exact fun _ ↦ hu rfl

/-- What is written of a character is read as that character. -/
theorem scan_escape (c : Char) (rest : List Char) :
    scan (escape c ++ rest) = (scan rest).map fun (read, left) ↦ (units c ++ read, left) := by
  unfold escape units
  split
  · rename_i letter hletter
    exact scan_letter hletter rest
  · rename_i hshort
    split
    · rename_i hprintable
      have hquote : c ≠ quote := by
        rintro rfl
        exact absurd hshort (by decide)
      have hbackslash : c ≠ '\\' := by
        rintro rfl
        exact absurd hshort (by decide)
      rw [List.cons_append, List.nil_append, scan.eq_def]
      simp only [if_neg hquote, if_neg hbackslash, if_neg (show ¬c.toNat < 0x20 by omega)]
      cases scan rest with
      | none => rfl
      | some scanned => rfl
    · split
      · rename_i hsmall
        exact scan_escapeUnit hsmall rest
      · have hscalar : c.toNat < 0xd800 ∨ 0xdfff < c.toNat ∧ c.toNat < 0x110000 := c.valid
        have hhigh : (surrogates c.toNat).1 < 0x10000 := by
          simp only [surrogates]
          omega
        have hlow : (surrogates c.toNat).2 < 0x10000 := by
          simp only [surrogates]
          omega
        rw [List.append_assoc, scan_escapeUnit hhigh, scan_escapeUnit hlow]
        cases scan rest with
        | none => rfl
        | some scanned => rfl

theorem join_units (c : Char) (rest : List (Char ⊕ ℕ)) :
    join (units c ++ rest) = c :: join rest := by
  have hscalar : c.toNat < 0xd800 ∨ 0xdfff < c.toNat ∧ c.toNat < 0x110000 := c.valid
  unfold units
  split
  · rw [List.cons_append, List.nil_append, join]
  · split
    · rw [List.cons_append, List.nil_append, join]
    · split
      · have hlone : unit c.toNat = c := by
          rw [unit, if_neg (by omega), Char.ofNat_toNat]
        have hhigh : ¬(0xd800 ≤ c.toNat ∧ c.toNat < 0xdc00) := by omega
        rw [List.cons_append, List.nil_append]
        rcases rest with _ | ⟨next | low, rest⟩
        · simp only [join, hlone]
        · simp only [join, hlone]
        · simp only [join, if_neg (fun h : _ ∧ _ ↦ hhigh h.1), hlone]
      · have hhigh : 0xd800 ≤ (surrogates c.toNat).1 ∧ (surrogates c.toNat).1 < 0xdc00 := by
          simp only [surrogates]
          omega
        have hlow : 0xdc00 ≤ (surrogates c.toNat).2 ∧ (surrogates c.toNat).2 < 0xe000 := by
          simp only [surrogates]
          omega
        have hpair : 0x10000 + ((surrogates c.toNat).1 - 0xd800) * 1024 +
            ((surrogates c.toNat).2 - 0xdc00) = c.toNat := by
          simp only [surrogates]
          omega
        rw [List.cons_append, List.cons_append, List.nil_append, join, if_pos ⟨hhigh, hlow⟩, hpair,
          Char.ofNat_toNat]

/-- A text is read back up to its closing quote. -/
theorem readText_writeText (s : String) (rest : List Char) :
    readText (s.toList.flatMap escape ++ quote :: rest) = some (s, rest) := by
  have hscan : ∀ cs : List Char, scan (cs.flatMap escape ++ quote :: rest) =
      some (cs.flatMap units, rest) := by
    intro cs
    induction cs with
    | nil =>
        rw [List.flatMap_nil, List.nil_append, scan.eq_def]
        simp only [if_true, List.flatMap_nil]
    | cons c cs ih =>
        rw [List.flatMap_cons, List.append_assoc, scan_escape, ih, Option.map_some,
          List.flatMap_cons]
  have hjoin : ∀ cs : List Char, join (cs.flatMap units) = cs := by
    intro cs
    induction cs with
    | nil => rfl
    | cons c cs ih => rw [List.flatMap_cons, join_units, ih]
  rw [readText, hscan, Option.bind_eq_bind, Option.bind_some]
  dsimp only
  rw [hjoin, String.ofList_toList, Option.pure_def]

/-! ## Values -/

/-- A float is written as it prints, unless it is no number that JSON has. -/
def writeFloat (repr : String) : List Char :=
  (([("nan", "NaN"), ("inf", "Infinity"), ("-inf", "-Infinity")].lookup repr).getD repr).toList

mutual

/-- `json.dumps(value)`, for a value that is JSON already. -/
def write : Json → List Char
  | .null => "null".toList
  | .bool b => if b then "true".toList else "false".toList
  | .int n => (toString n).toList
  | .float repr => writeFloat repr
  | .str s => writeText s
  | .arr [] => ['[', ']']
  | .arr (item :: rest) => '[' :: (write item ++ (writeItems rest ++ [']']))
  | .obj [] => ['{', '}']
  | .obj ((name, item) :: rest) =>
      '{' :: (writeText name ++ (':' :: ' ' :: write item) ++ (writeMembers rest ++ ['}']))

def writeItems : List Json → List Char
  | [] => []
  | item :: rest => ',' :: ' ' :: (write item ++ writeItems rest)

def writeMembers : List (String × Json) → List Char
  | [] => []
  | (name, item) :: rest =>
      ',' :: ' ' :: (writeText name ++ (':' :: ' ' :: write item) ++ writeMembers rest)

end

def dumps (value : Json) : String := String.ofList (write value)

/-- The white space JSON allows between its tokens. -/
def isBlank (c : Char) : Bool := c = ' ' ∨ c = '\t' ∨ c = '\n' ∨ c = '\r'

def skip (cs : List Char) : List Char := cs.dropWhile isBlank

def literal (word : String) (value : Json) (cs : List Char) : Option (Json × List Char) :=
  if word.toList.isPrefixOf cs then some (value, cs.drop word.length) else none

/-- `[0-9]+` after the characters `before`, or nothing at all. -/
def digitsAfter (before cs : List Char) : List Char × List Char :=
  match cs.span Char.isDigit with
  | ([], _) => ([], before ++ cs)
  | (digits, left) => (before ++ digits, left)

/-- `(\.[0-9]+)?`. -/
def fraction : List Char → List Char × List Char
  | '.' :: rest => digitsAfter ['.'] rest
  | cs => ([], cs)

/-- `([eE][-+]?[0-9]+)?`. -/
def exponent : List Char → List Char × List Char
  | e :: rest =>
      if e = 'e' ∨ e = 'E' then
        match rest with
        | '-' :: rest => digitsAfter [e, '-'] rest
        | '+' :: rest => digitsAfter [e, '+'] rest
        | rest => digitsAfter [e] rest
      else ([], e :: rest)
  | [] => ([], [])

/-- The most digits an integer may have. -/
def maxDigits : ℕ := 4300

def digitsValue (digits : List Char) : ℕ := digits.foldl (fun n d ↦ n * 10 + (d.toNat - 48)) 0

/-- The power of ten that an exponent stands for. -/
def exponentValue (exponential : List Char) : ℤ :=
  match exponential.tail with
  | '-' :: digits => -(digitsValue digits : ℤ)
  | '+' :: digits => digitsValue digits
  | digits => digitsValue digits

/-- `-?(0|[1-9][0-9]*)` with a fraction and an exponent, or an integer without either. -/
def number (cs : List Char) : Option (Json × List Char) :=
  let (negative, cs) := if cs.head? = some '-' then (true, cs.tail) else (false, cs)
  let (whole, cs) := if cs.head? = some '0' then (['0'], cs.tail) else cs.span Char.isDigit
  let (fractional, cs) := fraction cs
  let (exponential, cs) := exponent cs
  if whole = [] then none
  else if fractional ≠ [] ∨ exponential ≠ [] then
    let power := exponentValue exponential - fractional.tail.length
    some (.float (Binary64.floatRepr negative (digitsValue (whole ++ fractional.tail) * 10 ^ power)), cs)
  else if maxDigits < whole.length then none
  else
    let n : ℕ := digitsValue whole
    some (.int (if negative then -n else n), cs)

/-- A value that is neither a text nor a list nor an object. -/
def scalar (cs : List Char) : Option (Json × List Char) :=
  literal "null" .null cs <|> literal "true" (.bool true) cs <|> literal "false" (.bool false) cs <|>
    literal "NaN" (.float "nan") cs <|> literal "Infinity" (.float "inf") cs <|>
    literal "-Infinity" (.float "-inf") cs <|> number cs

/-- Why a text is not read: it is not JSON, or there is no room for what it nests. -/
inductive Trouble
  | malformed
  | tooDeep
  deriving DecidableEq

def orMalformed {α : Type} (read : Option α) : Except Trouble α := read.elim (.error .malformed) .ok

mutual

/-- Reads one value, and leaves what follows it.  There is room for so many lists and objects inside
each other, and the first one too many ends it, before anything that is wrong behind it. -/
def value : ℕ → ℕ → List Char → Except Trouble (Json × List Char)
  | _, 0, _ => .error .malformed
  | _, _ + 1, [] => .error .malformed
  | room, fuel + 1, c :: rest =>
      if c = quote then do
        let (s, left) ← orMalformed (readText rest)
        return (.str s, left)
      else if c = '[' then
        match room with
        | 0 => .error .tooDeep
        | room + 1 =>
            if (skip rest).head? = some ']' then .ok (.arr [], (skip rest).tail)
            else do
              let (items, left) ← items room fuel (skip rest)
              return (.arr items, left)
      else if c = '{' then
        match room with
        | 0 => .error .tooDeep
        | room + 1 =>
            if (skip rest).head? = some '}' then .ok (.obj [], (skip rest).tail)
            else do
              let (members, left) ← members room fuel (skip rest)
              return (.obj members, left)
      else orMalformed (scalar (c :: rest))

def items : ℕ → ℕ → List Char → Except Trouble (List Json × List Char)
  | _, 0, _ => .error .malformed
  | room, fuel + 1, cs => do
      let (item, left) ← value room fuel cs
      match skip left with
      | ']' :: left => return ([item], left)
      | ',' :: left => do
          let (rest, left) ← items room fuel (skip left)
          return (item :: rest, left)
      | _ => .error .malformed

def members : ℕ → ℕ → List Char → Except Trouble (List (String × Json) × List Char)
  | _, 0, _ => .error .malformed
  | _, _ + 1, [] => .error .malformed
  | room, fuel + 1, c :: cs =>
      if c ≠ quote then .error .malformed
      else do
        let (name, left) ← orMalformed (readText cs)
        match skip left with
        | ':' :: left => do
            let (item, left) ← value room fuel (skip left)
            match skip left with
            | '}' :: left => return ([(name, item)], left)
            | ',' :: left => do
                let (rest, left) ← members room fuel (skip left)
                return ((name, item) :: rest, left)
            | _ => .error .malformed
        | _ => .error .malformed

end

/-- `json.loads(text)`, where there is room for so many lists and objects inside each other. -/
def loadsWithin (room : ℕ) (text : String) : Except Trouble Json := do
  let cs := skip text.toList
  -- A bracket takes two steps, and every other step takes a character.
  let (value, left) ← value room (2 * cs.length) cs
  if skip left = [] then return value else .error .malformed

/-! ## Reading what was written -/

mutual

/-- Whether there is nothing but texts in a value. -/
def textual : Json → Bool
  | .str _ => true
  | .arr items => textualItems items
  | .obj members => textualMembers members
  | _ => false

def textualItems : List Json → Bool
  | [] => true
  | item :: rest => item.textual && textualItems rest

def textualMembers : List (String × Json) → Bool
  | [] => true
  | (_, item) :: rest => item.textual && textualMembers rest

end

theorem skip_cons {c : Char} (h : isBlank c = false) (cs : List Char) : skip (c :: cs) = c :: cs := by
  simp [skip, h]

theorem skip_space (cs : List Char) : skip (' ' :: cs) = skip cs := by
  simp [skip, isBlank]

/-- What is written of a value made of texts begins with none of these. -/
theorem write_head {json : Json} (h : json.textual = true) : ∃ c cs, write json = c :: cs ∧
    isBlank c = false ∧ c ≠ ']' := by
  cases json with
  | str s => exact ⟨quote, _, rfl, by decide, by decide⟩
  | arr items =>
      cases items with
      | nil => exact ⟨'[', _, rfl, by decide, by decide⟩
      | cons item rest => exact ⟨'[', _, rfl, by decide, by decide⟩
  | obj members =>
      rcases members with _ | ⟨⟨name, item⟩, rest⟩
      · exact ⟨'{', _, rfl, by decide, by decide⟩
      · exact ⟨'{', _, rfl, by decide, by decide⟩
  | _ => cases h

theorem skip_write {json : Json} (h : json.textual = true) (rest : List Char) :
    skip (write json ++ rest) = write json ++ rest := by
  obtain ⟨c, cs, hwrite, hblank, -⟩ := write_head h
  rw [hwrite, List.cons_append, skip_cons hblank]

mutual

/-- How many lists and objects there are inside each other. -/
def depth : Json → ℕ
  | .arr items => depthItems items + 1
  | .obj members => depthMembers members + 1
  | _ => 0

def depthItems : List Json → ℕ
  | [] => 0
  | item :: rest => max item.depth (depthItems rest)

def depthMembers : List (String × Json) → ℕ
  | [] => 0
  | (_, item) :: rest => max item.depth (depthMembers rest)

end

mutual

theorem depth_le (json : Json) : json.depth ≤ (write json).length := by
  cases json with
  | arr items =>
      cases items with
      | nil => decide
      | cons item rest =>
          have hitem := depth_le item
          have hrest := depthItems_le rest
          simp only [depth, depthItems, write, List.length_cons, List.length_append]
          omega
  | obj members =>
      rcases members with _ | ⟨⟨name, item⟩, rest⟩
      · decide
      · have hitem := depth_le item
        have hrest := depthMembers_le rest
        simp only [depth, depthMembers, write, List.length_cons, List.length_append]
        omega
  | _ => exact Nat.zero_le _

theorem depthItems_le (items : List Json) : depthItems items ≤ (writeItems items).length := by
  cases items with
  | nil => exact Nat.le_refl 0
  | cons item rest =>
      have hitem := depth_le item
      have hrest := depthItems_le rest
      simp only [depthItems, writeItems, List.length_cons, List.length_append]
      omega

theorem depthMembers_le (members : List (String × Json)) :
    depthMembers members ≤ (writeMembers members).length := by
  rcases members with _ | ⟨⟨name, item⟩, rest⟩
  · exact Nat.le_refl 0
  · have hitem := depth_le item
    have hrest := depthMembers_le rest
    simp only [depthMembers, writeMembers, List.length_cons, List.length_append]
    omega

end

/-- With so much fuel the readers read what was written, where there is room for it. -/
structure Reads (fuel : ℕ) : Prop where
  value : ∀ {json : Json} {room : ℕ}, json.textual = true → json.depth ≤ room →
    (write json).length ≤ fuel → ∀ left, value room fuel (write json ++ left) = .ok (json, left)
  items : ∀ {item : Json} {rest : List Json} {room : ℕ}, item.textual = true →
    textualItems rest = true → depthItems (item :: rest) ≤ room →
    (write item).length + (writeItems rest).length + 1 ≤ fuel → ∀ left,
    items room fuel (write item ++ (writeItems rest ++ ']' :: left)) = .ok (item :: rest, left)
  members : ∀ (name : String) {item : Json} {rest : List (String × Json)} {room : ℕ},
    item.textual = true → textualMembers rest = true → depthMembers ((name, item) :: rest) ≤ room →
    (writeText name).length + (write item).length + (writeMembers rest).length + 3 ≤ fuel →
    ∀ left, members room fuel
      (writeText name ++ (':' :: ' ' :: (write item ++ (writeMembers rest ++ '}' :: left)))) =
        .ok ((name, item) :: rest, left)

theorem writeText_append (s : String) (rest : List Char) :
    writeText s ++ rest = quote :: (s.toList.flatMap escape ++ quote :: rest) := by
  rw [writeText, List.cons_append, List.append_assoc, List.cons_append, List.nil_append]

variable {fuel room : ℕ}

theorem value_write (h : Reads fuel) {json : Json} (hjson : json.textual = true)
    (hdepth : json.depth ≤ room) (hfuel : (write json).length ≤ fuel + 1) (left : List Char) :
    value room (fuel + 1) (write json ++ left) = .ok (json, left) := by
  have hbracket : '[' ≠ quote := by decide
  have hbrace : '{' ≠ quote := by decide
  cases json with
  | str s =>
      rw [write, writeText_append, value.eq_def]
      dsimp only
      rw [if_pos rfl, readText_writeText]
      rfl
  | arr list =>
      rw [depth] at hdepth
      obtain ⟨room, rfl⟩ := Nat.exists_eq_add_of_lt hdepth
      cases list with
      | nil =>
          rw [write, List.cons_append, List.cons_append, List.nil_append, value, if_neg hbracket,
            if_pos rfl]
          dsimp only
          rw [skip_cons (by decide), List.head?_cons, if_pos rfl, List.tail_cons]
      | cons item rest =>
          rw [textual, textualItems, Bool.and_eq_true] at hjson
          obtain ⟨c, cs, hwrite, -, hc⟩ := write_head hjson.1
          have hfirst : (write item ++ (writeItems rest ++ ']' :: left)).head? ≠ some ']' := by
            rw [hwrite, List.cons_append, List.head?_cons]
            simpa using hc
          rw [write] at hfuel ⊢
          simp only [List.length_cons, List.length_append, List.length_nil] at hfuel
          have hitems := h.items hjson.1 hjson.2 (Nat.le_add_right _ room) (by omega) left
          simp only [List.cons_append, List.append_assoc, List.nil_append]
          rw [value, if_neg hbracket, if_pos rfl]
          dsimp only
          rw [skip_write hjson.1, if_neg hfirst, hitems]
          rfl
  | obj list =>
      rw [depth] at hdepth
      obtain ⟨room, rfl⟩ := Nat.exists_eq_add_of_lt hdepth
      rcases list with _ | ⟨⟨name, item⟩, rest⟩
      · rw [write, List.cons_append, List.cons_append, List.nil_append, value, if_neg hbrace,
          if_neg (by decide), if_pos rfl]
        dsimp only
        rw [skip_cons (by decide), List.head?_cons, if_pos rfl, List.tail_cons]
      · rw [textual, textualMembers, Bool.and_eq_true] at hjson
        rw [write] at hfuel ⊢
        simp only [List.length_cons, List.length_append, List.length_nil] at hfuel
        have hmembers := h.members name hjson.1 hjson.2 (Nat.le_add_right _ room) (by omega) left
        simp only [List.cons_append, List.append_assoc, List.nil_append]
        rw [writeText_append] at hmembers ⊢
        rw [value, if_neg hbrace, if_neg (by decide), if_pos rfl]
        dsimp only
        rw [skip_cons (by decide), List.head?_cons, if_neg (by decide), hmembers]
        rfl
  | _ => cases hjson

theorem items_write (h : Reads fuel) {item : Json} {rest : List Json}
    (hitem : item.textual = true) (hrest : textualItems rest = true)
    (hdepth : depthItems (item :: rest) ≤ room)
    (hfuel : (write item).length + (writeItems rest).length + 1 ≤ fuel + 1) (left : List Char) :
    items room (fuel + 1) (write item ++ (writeItems rest ++ ']' :: left)) =
      .ok (item :: rest, left) := by
  rw [depthItems, max_le_iff] at hdepth
  rw [items, h.value hitem hdepth.1 (by omega)]
  cases rest with
  | nil =>
      rw [writeItems, List.nil_append]
      simp only [bind, Except.bind, skip_cons (show isBlank ']' = false by decide)]
      rfl
  | cons next rest =>
      rw [textualItems, Bool.and_eq_true] at hrest
      simp only [writeItems, List.length_cons, List.length_append] at hfuel
      have hitems := h.items hrest.1 hrest.2 hdepth.2 (by omega) left
      simp only [writeItems, List.cons_append, List.append_assoc, bind, Except.bind,
        skip_cons (show isBlank ',' = false by decide), skip_space, skip_write hrest.1, hitems]
      rfl

theorem members_write (h : Reads fuel) (name : String) {item : Json}
    {rest : List (String × Json)} (hitem : item.textual = true) (hrest : textualMembers rest = true)
    (hdepth : depthMembers ((name, item) :: rest) ≤ room)
    (hfuel : (writeText name).length + (write item).length + (writeMembers rest).length + 3 ≤ fuel + 1)
    (left : List Char) :
    members room (fuel + 1)
      (writeText name ++ (':' :: ' ' :: (write item ++ (writeMembers rest ++ '}' :: left)))) =
        .ok ((name, item) :: rest, left) := by
  rw [depthMembers, max_le_iff] at hdepth
  have hvalue := h.value hitem hdepth.1 (show (write item).length ≤ fuel by omega)
  rw [writeText_append, members, if_neg (by simp), readText_writeText, orMalformed, Option.elim_some]
  simp only [bind, Except.bind, skip_cons (show isBlank ':' = false by decide), skip_space,
    skip_write hitem, hvalue]
  rcases rest with _ | ⟨⟨next, other⟩, rest⟩
  · simp only [writeMembers, List.nil_append, skip_cons (show isBlank '}' = false by decide)]
    rfl
  · rw [textualMembers, Bool.and_eq_true] at hrest
    simp only [writeMembers, List.length_cons, List.length_append] at hfuel
    have hmembers := h.members next hrest.1 hrest.2 hdepth.2 (by omega) left
    rw [writeText_append] at hmembers
    simp only [writeMembers, List.cons_append, List.append_assoc, writeText_append,
      skip_cons (show isBlank ',' = false by decide), skip_space,
      skip_cons (show isBlank quote = false by decide), hmembers]
    rfl

theorem reads (fuel : ℕ) : Reads fuel := by
  induction fuel with
  | zero =>
      refine ⟨fun hjson _ hfuel ↦ ?_, fun _ _ _ hfuel ↦ absurd hfuel (by omega), ?_⟩
      · obtain ⟨c, cs, hwrite, -⟩ := write_head hjson
        rw [hwrite] at hfuel
        exact absurd hfuel (by simp)
      · intro name item rest room _ _ _ hfuel
        exact absurd hfuel (by omega)
  | succ fuel ih => exact ⟨value_write ih, items_write ih, fun name ↦ members_write ih name⟩

/-- A value made of texts is read back as it was written, where there is room for its depth. -/
theorem loadsWithin_dumps {json : Json} (h : json.textual = true) (hdepth : json.depth ≤ room) :
    loadsWithin room (dumps json) = .ok json := by
  have hwrite := skip_write h []
  have hvalue := (reads (2 * (write json).length)).value h hdepth (by omega) []
  rw [List.append_nil] at hwrite hvalue
  rw [loadsWithin, dumps, String.toList_ofList, hwrite, hvalue]
  rfl

example : (loadsWithin 3 " \x7b\"steps\": [1.50e1, \x7b\"a\": \"\\u00e9\"\x7d] \x7d").map dumps =
    .ok "\x7b\"steps\": [15.0, \x7b\"a\": \"\\u00e9\"\x7d]\x7d" := by
  decide +kernel

/-- The second bracket is one too many, and what is missing behind it is never seen. -/
example : (loadsWithin 1 "[[").map dumps = .error .tooDeep := by
  decide +kernel

end Json
