import AcemqAmqp.Foundations.Cutting
import AcemqAmqp.Foundations.Json

/-!
# URLs

URLs as `urllib.parse` takes them apart and puts them together, and percent
encoding.  Texts are lists of characters.  Lower-casing is a parameter, with
what is used of it; the rest is computed.
-/

namespace Url

open Cutting

/-! ## Percent encoding -/

/-- The bytes `quote` never escapes. -/
def unreserved (b : UInt8) : Bool :=
  0x41 ≤ b && b ≤ 0x5a || 0x61 ≤ b && b ≤ 0x7a || 0x30 ≤ b && b ≤ 0x39 || [0x5f, 0x2e, 0x2d, 0x7e].contains b

/-- A digit to the base 16, upper case. -/
def hexDigit (n : ℕ) : Char := Char.ofNat (if n < 10 then 0x30 + n else 0x37 + n)

def quoteByte (b : UInt8) : List Char :=
  if unreserved b then [Char.ofNat b.toNat] else ['%', hexDigit (b.toNat / 16), hexDigit (b.toNat % 16)]

/-- `quote(text, safe="")`, of the text's bytes. -/
def quote (bytes : List UInt8) : List Char := bytes.flatMap quoteByte

/-- `unquote_to_bytes(text)`.  A percent sign without two digits stands for itself. -/
def unquote : List Char → List UInt8
  | [] => []
  | '%' :: a :: b :: rest =>
      match Json.hexDigit? a, Json.hexDigit? b with
      | some high, some low => UInt8.ofNat (16 * high + low) :: unquote rest
      | _, _ => 0x25 :: unquote (a :: b :: rest)
  | c :: rest =>
      if c.toNat < 128 then UInt8.ofNat c.toNat :: unquote rest
      else (String.singleton c).toByteArray.data.toList ++ unquote rest

theorem unquote_percent {a b : Char} {high low : ℕ} (ha : Json.hexDigit? a = some high)
    (hb : Json.hexDigit? b = some low) (rest : List Char) :
    unquote ('%' :: a :: b :: rest) = UInt8.ofNat (16 * high + low) :: unquote rest := by
  rw [unquote, ha, hb]

theorem unquote_ascii {c : Char} (hc : c ≠ '%') (h : c.toNat < 128) (rest : List Char) :
    unquote (c :: rest) = UInt8.ofNat c.toNat :: unquote rest := by
  rw [unquote, if_pos h]
  rintro a b rest' rfl -
  exact hc rfl

theorem hexDigit?_hexDigit : ∀ n < 16, Json.hexDigit? (hexDigit n) = some n := by decide

theorem unreserved_char : ∀ n < 256, unreserved (UInt8.ofNat n) = true →
    n < 128 ∧ Char.ofNat n ≠ '%' ∧ (Char.ofNat n).toNat = n := by
  decide +kernel

theorem unquote_quoteByte (b : UInt8) (rest : List Char) :
    unquote (quoteByte b ++ rest) = b :: unquote rest := by
  have hb : b.toNat < 256 := b.toNat_lt_size
  rw [quoteByte]
  split
  · rename_i hsafe
    obtain ⟨hsmall, hpercent, hchar⟩ := unreserved_char b.toNat hb (by simpa using hsafe)
    rw [List.singleton_append, unquote_ascii hpercent (by rwa [hchar]), hchar, UInt8.ofNat_toNat]
  · have hhigh := hexDigit?_hexDigit (b.toNat / 16) (by omega)
    have hlow := hexDigit?_hexDigit (b.toNat % 16) (by omega)
    change unquote ('%' :: hexDigit (b.toNat / 16) :: hexDigit (b.toNat % 16) :: rest) = _
    rw [unquote_percent hhigh hlow, Nat.div_add_mod, UInt8.ofNat_toNat]

theorem unquote_quote (bytes : List UInt8) : unquote (quote bytes) = bytes := by
  induction bytes with
  | nil => rfl
  | cons b bytes ih => rw [quote, List.flatMap_cons, unquote_quoteByte, ← quote, ih]

/-- What a computation over a list finds of all its members. -/
theorem of_all {members : List Char} {p : Char → Prop} [DecidablePred p]
    (h : members.all (fun c ↦ decide (p c)) = true) {c : Char} (hc : c ∈ members) : p c :=
  of_decide_eq_true (List.all_eq_true.mp h c hc)

/-- The characters that part a URL, and those that are taken out of one. -/
def delimiters : List Char := ['/', '?', '#', '@', ':', '[', ']', '\t', '\r', '\n']

theorem quoteByte_chars : ∀ n < 256,
    (quoteByte (UInt8.ofNat n)).all (fun c ↦ decide (c ∉ delimiters ∧ c.toNat < 128)) = true := by
  decide +kernel

/-- A quoted text has no character that means anything in a URL. -/
theorem mem_quote {bytes : List UInt8} {c : Char} (h : c ∈ quote bytes) :
    c ∉ delimiters ∧ c.toNat < 128 := by
  obtain ⟨b, -, hc⟩ := List.mem_flatMap.mp h
  rw [← UInt8.ofNat_toNat (x := b)] at hc
  exact of_all (quoteByte_chars b.toNat b.toNat_lt_size) hc

/-! ## Addresses -/

def isHexDigit (c : Char) : Bool := (Json.hexDigit? c).isSome

/-- Up to four hexadecimal digits, as between the colons of an IPv6 address. -/
def hextet (part : List Char) : Bool := part.length ≠ 0 && part.length ≤ 4 && part.all isHexDigit

/-- A number up to 255 without leading zeros. -/
def octet (part : List Char) : Bool :=
  part.length ≠ 0 && part.length ≤ 3 && part.all Char.isDigit &&
    (part.length = 1 || part.head? ≠ some '0') &&
    Nat.ofDigitChars 10 part 0 ≤ 255

def ipv4 (text : List Char) : Bool := (text.splitOn '.').length = 4 && (text.splitOn '.').all octet

/-- The parts of an IPv6 address, an IPv4 address at the end counted as two. -/
def expanded (parts : List (List Char)) : Option (List (List Char)) :=
  let last := parts.getLast?.getD []
  if '.' ∉ last then some parts
  else if ipv4 last then some (parts.dropLast ++ [['0'], ['0']])
  else none

/-- Where two colons stand together. -/
def skipped (parts : List (List Char)) : List ℕ :=
  (List.range parts.length).filter fun i ↦ 0 < i && i + 1 < parts.length && parts[i]? = some []

/-- The parts on one side of two colons, which may be none. -/
def side (parts : List (List Char)) : List (List Char) :=
  if parts.map List.length = [0] then [] else parts

def hextets (parts : List (List Char)) : Bool :=
  match skipped parts with
  | [] => parts.length = 8 && parts.all hextet
  | [i] => (side (parts.take i)).all hextet && (side (parts.drop (i + 1))).all hextet &&
      (side (parts.take i)).length + (side (parts.drop (i + 1))).length ≤ 7
  | _ => false

/-- An IPv6 address without its scope.  No other characters occur in one. -/
def ipv6Address (text : List Char) : Bool :=
  text.all (fun c ↦ isHexDigit c || c = ':' || c = '.') && 3 ≤ (text.splitOn ':').length &&
    match expanded (text.splitOn ':') with
    | some parts => parts.length ≤ 9 && hextets parts
    | none => false

/-- `ipaddress.IPv6Address(text)` is one. -/
def ipv6 (text : List Char) : Bool :=
  let (address, percent, scope) := partition '%' text
  !text.contains '/' && (!percent || scope ≠ [] && !scope.contains '%') && ipv6Address address

/-- `v[a-fA-F0-9]+\..+`, after its `v`, of a text without line ends. -/
def ipvFuture (text : List Char) : Bool :=
  let (version, dotted, address) := partition '.' text
  dotted && version ≠ [] && version.all isHexDigit && address ≠ []

/-- `_check_bracketed_host` passes. -/
def bracketedHost : List Char → Bool
  | 'v' :: rest => ipvFuture rest
  | hostname => ipv6 hostname

example : bracketedHost "fe80::1%eth0".toList = true := by decide +kernel

example : bracketedHost "::ffff:192.0.2.1".toList = true := by decide +kernel

section caseless

theorem toLower_eq_self_or (c : Char) : c.toLower = c ∨ ∃ n < 26, c = Char.ofNat (0x41 + n) := by
  by_cases hupper : c.toNat < 0x41 ∨ 0x5a < c.toNat
  · left
    unfold Char.toLower
    rw [dif_neg]
    rintro ⟨hlow, hhigh⟩
    have hlow : 0x41 ≤ c.toNat := hlow
    have hhigh : c.toNat ≤ 0x5a := hhigh
    omega
  · right
    refine ⟨c.toNat - 0x41, by omega, ?_⟩
    rw [Nat.add_sub_of_le (by omega), Char.ofNat_toNat]

theorem toLower_upper : ∀ n < 26, isHexDigit (Char.ofNat (0x41 + n)).toLower = isHexDigit (Char.ofNat (0x41 + n)) ∧
    (Char.ofNat (0x41 + n)).toLower.isLower = true ∧ (Char.ofNat (0x41 + n)).isUpper = true := by
  decide

theorem isHexDigit_toLower (c : Char) : isHexDigit c.toLower = isHexDigit c := by
  rcases toLower_eq_self_or c with h | ⟨n, hn, rfl⟩
  · rw [h]
  · exact (toLower_upper n hn).1

/-- What is not a letter is not touched, and does not come about. -/
theorem toLower_eq_iff {c x : Char} (hc : c.isAlpha = false) : x.toLower = c ↔ x = c := by
  have hc : (c.isUpper || c.isLower) = false := hc
  rw [Bool.or_eq_false_iff] at hc
  rcases toLower_eq_self_or x with h | ⟨n, hn, rfl⟩
  · rw [h]
  · constructor
    · rintro rfl
      rw [(toLower_upper n hn).2.1] at hc
      cases hc.2
    · rintro rfl
      rw [(toLower_upper n hn).2.2] at hc
      cases hc.1

theorem splitOn_map_toLower {c : Char} (hc : c.isAlpha = false) (text : List Char) :
    (text.map Char.toLower).splitOn c = (text.splitOn c).map (List.map Char.toLower) := by
  induction text with
  | nil => rfl
  | cons x text ih =>
      rw [List.map_cons, List.splitOn_cons_eq_if_modifyHead, List.splitOn_cons_eq_if_modifyHead, ih]
      by_cases hx : x = c
      · rw [if_pos (by simpa using (toLower_eq_iff hc).mpr hx), if_pos (by simpa using hx)]
        rfl
      · rw [if_neg (by simpa using mt (toLower_eq_iff hc).mp hx), if_neg (by simpa using hx)]
        cases text.splitOn c <;> rfl

theorem length_map_toLower (part : List Char) : (part.map Char.toLower).length = part.length :=
  List.length_map _

theorem hextet_toLower (part : List Char) : hextet (part.map Char.toLower) = hextet part := by
  have hdigits : (part.map Char.toLower).all isHexDigit = part.all isHexDigit := by
    rw [List.all_map]
    congr 1
    funext c
    exact isHexDigit_toLower c
  rw [hextet, hextet, length_map_toLower, hdigits]

theorem isAlpha_of_isDigit {c : Char} (h : c.isDigit = true) : c.isAlpha = false := by
  have hdigit : (decide (48 ≤ c.val) && decide (c.val ≤ 57)) = true := h
  have halpha : c.isAlpha =
      (decide (65 ≤ c.val ∧ c.val ≤ 90) || (decide (97 ≤ c.val) && decide (c.val ≤ 122))) := rfl
  rw [halpha]
  grind

theorem isDigit_toLower (c : Char) : c.toLower.isDigit = c.isDigit := by
  by_cases hc : c.isAlpha = true
  · rcases toLower_eq_self_or c with h | ⟨n, hn, rfl⟩
    · rw [h]
    · revert n
      decide
  · rw [(toLower_eq_iff (by simpa using hc)).mpr rfl]

theorem octet_toLower (part : List Char) : octet (part.map Char.toLower) = octet part := by
  by_cases hdigits : part.all Char.isDigit = true
  · have hsame : part.map Char.toLower = part := by
      refine (List.map_congr_left fun c hc ↦ ?_).trans (List.map_id _)
      have hdigit := List.all_eq_true.mp hdigits c hc
      rw [(toLower_eq_iff (isAlpha_of_isDigit hdigit)).mpr rfl, id]
    rw [hsame]
  · have hfalse : part.all Char.isDigit = false := by simpa using hdigits
    have hmap : (part.map Char.toLower).all Char.isDigit = false := by
      rw [List.all_map, ← hfalse]
      congr 1
      funext c
      exact isDigit_toLower c
    rw [octet, octet, hmap, hfalse]
    simp

theorem ipv4_toLower (text : List Char) : ipv4 (text.map Char.toLower) = ipv4 text := by
  rw [ipv4, ipv4, splitOn_map_toLower (by decide), List.length_map, List.all_map]
  congr 2
  funext part
  exact octet_toLower part

/-- Parts in lower case. -/
def lowered (parts : List (List Char)) : List (List Char) := parts.map (List.map Char.toLower)

theorem expanded_lowered (parts : List (List Char)) : expanded (lowered parts) = (expanded parts).map lowered := by
  have hlast : ((lowered parts).getLast?.getD []) = (parts.getLast?.getD []).map Char.toLower := by
    rw [lowered, List.getLast?_map]
    cases parts.getLast? <;> rfl
  have hdot : '.' ∈ (parts.getLast?.getD []).map Char.toLower ↔ '.' ∈ parts.getLast?.getD [] := by
    rw [List.mem_map]
    constructor
    · rintro ⟨c, hc, hlower⟩
      rwa [(toLower_eq_iff (by decide)).mp hlower] at hc
    · exact fun h ↦ ⟨'.', h, rfl⟩
  simp only [expanded, hlast, hdot, ipv4_toLower]
  split
  · rfl
  · split
    · simp only [lowered, Option.map_some, List.map_append, List.map_dropLast]
      rfl
    · rfl

theorem skipped_lowered (parts : List (List Char)) : skipped (lowered parts) = skipped parts := by
  have hempty (i : ℕ) : (lowered parts)[i]? = some [] ↔ parts[i]? = some [] := by
    rw [lowered, List.getElem?_map]
    cases parts[i]? <;> simp
  simp only [skipped, hempty]
  simp only [lowered, List.length_map]

theorem side_lowered (parts : List (List Char)) : side (lowered parts) = lowered (side parts) := by
  have hlengths : (lowered parts).map List.length = parts.map List.length := by
    rw [lowered, List.map_map]
    exact List.map_congr_left fun part _ ↦ length_map_toLower part
  rw [side, side, hlengths]
  split <;> rfl

theorem all_hextet_lowered (parts : List (List Char)) : (lowered parts).all hextet = parts.all hextet := by
  rw [lowered, List.all_map]
  congr 1
  funext part
  exact hextet_toLower part

theorem hextets_lowered (parts : List (List Char)) : hextets (lowered parts) = hextets parts := by
  have htake (i : ℕ) : (lowered parts).take i = lowered (parts.take i) := by simp [lowered]
  have hdrop (i : ℕ) : (lowered parts).drop i = lowered (parts.drop i) := by simp [lowered]
  have hlength (parts : List (List Char)) : (lowered parts).length = parts.length := by simp [lowered]
  simp only [hextets, skipped_lowered, htake, hdrop, side_lowered, all_hextet_lowered, hlength]

theorem ipv6Address_toLower (text : List Char) : ipv6Address (text.map Char.toLower) = ipv6Address text := by
  have hchars : (text.map Char.toLower).all (fun c ↦ isHexDigit c || c = ':' || c = '.') =
      text.all (fun c ↦ isHexDigit c || c = ':' || c = '.') := by
    rw [List.all_map]
    congr 1
    funext c
    simp only [Function.comp, isHexDigit_toLower, toLower_eq_iff (c := ':') (by decide),
      toLower_eq_iff (c := '.') (by decide)]
  have hparts : (text.map Char.toLower).splitOn ':' = lowered (text.splitOn ':') := splitOn_map_toLower (by decide) text
  have hlength (parts : List (List Char)) : (lowered parts).length = parts.length := by simp [lowered]
  rw [ipv6Address, ipv6Address, hchars, hparts, hlength, expanded_lowered]
  cases expanded (text.splitOn ':') with
  | none => rfl
  | some parts => simp only [Option.map_some, hlength, hextets_lowered]

end caseless

/-! ## Taking URLs apart -/

/-- The characters whose compatibility form has a character that parts a URL, outside ASCII. -/
def widened : List Char :=
  [0x2047, 0x2048, 0x2049, 0x2100, 0x2101, 0x2105, 0x2106, 0x2a74, 0xfe13, 0xfe16, 0xfe55, 0xfe56, 0xfe5f,
    0xfe6b, 0xff03, 0xff0f, 0xff1a, 0xff1f, 0xff20].map Char.ofNat

/-- `str.lower`, as far as it is relied on: ASCII is lowered letter by letter whatever
follows it, what is no letter neither goes nor comes, and once is enough. -/
structure Lowercase where
  lower : List Char → List Char
  idem : ∀ text, lower (lower text) = lower text
  ascii : ∀ start rest, (∀ c ∈ start, c.toNat < 128) → ∃ rest',
    lower (start ++ rest) = start.map Char.toLower ++ rest' ∧ (rest' = [] ↔ rest = [])
  mem_iff : ∀ text c, c.toNat < 128 → c.isAlpha = false → (c ∈ lower text ↔ c ∈ text)
  widened : ∀ text c, c ∈ widened → c ∈ lower text → c ∈ text

/-- What `urlsplit` returns. -/
structure Split where
  scheme : List Char
  netloc : List Char
  path : List Char
  query : List Char
  fragment : List Char
  deriving DecidableEq

/-- Without the blanks in front, and without tabs and line ends. -/
def clean (url : List Char) : List Char :=
  (url.dropWhile fun c ↦ c.toNat ≤ 0x20).filter fun c ↦ ¬['\t', '\r', '\n'].contains c

def isSchemeChar (c : Char) : Bool := c.isAlphanum || ['+', '-', '.'].contains c

/-- The scheme, and what follows its colon. -/
def cutScheme (url : List Char) : List Char × List Char :=
  let (before, colon, after) := partition ':' url
  if colon && before.head?.any Char.isAlpha && before.all isSchemeChar then (before.map Char.toLower, after)
  else ([], url)

def endsNetloc (c : Char) : Bool := ['/', '?', '#'].contains c

/-- What stands between two slashes and the path. -/
def cutNetloc : List Char → List Char × List Char
  | '/' :: '/' :: rest => (rest.takeWhile (!endsNetloc ·), rest.dropWhile (!endsNetloc ·))
  | url => ([], url)

/-- `_check_bracketed_netloc` passes. -/
def bracketedNetloc (netloc : List Char) : Bool :=
  let hostAndPort := (rpartition '@' netloc).2.2
  let (before, bracket, bracketed) := partition '[' hostAndPort
  if bracket then
    let (hostname, _, port) := partition ']' bracketed
    before = [] && (port = [] || port.head? = some ':') && bracketedHost hostname
  else bracketedHost (partition ':' hostAndPort).1

/-- The brackets of a netloc are in pairs, and around an address. -/
def bracketsOk (netloc : List Char) : Bool :=
  netloc.contains '[' = netloc.contains ']' && (!netloc.contains '[' || bracketedNetloc netloc)

/-- `urlsplit` does not raise over a netloc. -/
def acceptable (netloc : List Char) : Bool := bracketsOk netloc && !netloc.any widened.contains

/-- `urlsplit(url)`, or nothing where it raises `ValueError`. -/
def urlsplit (url : List Char) : Option Split :=
  let (scheme, rest) := cutScheme (clean url)
  let (netloc, rest) := cutNetloc rest
  let (rest, _, fragment) := partition '#' rest
  let (path, _, query) := partition '?' rest
  if acceptable netloc then some ⟨scheme, netloc, path, query, fragment⟩
  else none

namespace Split

variable (s : Split)

/-- `_hostinfo`: the host and the port, as they are written. -/
def hostinfo : List Char × List Char :=
  let hostAndPort := (rpartition '@' s.netloc).2.2
  let (_, bracket, bracketed) := partition '[' hostAndPort
  if bracket then
    let (hostname, _, port) := partition ']' bracketed
    (hostname, (partition ':' port).2.2)
  else
    let (hostname, _, port) := partition ':' hostAndPort
    (hostname, port)

/-- A host in lower case, but for its zone. -/
def lowerHost (low : Lowercase) (hostname : List Char) : List Char :=
  let (name, percent, zone) := partition '%' hostname
  low.lower name ++ if percent then '%' :: zone else []

def hostname (low : Lowercase) : Option (List Char) :=
  if s.hostinfo.1 = [] then none else some (lowerHost low s.hostinfo.1)

/-- The most digits `int` reads. -/
def maxDigits : ℕ := 4300

/-- `port`, or nothing where reading it raises `ValueError`. -/
def port : Option (Option ℕ) :=
  let digits := s.hostinfo.2
  let n := Nat.ofDigitChars 10 digits 0
  if digits = [] then some none
  else if digits.all Char.isDigit && digits.length ≤ maxDigits && n ≤ 65535 then some (some n)
  else none

/-- `_userinfo`: the username and the password, as they are written. -/
def userinfo : Option (List Char) × Option (List Char) :=
  let (userinfo, found, _) := rpartition '@' s.netloc
  let (username, colon, password) := partition ':' userinfo
  if found then (some username, if colon then some password else none) else (none, none)

end Split

/-- `uses_netloc`. -/
def usesNetloc : List String :=
  ["", "ftp", "http", "gopher", "nntp", "telnet", "imap", "wais", "file", "mms", "https", "shttp", "snews",
    "prospero", "rtsp", "rtsps", "rtspu", "rsync", "svn", "svn+ssh", "sftp", "nfs", "git", "git+ssh", "ws",
    "wss", "itms-services"]

def rooted (path : List Char) : Bool := path = [] || path.head? = some '/'

/-- `urlunsplit(s)`. -/
def urlunsplit (s : Split) : List Char :=
  let url :=
    if s.netloc ≠ [] then "//".toList ++ s.netloc ++ (if rooted s.path then s.path else '/' :: s.path)
    else if "//".toList.isPrefixOf s.path then "//".toList ++ s.path
    else if s.scheme ≠ [] && usesNetloc.contains (String.ofList s.scheme) && rooted s.path then
      "//".toList ++ s.path
    else s.path
  (if s.scheme ≠ [] then s.scheme ++ [':'] else []) ++ url ++
    (if s.query ≠ [] then '?' :: s.query else []) ++ (if s.fragment ≠ [] then '#' :: s.fragment else [])

/-! ## Putting them together again -/

theorem takeWhile_append_of {p : Char → Bool} {start rest : List Char} (hstart : ∀ c ∈ start, p c = true)
    (hrest : ∀ c ∈ rest.head?, p c = false) :
    (start ++ rest).takeWhile p = start ∧ (start ++ rest).dropWhile p = rest := by
  induction start with
  | nil =>
      cases rest with
      | nil => exact ⟨rfl, rfl⟩
      | cons c rest => simp [hrest c rfl]
  | cons c start ih =>
      have hc := hstart c List.mem_cons_self
      simpa [hc] using ih fun c' h ↦ hstart c' (List.mem_cons_of_mem _ h)

/-- What is taken out of a URL wherever it stands. -/
def removed : List Char := ['\t', '\r', '\n']

/-- What `urlsplit` returns is of this form. -/
structure WellFormed (s : Split) : Prop where
  scheme : s.scheme = [] ∨ s.scheme.head?.any Char.isAlpha = true
  schemeChars : ∀ c ∈ s.scheme, isSchemeChar c = true ∧ c.toLower = c
  netlocChars : ∀ c ∈ s.netloc, endsNetloc c = false
  path : s.netloc ≠ [] → rooted s.path = true
  pathChars : '?' ∉ s.path ∧ '#' ∉ s.path
  queryChars : '#' ∉ s.query
  clean : ∀ c, c ∈ s.netloc ∨ c ∈ s.path ∨ c ∈ s.query ∨ c ∈ s.fragment → c ∉ removed

theorem toLower_toLower (c : Char) : c.toLower.toLower = c.toLower := by
  rcases toLower_eq_self_or c with h | ⟨n, hn, rfl⟩
  · rw [h, h]
  · revert n
    decide

theorem isAlpha_toLower (c : Char) : c.toLower.isAlpha = c.isAlpha := by
  rcases toLower_eq_self_or c with h | ⟨n, hn, rfl⟩
  · rw [h]
  · revert n
    decide

theorem isSchemeChar_toLower (c : Char) : isSchemeChar c.toLower = isSchemeChar c := by
  rcases toLower_eq_self_or c with h | ⟨n, hn, rfl⟩
  · rw [h]
  · revert n
    decide

theorem cutScheme_spec (url : List Char) :
    ((cutScheme url).1 = [] ∨ (cutScheme url).1.head?.any Char.isAlpha = true) ∧
      (∀ c ∈ (cutScheme url).1, isSchemeChar c = true ∧ c.toLower = c) ∧
      ∀ c ∈ (cutScheme url).2, c ∈ url := by
  rw [cutScheme]
  dsimp only
  split
  · rename_i h
    simp only [Bool.and_eq_true, List.all_eq_true] at h
    obtain ⟨⟨-, halpha⟩, hchars⟩ := h
    refine ⟨.inr ?_, ?_, fun c hc ↦ mem_of_partition (.inr hc)⟩
    · cases hbefore : (partition ':' url).1 with
      | nil =>
          rw [hbefore] at halpha
          cases halpha
      | cons c before =>
          rw [hbefore] at halpha
          exact (isAlpha_toLower c).trans halpha
    · intro c hc
      obtain ⟨c', hc', rfl⟩ := List.mem_map.mp hc
      exact ⟨(isSchemeChar_toLower c').trans (hchars c' hc'), toLower_toLower c'⟩
  · exact ⟨.inl rfl, nofun, fun c hc ↦ hc⟩

theorem cutNetloc_spec (url : List Char) :
    (∀ c ∈ (cutNetloc url).1, endsNetloc c = false) ∧
      ((cutNetloc url).1 ≠ [] → ∀ c ∈ (cutNetloc url).2.head?, endsNetloc c = true) ∧
      ∀ c, c ∈ (cutNetloc url).1 ∨ c ∈ (cutNetloc url).2 → c ∈ url := by
  unfold cutNetloc
  split
  · rename_i rest
    refine ⟨fun c hc ↦ by simpa using List.all_eq_true.mp List.all_takeWhile c hc, fun _ c hc ↦ ?_, fun c hc ↦ ?_⟩
    · have hhead := List.head?_dropWhile_not (!endsNetloc ·) rest
      rw [Option.mem_def.mp hc] at hhead
      simpa using hhead
    · refine List.mem_cons_of_mem _ (List.mem_cons_of_mem _ ?_)
      exact hc.elim (fun h ↦ List.takeWhile_subset _ h) fun h ↦ List.dropWhile_subset _ h
  · exact ⟨nofun, fun h ↦ absurd rfl h, fun c hc ↦ hc.elim nofun id⟩

/-- What is cut at the first question mark or hash begins with a slash, or is nothing,
where what it is cut from begins with what ends a netloc. -/
theorem rooted_of_head {rest : List Char} (h : ∀ c ∈ rest.head?, endsNetloc c = true) :
    rooted (partition '?' (partition '#' rest).1).1 = true := by
  cases rest with
  | nil => rfl
  | cons c rest =>
      have hc := h c rfl
      simp only [endsNetloc, List.contains_eq_mem, List.mem_cons, List.not_mem_nil, or_false,
        decide_eq_true_eq] at hc
      rcases hc with rfl | rfl | rfl <;> simp [partition, rooted]

theorem mem_clean {url : List Char} {c : Char} (h : c ∈ clean url) : c ∉ removed := by
  have hkept := (List.mem_filter.mp h).2
  simpa [removed] using hkept

theorem wellFormed_of_urlsplit {url : List Char} {s : Split} (h : urlsplit url = some s) :
    WellFormed s ∧ acceptable s.netloc = true := by
  obtain ⟨hscheme, hschemeChars, hrest⟩ := cutScheme_spec (clean url)
  obtain ⟨hnetloc, hpath, hparts⟩ := cutNetloc_spec (cutScheme (clean url)).2
  rw [urlsplit] at h
  dsimp only at h
  split at h
  · rename_i hok
    obtain rfl := Option.some.inj h
    set rest := (cutNetloc (cutScheme (clean url)).2).2 with hrestEq
    have hclean (c : Char) (hc : c ∈ (cutNetloc (cutScheme (clean url)).2).1 ∨ c ∈ rest) : c ∉ removed :=
      mem_clean (hrest c (hparts c hc))
    refine ⟨⟨hscheme, hschemeChars, hnetloc, fun hsome ↦ ?_, ⟨notMem_partition _ _, fun hmem ↦ ?_⟩,
      fun hmem ↦ ?_, fun c hc ↦ hclean c ?_⟩, hok⟩
    · exact rooted_of_head (hpath hsome)
    · exact notMem_partition '#' rest (mem_of_partition (.inl hmem))
    · exact notMem_partition '#' rest (mem_of_partition (.inr hmem))
    · rcases hc with hc | hc | hc | hc
      · exact .inl hc
      · exact .inr (mem_of_partition (.inl (mem_of_partition (.inl hc))))
      · exact .inr (mem_of_partition (.inl (mem_of_partition (.inr hc))))
      · exact .inr (mem_of_partition (.inr hc))
  · cases h

theorem rooted_cons {path : List Char} (h : rooted path = true) (hpath : path ≠ []) : path.head? = some '/' := by
  simpa [rooted, hpath] using h

/-- The query and the fragment, as they follow the path. -/
def tail (s : Split) : List Char :=
  (if s.query ≠ [] then '?' :: s.query else []) ++ if s.fragment ≠ [] then '#' :: s.fragment else []

theorem mem_tail {s : Split} {c : Char} (h : c ∈ tail s) : c = '?' ∨ c = '#' ∨ c ∈ s.query ∨ c ∈ s.fragment := by
  unfold tail at h
  rcases List.mem_append.mp h with h | h
  · split at h
    · rcases List.mem_cons.mp h with rfl | h
      · exact .inl rfl
      · exact .inr (.inr (.inl h))
    · cases h
  · split at h
    · rcases List.mem_cons.mp h with rfl | h
      · exact .inr (.inl rfl)
      · exact .inr (.inr (.inr h))
    · cases h

section rejoined

variable {s : Split}

theorem urlunsplit_eq (h : WellFormed s) (hscheme : s.scheme ≠ []) (hnetloc : s.netloc ≠ []) :
    urlunsplit s = s.scheme ++ ':' :: '/' :: '/' :: (s.netloc ++ (s.path ++ tail s)) := by
  rw [urlunsplit, if_pos hnetloc, if_pos hscheme, if_pos (h.path hnetloc), tail]
  simp

theorem clean_urlunsplit (h : WellFormed s) (hscheme : s.scheme ≠ []) (hnetloc : s.netloc ≠ []) :
    clean (urlunsplit s) = urlunsplit s := by
  have hnone : ∀ c ∈ urlunsplit s, c ∉ removed := by
    intro c hc
    rw [urlunsplit_eq h hscheme hnetloc] at hc
    simp only [List.mem_append, List.mem_cons] at hc
    rcases hc with hc | rfl | rfl | rfl | hc | hc | hc
    · intro hremoved
      have hchar := (h.schemeChars c hc).1
      simp only [removed, List.mem_cons, List.not_mem_nil, or_false] at hremoved
      rcases hremoved with rfl | rfl | rfl <;> exact absurd hchar (by decide)
    · decide
    · decide
    · decide
    · exact h.clean c (.inl hc)
    · exact h.clean c (.inr (.inl hc))
    · rcases mem_tail hc with rfl | rfl | hc
      · decide
      · decide
      · exact h.clean c (.inr (.inr hc))
  have hstart : (urlunsplit s).dropWhile (fun c ↦ c.toNat ≤ 0x20) = urlunsplit s := by
    rw [urlunsplit_eq h hscheme hnetloc]
    have halpha := h.scheme.resolve_left hscheme
    cases hs : s.scheme with
    | nil => exact absurd hs hscheme
    | cons c scheme =>
        rw [hs] at halpha
        have halpha : c.isAlpha = true := halpha
        refine List.dropWhile_cons_of_neg ?_
        intro hblank
        have hblank : c.toNat ≤ 0x20 := of_decide_eq_true hblank
        have hnot : ∀ n ≤ 0x20, (Char.ofNat n).isAlpha = false := by decide
        rw [← Char.ofNat_toNat c, hnot c.toNat hblank] at halpha
        cases halpha
  rw [clean, hstart, List.filter_eq_self]
  intro c hc
  simpa [removed] using hnone c hc

theorem cutScheme_urlunsplit (h : WellFormed s) (hscheme : s.scheme ≠ []) (hnetloc : s.netloc ≠ []) :
    cutScheme (urlunsplit s) = (s.scheme, '/' :: '/' :: (s.netloc ++ (s.path ++ tail s))) := by
  have hcolon : ':' ∉ s.scheme := fun hmem ↦ absurd (h.schemeChars ':' hmem).1 (by decide)
  have hlower : s.scheme.map Char.toLower = s.scheme :=
    (List.map_congr_left fun c hc ↦ (h.schemeChars c hc).2).trans (List.map_id _)
  have hchars : s.scheme.all isSchemeChar = true := List.all_eq_true.mpr fun c hc ↦ (h.schemeChars c hc).1
  rw [cutScheme, urlunsplit_eq h hscheme hnetloc, partition_append hcolon]
  simp only [h.scheme.resolve_left hscheme, hchars, hlower, Bool.and_self, if_true]

theorem cutNetloc_append (h : WellFormed s) (hnetloc : s.netloc ≠ []) :
    cutNetloc ('/' :: '/' :: (s.netloc ++ (s.path ++ tail s))) = (s.netloc, s.path ++ tail s) := by
  have hends : ∀ c ∈ (s.path ++ tail s).head?, endsNetloc c = true := by
    intro c hc
    cases hpath : s.path with
    | nil =>
        rw [hpath, List.nil_append, tail] at hc
        split at hc
        · obtain rfl := Option.some.inj hc
          rfl
        · split at hc
          · obtain rfl := Option.some.inj hc
            rfl
          · cases hc
    | cons c' path =>
        have hroot := rooted_cons (h.path hnetloc) (by rw [hpath]; exact List.cons_ne_nil _ _)
        rw [hpath] at hc hroot
        obtain rfl := Option.some.inj hroot
        obtain rfl := Option.some.inj hc
        rfl
  have htake := @takeWhile_append_of (!endsNetloc ·) s.netloc (s.path ++ tail s)
    (fun c hc ↦ by simpa using h.netlocChars c hc) (fun c hc ↦ by simpa using hends c hc)
  exact Prod.ext htake.1 htake.2

/-- A URL put together of well-formed parts is taken apart into them again, if at all. -/
theorem urlsplit_urlunsplit (h : WellFormed s) (hscheme : s.scheme ≠ []) (hnetloc : s.netloc ≠ []) :
    urlsplit (urlunsplit s) = if acceptable s.netloc then some s else none := by
  have hhash : '#' ∉ s.path ++ if s.query ≠ [] then '?' :: s.query else [] := by
    rw [List.mem_append, not_or]
    refine ⟨h.pathChars.2, ?_⟩
    split
    · exact List.not_mem_cons_of_ne_of_not_mem (by decide) h.queryChars
    · exact List.not_mem_nil
  have hfragment := partition_rejoin hhash s.fragment
  have hquery := partition_rejoin h.pathChars.1 s.query
  rw [List.append_assoc, ← tail, Prod.mk.injEq] at hfragment
  rw [Prod.mk.injEq] at hquery
  unfold urlsplit
  rw [clean_urlunsplit h hscheme hnetloc]
  simp only [cutScheme_urlunsplit h hscheme hnetloc, cutNetloc_append h hnetloc, hfragment, hquery]

end rejoined

/-! ## Hosts in lower case -/

namespace Split

variable {low : Lowercase} {hostname : List Char}

theorem lowerHost_notMem (h : '%' ∉ hostname) : lowerHost low hostname = low.lower hostname := by
  rw [lowerHost, partition_notMem h]
  exact List.append_nil _

theorem lowerHost_append {name zone : List Char} (h : '%' ∉ name) :
    lowerHost low (name ++ '%' :: zone) = low.lower name ++ '%' :: zone := by
  rw [lowerHost, partition_append h]
  rfl

/-- A property of the characters of a host that lower-casing keeps is kept. -/
theorem mem_lowerHost {c : Char} (hlower : ∀ text, c ∈ low.lower text → c ∈ text)
    (h : c ∈ lowerHost low hostname) : c ∈ hostname := by
  rcases partition_cases '%' hostname with ⟨hno, -⟩ | ⟨name, zone, rfl, hno, -⟩
  · rw [lowerHost_notMem hno] at h
    exact hlower _ h
  · rw [lowerHost_append hno, List.mem_append] at h
    exact List.mem_append.mpr (h.imp_left (hlower _))

theorem mem_lowerHost_iff {c : Char} (hascii : c.toNat < 128) (halpha : c.isAlpha = false) :
    c ∈ lowerHost low hostname ↔ c ∈ hostname := by
  refine ⟨mem_lowerHost fun text ↦ (low.mem_iff text c hascii halpha).mp, fun h ↦ ?_⟩
  rcases partition_cases '%' hostname with ⟨hno, -⟩ | ⟨name, zone, rfl, hno, -⟩
  · rw [lowerHost_notMem hno]
    exact (low.mem_iff _ c hascii halpha).mpr h
  · rw [lowerHost_append hno, List.mem_append]
    exact (List.mem_append.mp h).imp_left (low.mem_iff _ c hascii halpha).mpr

theorem lowerHost_lowerHost : lowerHost low (lowerHost low hostname) = lowerHost low hostname := by
  have hpercent {text : List Char} (h : '%' ∉ text) : '%' ∉ low.lower text :=
    mt (low.mem_iff text '%' (by decide) (by decide)).mp h
  rcases partition_cases '%' hostname with ⟨hno, -⟩ | ⟨name, zone, rfl, hno, -⟩
  · rw [lowerHost_notMem hno, lowerHost_notMem (hpercent hno), low.idem]
  · rw [lowerHost_append hno, lowerHost_append (hpercent hno), low.idem]

theorem lower_eq_nil_iff (low : Lowercase) (text : List Char) : low.lower text = [] ↔ text = [] := by
  obtain ⟨rest, hlower, hnil⟩ := low.ascii [] text nofun
  rw [List.nil_append] at hlower
  rw [hlower, List.map_nil, List.nil_append, hnil]

theorem lowerHost_eq_nil_iff : lowerHost low hostname = [] ↔ hostname = [] := by
  rcases partition_cases '%' hostname with ⟨hno, -⟩ | ⟨name, zone, rfl, hno, -⟩
  · rw [lowerHost_notMem hno, lower_eq_nil_iff]
  · simp [lowerHost_append hno]

theorem isHexDigit_ascii {c : Char} (h : isHexDigit c = true) : c.toNat < 128 := by
  simp only [isHexDigit, Json.hexDigit?] at h
  split at h
  · rename_i hc
    exact Nat.lt_of_le_of_lt hc.2 (by decide)
  · split at h
    · rename_i hc
      exact Nat.lt_of_le_of_lt hc.2 (by decide)
    · split at h
      · rename_i hc
        exact Nat.lt_of_le_of_lt hc.2 (by decide)
      · cases h

theorem lower_ascii {text : List Char} (h : ∀ c ∈ text, c.toNat < 128) :
    low.lower text = text.map Char.toLower := by
  obtain ⟨rest, hlower, hnil⟩ := low.ascii text [] h
  rwa [List.append_nil, hnil.mpr rfl, List.append_nil] at hlower

theorem ascii_of_ipv6Address {text : List Char} (h : ipv6Address text = true) : ∀ c ∈ text, c.toNat < 128 := by
  simp only [ipv6Address, Bool.and_eq_true, List.all_eq_true, Bool.or_eq_true, decide_eq_true_eq] at h
  intro c hc
  rcases h.1.1 c hc with (hhex | rfl) | rfl
  · exact isHexDigit_ascii hhex
  · decide
  · decide

theorem ipv6_notMem {text : List Char} (h : '%' ∉ text) :
    ipv6 text = true ↔ '/' ∉ text ∧ ipv6Address text = true := by
  rw [ipv6, partition_notMem h]
  simp

theorem ipv6_append {name zone : List Char} (h : '%' ∉ name) : ipv6 (name ++ '%' :: zone) = true ↔
    ('/' ∉ name ∧ '/' ∉ zone) ∧ (zone ≠ [] ∧ '%' ∉ zone) ∧ ipv6Address name = true := by
  rw [ipv6, partition_append h]
  simp [and_assoc]

/-- An IPv6 address, with its scope or without, is one in lower case too. -/
theorem ipv6_lowerHost (h : ipv6 hostname = true) : ipv6 (lowerHost low hostname) = true := by
  have hno {text : List Char} {c : Char} (hc : c.isAlpha = false) (h : c ∉ text) :
      c ∉ text.map Char.toLower := by
    rw [List.mem_map]
    rintro ⟨c', hc', heq⟩
    rw [(toLower_eq_iff hc).mp heq] at hc'
    exact h hc'
  rcases partition_cases '%' hostname with ⟨hpercent, -⟩ | ⟨name, zone, rfl, hpercent, -⟩
  · obtain ⟨hslash, haddress⟩ := (ipv6_notMem hpercent).mp h
    rw [lowerHost_notMem hpercent, lower_ascii (ascii_of_ipv6Address haddress),
      ipv6_notMem (hno (by decide) hpercent), ipv6Address_toLower]
    exact ⟨hno (by decide) hslash, haddress⟩
  · obtain ⟨⟨hslash, hzoneSlash⟩, hzone, haddress⟩ := (ipv6_append hpercent).mp h
    rw [lowerHost_append hpercent, lower_ascii (ascii_of_ipv6Address haddress),
      ipv6_append (hno (by decide) hpercent), ipv6Address_toLower]
    exact ⟨⟨hno (by decide) hslash, hzoneSlash⟩, hzone, haddress⟩

theorem ipvFuture_iff {rest : List Char} : ipvFuture rest = true ↔ ∃ version address,
    rest = version ++ '.' :: address ∧ version ≠ [] ∧ (∀ c ∈ version, isHexDigit c = true) ∧ address ≠ [] := by
  constructor
  · intro h
    rcases partition_cases '.' rest with ⟨-, hparts⟩ | ⟨version, address, rfl, -, hparts⟩
    · simp [ipvFuture, hparts] at h
    · simp only [ipvFuture, hparts, Bool.and_eq_true, List.all_eq_true, decide_eq_true_eq] at h
      obtain ⟨⟨⟨-, hversion⟩, hhex⟩, haddress⟩ := h
      exact ⟨version, address, rfl, hversion, hhex, haddress⟩
  · rintro ⟨version, address, rfl, hversion, hhex, haddress⟩
    have hdot : '.' ∉ version := fun hmem ↦ absurd (hhex '.' hmem) (by decide)
    simp only [ipvFuture, partition_append hdot, Bool.and_eq_true, List.all_eq_true, decide_eq_true_eq]
    exact ⟨⟨⟨trivial, hversion⟩, hhex⟩, haddress⟩

/-- What a host begins with is lowered letter by letter while it is ASCII. -/
theorem lowerHost_start {start : List Char} (hascii : ∀ c ∈ start, c.toNat < 128) (hpercent : '%' ∉ start)
    (rest : List Char) : ∃ rest', lowerHost low (start ++ rest) = start.map Char.toLower ++ rest' ∧
      (rest' = [] ↔ rest = []) := by
  rcases partition_cases '%' rest with ⟨hno, -⟩ | ⟨name, zone, rfl, hno, -⟩
  · obtain ⟨rest', hlower, hnil⟩ := low.ascii start rest hascii
    refine ⟨rest', ?_, hnil⟩
    rw [lowerHost_notMem (by rw [List.mem_append, not_or]; exact ⟨hpercent, hno⟩), hlower]
  · obtain ⟨rest', hlower, -⟩ := low.ascii start name hascii
    refine ⟨rest' ++ '%' :: zone, ?_, by simp⟩
    rw [← List.append_assoc, lowerHost_append (by rw [List.mem_append, not_or]; exact ⟨hpercent, hno⟩), hlower,
      List.append_assoc]

theorem ipvFuture_lowerHost {rest : List Char} (h : ipvFuture rest = true) :
    ∃ rest', lowerHost low ('v' :: rest) = 'v' :: rest' ∧ ipvFuture rest' = true := by
  obtain ⟨version, address, rfl, hversion, hhex, haddress⟩ := ipvFuture_iff.mp h
  have hmem {c : Char} (hc : c ∈ 'v' :: (version ++ ['.'])) : c = 'v' ∨ isHexDigit c = true ∨ c = '.' := by
    simp only [List.mem_cons, List.mem_append, List.not_mem_nil, or_false] at hc
    exact hc.imp_right (Or.imp_left (hhex c))
  have hascii : ∀ c ∈ 'v' :: (version ++ ['.']), c.toNat < 128 := by
    intro c hc
    rcases hmem hc with rfl | hc | rfl
    · decide
    · exact isHexDigit_ascii hc
    · decide
  have hpercent : '%' ∉ 'v' :: (version ++ ['.']) := fun hc ↦ absurd (hmem hc) (by decide)
  obtain ⟨tail, hlower, hnil⟩ := lowerHost_start hascii hpercent address
  refine ⟨version.map Char.toLower ++ '.' :: tail, ?_, ipvFuture_iff.mpr ⟨_, _, rfl, ?_, ?_, mt hnil.mp haddress⟩⟩
  · have hsplit : 'v' :: (version ++ '.' :: address) = 'v' :: (version ++ ['.']) ++ address := by simp
    rw [hsplit, hlower]
    simp
  · simpa using hversion
  · intro c hc
    obtain ⟨c', hc', rfl⟩ := List.mem_map.mp hc
    exact (isHexDigit_toLower c').trans (hhex c' hc')

theorem bracketedHost_of_ipv6 {text : List Char} (h : ipv6 text = true) : bracketedHost text = true := by
  unfold bracketedHost
  split
  · rename_i rest
    exfalso
    have haddress : ∃ name, ipv6Address ('v' :: name) = true := by
      rcases partition_cases '%' ('v' :: rest) with ⟨hno, -⟩ | ⟨name, zone, hsplit, hno, -⟩
      · exact ⟨rest, ((ipv6_notMem hno).mp h).2⟩
      · rw [hsplit, ipv6_append hno] at h
        cases name with
        | nil => cases (List.cons.inj hsplit).1
        | cons c name =>
            obtain ⟨rfl, -⟩ := List.cons.inj hsplit
            exact ⟨name, h.2.2⟩
    obtain ⟨name, haddress⟩ := haddress
    simp only [ipv6Address, Bool.and_eq_true, List.all_cons] at haddress
    exact absurd haddress.1.1.1 (by decide)
  · exact h

/-- What may stand in brackets may in lower case. -/
theorem bracketedHost_lowerHost (h : bracketedHost hostname = true) :
    bracketedHost (lowerHost low hostname) = true := by
  unfold bracketedHost at h
  split at h
  · obtain ⟨rest', hlower, hfuture⟩ := ipvFuture_lowerHost h
    rw [hlower]
    exact hfuture
  · exact bracketedHost_of_ipv6 (ipv6_lowerHost h)

/-! ## Hosts and ports -/

theorem notMem_rpartition (c : Char) (text : List Char) : c ∉ (rpartition c text).2.2 := by
  rw [rpartition]
  split
  · intro hmem
    have hne := List.all_eq_true.mp List.all_takeWhile c (List.mem_reverse.mp hmem)
    simp at hne
  · assumption

theorem mem_of_rpartition {c x : Char} {text : List Char} (h : x ∈ (rpartition c text).2.2) : x ∈ text := by
  rw [rpartition] at h
  split at h
  · exact List.mem_reverse.mp (List.takeWhile_subset _ (List.mem_reverse.mp h))
  · exact h

/-- The host of a netloc: without brackets it has no colon, and with them it is
what may stand in brackets. -/
theorem hostinfo_cases (s : Split) :
    (∀ c ∈ s.hostinfo.1, c ∈ s.netloc ∧ c ≠ '@') ∧
      ('[' ∉ s.hostinfo.1 ∧ ':' ∉ s.hostinfo.1 ∨ ']' ∉ s.hostinfo.1 ∧ '[' ∈ s.netloc) ∧
      ('[' ∈ s.netloc → acceptable s.netloc = true → bracketedHost s.hostinfo.1 = true) := by
  have hmem {x : Char} (hx : x ∈ (rpartition '@' s.netloc).2.2) : x ∈ s.netloc ∧ x ≠ '@' := by
    refine ⟨mem_of_rpartition hx, ?_⟩
    rintro rfl
    exact notMem_rpartition _ _ hx
  rcases partition_cases '[' (rpartition '@' s.netloc).2.2 with ⟨hno, hparts⟩ | ⟨before, after, hsplit, hno, hparts⟩
  · have hinfo : s.hostinfo.1 = (partition ':' (rpartition '@' s.netloc).2.2).1 := by
      simp only [hostinfo, hparts, Bool.false_eq_true, if_false]
    rw [hinfo]
    refine ⟨fun c hc ↦ hmem (mem_of_partition (.inl hc)), .inl ⟨fun hc ↦ hno (mem_of_partition (.inl hc)),
      notMem_partition _ _⟩, fun hbracket hok ↦ ?_⟩
    simp only [acceptable, bracketsOk, bracketedNetloc, hparts, Bool.and_eq_true, Bool.or_eq_true,
      List.contains_eq_mem, hbracket, decide_true, Bool.not_true, Bool.false_eq_true, if_false,
      false_or] at hok
    exact hok.1.2
  · have hinfo : s.hostinfo.1 = (partition ']' after).1 := by
      simp only [hostinfo, hparts, if_true]
    have hafter {x : Char} (hx : x ∈ after) : x ∈ (rpartition '@' s.netloc).2.2 := by
      rw [hsplit]
      exact List.mem_append_right _ (List.mem_cons_of_mem _ hx)
    rw [hinfo]
    refine ⟨fun c hc ↦ hmem (hafter (mem_of_partition (.inl hc))), .inr ⟨notMem_partition _ _, ?_⟩,
      fun hbracket hok ↦ ?_⟩
    · refine (hmem ?_).1
      rw [hsplit]
      exact List.mem_append_right _ List.mem_cons_self
    · simp only [acceptable, bracketsOk, bracketedNetloc, hparts, Bool.and_eq_true, Bool.or_eq_true,
        List.contains_eq_mem, hbracket, decide_true, Bool.not_true, Bool.false_eq_true, if_true,
        false_or] at hok
      exact hok.1.2.2

end Split

end Url
