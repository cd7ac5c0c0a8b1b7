import AcemqAmqp.Core.Failure

/-!
# Codecs

What reads and writes message bodies in one format, how it looks at a content
type, and the two ways text becomes bytes in a body: `str.encode("utf-8")`, and
`bytes.decode("utf-8")`, which refuses what is not UTF-8.
-/

namespace AcemqAmqp

/-- The `Codec` protocol, as far as the codecs that wrap another one call it. -/
structure Codec (Payload : Type) where
  contentType : String
  encode : Payload → Except Failure Bytes
  decode : Bytes → Option String → Except Failure Payload
  canDecode : Option String → Bool

namespace ContentType

/-- The letters of a content type, in lower case. -/
def lowered (contentType : Option String) : List Char := (contentType.getD "").toList.map Char.toLower

/-- `text.lower().startswith(start)`. -/
def StartsWith (contentType : Option String) (start : String) : Prop :=
  start.toList <+: lowered contentType

/-- `part in text.lower()`. -/
def Mentions (contentType : Option String) (part : String) : Prop :=
  part.toList <:+: lowered contentType

instance (contentType : Option String) (start : String) : Decidable (StartsWith contentType start) :=
  inferInstanceAs (Decidable (_ <+: _))

instance (contentType : Option String) (part : String) : Decidable (Mentions contentType part) :=
  inferInstanceAs (Decidable (_ <:+: _))

end ContentType

/-- `AceMQError(text)`. -/
def aceMQError (text : String) : Failure := ⟨.exception, "AceMQError", text⟩

/-- `BytesCodec`, over the payloads that are bytes. -/
def bytesCodec : Codec Bytes where
  contentType := "application/octet-stream"
  encode := .ok
  decode body _ := .ok body
  canDecode _ := true

/-- `text.encode("utf-8")`. -/
def encodeUtf8 (text : String) : Bytes := text.toByteArray.data.toList

/-- `body.decode("utf-8")`, or nothing where it raises `UnicodeDecodeError`. -/
def decodeUtf8 (body : Bytes) : Option String := String.fromUTF8? ⟨body.toArray⟩

theorem decodeUtf8_eq_some_iff {body : Bytes} {text : String} :
    decodeUtf8 body = some text ↔ body = encodeUtf8 text := by
  unfold decodeUtf8 encodeUtf8 String.fromUTF8?
  constructor
  · intro h
    split at h
    · obtain rfl := Option.some.inj h
      rfl
    · cases h
  · rintro rfl
    rw [dif_pos text.isValidUTF8]
    rfl

@[simp] theorem decodeUtf8_encodeUtf8 (text : String) : decodeUtf8 (encodeUtf8 text) = some text :=
  decodeUtf8_eq_some_iff.mpr rfl

/-- `TypeError(text)`. -/
def typeError (text : String) : Failure := ⟨.exception, "TypeError", text⟩

/-- The last `width` digits of a number to the base 256, the most significant first. -/
def bigEndian : ℕ → ℕ → Bytes
  | 0, _ => []
  | width + 1, n => bigEndian width (n / 256) ++ [UInt8.ofNat n]

/-- `int.from_bytes(digits, "big")`. -/
def fromBytesBig (digits : Bytes) : ℕ := digits.foldl (fun n digit ↦ 256 * n + digit.toNat) 0

/-- `n.to_bytes(width, "big")`. -/
def toBytesBig (width n : ℕ) : Except Failure Bytes :=
  if n < 256 ^ width then .ok (bigEndian width n)
  else .error ⟨.exception, "OverflowError", "int too big to convert"⟩

@[simp] theorem length_bigEndian (width n : ℕ) : (bigEndian width n).length = width := by
  induction width generalizing n with
  | zero => rfl
  | succ width ih => simp [bigEndian, ih]

theorem fromBytesBig_bigEndian {width n : ℕ} (h : n < 256 ^ width) :
    fromBytesBig (bigEndian width n) = n := by
  induction width generalizing n with
  | zero =>
      rw [pow_zero, Nat.lt_one_iff] at h
      rw [h]
      rfl
  | succ width ih =>
      have hdiv : n / 256 < 256 ^ width := by
        rw [Nat.div_lt_iff_lt_mul (by decide), ← pow_succ]
        exact h
      have hrest := ih hdiv
      rw [fromBytesBig] at hrest
      rw [fromBytesBig, bigEndian, List.foldl_append, hrest, List.foldl_cons, List.foldl_nil,
        UInt8.toNat_ofNat']
      exact Nat.div_add_mod n 256

/-- `body[i]`. -/
def byteAt (body : Bytes) (i : ℕ) : Except Failure UInt8 :=
  match body[i]? with
  | some b => .ok b
  | none => .error ⟨.exception, "IndexError", "index out of range"⟩

end AcemqAmqp
