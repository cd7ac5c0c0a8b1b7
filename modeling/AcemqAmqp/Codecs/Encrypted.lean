import AcemqAmqp.Codecs.Codec
import AcemqAmqp.Foundations.Dict
import AcemqAmqp.Foundations.Fallible

/-!
# Encrypted bodies

The framing of an encrypted body, the keyring, and `EncryptedCodec` over
AES-GCM.  The cipher is a parameter: what it seals, and what it opens.
-/

namespace AcemqAmqp

open Fallible

namespace Encrypted

def magic : UInt8 := 0xAE

def version : UInt8 := 0x01

def nonceBytes : ℕ := 12

def tagBytes : ℕ := 16

def maxKeyIdBytes : ℕ := 255

/-- `KEY_SIZES`. -/
def keySizes : List ℕ := [16, 24, 32]

/-- One key, and the name a message calls it by. -/
structure EncryptionKey where
  id : String
  key : Bytes
  named : id ≠ ""
  short : (encodeUtf8 id).length ≤ maxKeyIdBytes
  no_null : Char.ofNat 0 ∉ id.toList
  sized : key.length ∈ keySizes

/-- `EncryptionKey(id, key)`. -/
def EncryptionKey.new (id : String) (key : Bytes) : Except Failure EncryptionKey :=
  if hnamed : id = "" then .error <| aceMQError
    "acemq: a key identifier cannot be empty: it is what a reader looks the key up by"
  else if hshort : (encodeUtf8 id).length ≤ maxKeyIdBytes then
    if hnull : Char.ofNat 0 ∈ id.toList then .error <| aceMQError <|
      "acemq: the key identifier " ++ reprText id ++ " contains a null byte"
    else if hsized : key.length ∈ keySizes then .ok ⟨id, key, hnamed, hshort, hnull, hsized⟩
    else .error <| aceMQError <|
      "acemq: an AES key is 16, 24 or 32 bytes and this one is " ++ toString key.length ++
        ". If it came from a passphrase it needs a key derivation function such as PBKDF2, scrypt " ++
        "or Argon2 rather than being used as it stands"
  else .error <| aceMQError <|
    "acemq: a key identifier is at most " ++ toString maxKeyIdBytes ++ " bytes and " ++ reprText id ++
      " is " ++ toString (encodeUtf8 id).length ++ ". It travels in front of every message, so it is " ++
      "a name rather than a description"

/-- The keys a process can use, and the one it writes with. -/
structure Keyring where
  keys : Dict String EncryptionKey
  currentId : String
  filed : ∀ id key, keys.get? id = some key → key.id = id
  holds : currentId ∈ keys

namespace Keyring

/-- The keys, by name: a later one of a name replaces an earlier one. -/
def file (keys : Dict String EncryptionKey) (key : EncryptionKey) : Dict String EncryptionKey :=
  keys.set key.id key

theorem filed_file {keys : Dict String EncryptionKey} (key : EncryptionKey)
    (h : ∀ id key, keys.get? id = some key → key.id = id) :
    ∀ id key', (file keys key).get? id = some key' → key'.id = id := by
  intro id key' hget
  rw [file, Dict.get?_set] at hget
  split at hget
  · rename_i hid
    rw [← Option.some.inj hget, hid]
  · exact h id key' hget

/-- `Keyring(first, *rest)`.  A keyring needs at least one key. -/
def new (first : EncryptionKey) (rest : List EncryptionKey) : Keyring where
  keys := rest.foldl file (file ∅ first)
  currentId := first.id
  filed := by
    have hfold : ∀ (rest : List EncryptionKey) (keys : Dict String EncryptionKey),
        (∀ id key, keys.get? id = some key → key.id = id) →
        ∀ id key, (rest.foldl file keys).get? id = some key → key.id = id := by
      intro rest
      induction rest with
      | nil => exact fun _ h ↦ h
      | cons key rest ih => exact fun keys h ↦ ih _ (filed_file key h)
    exact hfold rest _ (filed_file first fun id key h ↦ by cases h)
  holds := by
    have hfold : ∀ (rest : List EncryptionKey) (keys : Dict String EncryptionKey),
        first.id ∈ keys → first.id ∈ rest.foldl file keys := by
      intro rest
      induction rest with
      | nil => exact fun _ h ↦ h
      | cons key rest ih => exact fun keys h ↦ ih _ (Dict.mem_set.mpr (.inr h))
    exact hfold rest _ (Dict.mem_set.mpr (.inl rfl))

variable (ring : Keyring)

/-- Puts a key on the ring without making it the one written with. -/
def add (key : EncryptionKey) : Keyring where
  keys := file ring.keys key
  currentId := ring.currentId
  filed := filed_file key ring.filed
  holds := Dict.mem_set.mpr (.inr ring.holds)

/-- Makes a key the one new messages are written with. -/
def use (id : String) : Except Failure Keyring :=
  if holds : id ∈ ring.keys then .ok { ring with currentId := id, holds := holds }
  else .error (aceMQError ("acemq: there is no key " ++ reprText id ++ " on this keyring"))

/-- The key new messages are written with. -/
def current : EncryptionKey :=
  match h : ring.keys.get? ring.currentId with
  | some key => key
  | none => absurd ring.holds (Dict.get?_eq_none_iff.mp h)

/-- Looks a key up by the name a message called it. -/
def keyFor (id : String) : Except Failure EncryptionKey :=
  match ring.keys.get? id with
  | some key => .ok key
  | none => .error <| fatalError <|
      let held := ", ".intercalate ring.keys.keys
      "acemq: this message was encrypted with key " ++ reprText id ++ ", which is not on this " ++
        "keyring (it holds " ++ (if held = "" then "nothing" else held) ++ "). Either the key was retired " ++
        "while messages written with it were still queued, or the message came from a service using " ++
        "a different keyring"

end Keyring

theorem Keyring.get?_current (ring : Keyring) : ring.keys.get? ring.current.id = some ring.current := by
  unfold Keyring.current
  split
  · rename_i key hget
    rw [ring.filed _ _ hget, hget]
  · rename_i hget
    exact absurd ring.holds (Dict.get?_eq_none_iff.mp hget)

/-- The header of a message written with a key of this name. -/
def frame (keyId : String) : Except Failure Bytes :=
  let encoded := encodeUtf8 keyId
  if encoded.length < 256 then .ok ([magic, version, UInt8.ofNat encoded.length] ++ encoded)
  else .error (valueError "bytes must be in range(0, 256)")

/-- Reads which key a message needs, without needing the key. -/
def keyIdOf (body : Bytes) : Except Failure (Option String) :=
  if body.length < 3 then .ok none
  else do
    if (← byteAt body 0) ≠ magic then return none
    if (← byteAt body 1) ≠ version then return none
    let length := (← byteAt body 2).toNat
    if length = 0 ∨ body.length < 3 + length then return none
    return decodeUtf8 ((body.drop 3).take length)

/-- `AESGCM(key).encrypt(nonce, plaintext, header)`, or the name of the type of
what it raises, and `AESGCM(key).decrypt(nonce, sealed, header)`. -/
structure Cipher where
  encrypt : (key nonce plaintext header : Bytes) → Except String Bytes
  decrypt : (key nonce sealed header : Bytes) → Option Bytes

section codec

variable {Payload : Type} (cipher : Cipher) (delegate : Codec Payload) (ring : Keyring)

/-- `encode`.  `typeName` is what `type(payload).__name__` answers, and `nonce`
what the operating system draws. -/
def encode (typeName : Payload → String) (nonce : Bytes) (payload : Payload) : Except Failure Bytes := do
  let key := ring.current
  let header ← frame key.id
  let plaintext ← delegate.encode payload
  match cipher.encrypt key.key nonce plaintext header with
  | .error raised => .error <| aceMQError <|
      "acemq: could not encrypt a " ++ typeName payload ++ " with key " ++ reprText key.id ++ ": " ++ raised
  | .ok sealed => .ok (header ++ nonce ++ sealed)

/-- The part of `decode` before the delegate: the plaintext. -/
def plaintextOf (body : Bytes) : Except Failure Bytes := do
  match ← keyIdOf body with
  | none => .error <| fatalError <|
      "acemq: this message was not written by EncryptedCodec — it does not start with the framing " ++
        "this codec writes. A consumer configured to decrypt has been pointed at a queue carrying " ++
        "something else"
  | some keyId =>
      let headerLength := 3 + (encodeUtf8 keyId).length
      if body.length < headerLength + nonceBytes + tagBytes then .error <| fatalError <|
        "acemq: this message is too short to hold a nonce and an authentication tag, so it was " ++
          "truncated somewhere between being written and being read"
      else do
        let key ← ring.keyFor keyId
        let header := body.take headerLength
        let nonce := (body.drop headerLength).take nonceBytes
        let sealed := body.drop (headerLength + nonceBytes)
        match cipher.decrypt key.key nonce sealed header with
        | some plaintext => .ok plaintext
        | none => .error <| fatalError <|
            "acemq: this message did not decrypt with key " ++ reprText keyId ++ ". Either that is " ++
              "not the key it was written with, or it was altered after it was written"

def decode (body : Bytes) (_contentType : Option String) : Except Failure Payload := do
  delegate.decode (← plaintextOf cipher ring body) (some delegate.contentType)

end codec

/-! ## The framing -/

/-- What `frame` returns for the name of a key. -/
def framed (keyId : String) : Bytes :=
  [magic, version, UInt8.ofNat (encodeUtf8 keyId).length] ++ encodeUtf8 keyId

section framing

variable {keyId : String} {body : Bytes}

theorem length_framed (keyId : String) : (framed keyId).length = 3 + (encodeUtf8 keyId).length := by
  rw [framed, List.length_append]
  rfl

theorem frame_key (key : EncryptionKey) : frame key.id = .ok (framed key.id) :=
  if_pos (Nat.lt_succ_of_le key.short)

theorem EncryptionKey.length_pos (key : EncryptionKey) : 0 < (encodeUtf8 key.id).length := by
  rw [List.length_pos_iff]
  intro hnil
  have hread : decodeUtf8 [] = some key.id := decodeUtf8_eq_some_iff.mpr hnil.symm
  have hempty : decodeUtf8 [] = some "" := decodeUtf8_eq_some_iff.mpr rfl
  exact key.named (Option.some.inj (hread.symm.trans hempty))

theorem keyIdOf_cons (m v n : UInt8) (rest : Bytes) :
    keyIdOf (m :: v :: n :: rest) = .ok
      (if m = magic ∧ v = version ∧ n.toNat ≠ 0 ∧ n.toNat ≤ rest.length then
        decodeUtf8 (rest.take n.toNat) else none) := by
  have hlength : ¬(m :: v :: n :: rest).length < 3 := by
    simp only [List.length_cons]
    omega
  rw [keyIdOf, if_neg hlength]
  by_cases hm : m = magic
  · by_cases hv : v = version
    · by_cases hn : n.toNat = 0 ∨ rest.length < n.toNat
      · have hnot : ¬(m = magic ∧ v = version ∧ n.toNat ≠ 0 ∧ n.toNat ≤ rest.length) := by
          omega
        have hfits : n.toNat = 0 ∨ (m :: v :: n :: rest).length < 3 + n.toNat := by
          simp only [List.length_cons]
          omega
        rw [if_neg hnot]
        subst hm hv
        exact if_pos hfits
      · have hall : m = magic ∧ v = version ∧ n.toNat ≠ 0 ∧ n.toNat ≤ rest.length :=
          ⟨hm, hv, by omega, by omega⟩
        have hfits : ¬(n.toNat = 0 ∨ (m :: v :: n :: rest).length < 3 + n.toNat) := by
          simp only [List.length_cons]
          omega
        rw [if_pos hall]
        subst hm hv
        exact if_neg hfits
    · rw [if_neg fun h ↦ hv h.2.1]
      subst hm
      exact if_pos hv
  · rw [if_neg fun h ↦ hm h.1]
    exact if_pos hm

theorem exists_keyIdOf (body : Bytes) : ∃ read, keyIdOf body = .ok read := by
  match body with
  | m :: v :: n :: rest => exact ⟨_, keyIdOf_cons m v n rest⟩
  | [] | [_] | [_, _] => exact ⟨none, rfl⟩

theorem keyIdOf_framed (hpos : 0 < (encodeUtf8 keyId).length)
    (hshort : (encodeUtf8 keyId).length ≤ maxKeyIdBytes) (rest : Bytes) :
    keyIdOf (framed keyId ++ rest) = .ok (some keyId) := by
  have hsize : (UInt8.ofNat (encodeUtf8 keyId).length).toNat = (encodeUtf8 keyId).length :=
    UInt8.toNat_ofNat_of_lt (Nat.lt_succ_of_le hshort)
  have hfits : (encodeUtf8 keyId).length ≤ (encodeUtf8 keyId ++ rest).length := by
    rw [List.length_append]
    exact Nat.le_add_right _ _
  have hread := keyIdOf_cons magic version (UInt8.ofNat (encodeUtf8 keyId).length) (encodeUtf8 keyId ++ rest)
  rw [hsize, if_pos ⟨rfl, rfl, hpos.ne', hfits⟩, List.take_left, decodeUtf8_encodeUtf8] at hread
  exact hread

/-- Whatever is read as a name was framed: the bytes in front are `frame` of it. -/
theorem eq_framed_of_keyIdOf (h : keyIdOf body = .ok (some keyId)) :
    ∃ rest, body = framed keyId ++ rest := by
  match body with
  | m :: v :: n :: tail =>
      rw [keyIdOf_cons] at h
      split at h
      · rename_i hall
        obtain ⟨rfl, rfl, _, hn⟩ := hall
        have hname : tail.take n.toNat = encodeUtf8 keyId :=
          decodeUtf8_eq_some_iff.mp (Except.ok.inj h)
        have hsize : (encodeUtf8 keyId).length = n.toNat := by
          rw [← hname, List.length_take, Nat.min_eq_left hn]
        refine ⟨tail.drop n.toNat, ?_⟩
        rw [framed, hsize, UInt8.ofNat_toNat, ← hname, List.append_assoc, List.take_append_drop]
        rfl
      · cases h
  | [] | [_] | [_, _] => cases h

end framing

/-! ## Sealed bodies -/

/-- One call of `AESGCM(key).encrypt(nonce, plaintext, header)`. -/
structure Sealing where
  key : Bytes
  nonce : Bytes
  plaintext : Bytes
  header : Bytes
deriving DecidableEq

/-- The cipher is an authenticated one, and `made` holds of the sealings ever made with
it: what opens under a key, a nonce and a header is what was sealed under these three,
and sealing lengthens a text by its tag. -/
structure Authentic (cipher : Cipher) (made : Sealing → Prop) : Prop where
  opens : ∀ key nonce sealed header plaintext,
    cipher.decrypt key nonce sealed header = some plaintext ↔
      made ⟨key, nonce, plaintext, header⟩ ∧
        cipher.encrypt key nonce plaintext header = .ok sealed
  tagged : ∀ key nonce plaintext header sealed,
    cipher.encrypt key nonce plaintext header = .ok sealed →
      sealed.length = plaintext.length + tagBytes

/-- The body a sealing travels in. -/
def Carries (cipher : Cipher) (body : Bytes) (sealing : Sealing) : Prop :=
  ∃ sealed, cipher.encrypt sealing.key sealing.nonce sealing.plaintext sealing.header = .ok sealed ∧
    sealing.nonce.length = nonceBytes ∧ body = sealing.header ++ sealing.nonce ++ sealed

/-- The body is `frame(id) ++ nonce ++ seal` for a key of the ring and a sealing made. -/
def Genuine (cipher : Cipher) (made : Sealing → Prop) (ring : Keyring) (body plaintext : Bytes) : Prop :=
  ∃ keyId key nonce, ring.keys.get? keyId = some key ∧ made ⟨key.key, nonce, plaintext, framed keyId⟩ ∧
    Carries cipher body ⟨key.key, nonce, plaintext, framed keyId⟩

/-- The body is refused for good, whatever the codec underneath. -/
def Refused (cipher : Cipher) (ring : Keyring) (body : Bytes) : Prop :=
  ∃ text, plaintextOf cipher ring body = .error (fatalError text)

section sealed

variable {cipher : Cipher} {made : Sealing → Prop} {ring : Keyring} {body plaintext : Bytes}

theorem plaintextOf_framed {key : EncryptionKey} {nonce sealed : Bytes}
    (hkey : ring.keys.get? key.id = some key) (hnonce : nonce.length = nonceBytes)
    (hsealed : tagBytes ≤ sealed.length) :
    plaintextOf cipher ring (framed key.id ++ nonce ++ sealed) =
      match cipher.decrypt key.key nonce sealed (framed key.id) with
      | some plaintext => .ok plaintext
      | none => .error <| fatalError <|
          "acemq: this message did not decrypt with key " ++ reprText key.id ++ ". Either that is " ++
            "not the key it was written with, or it was altered after it was written" := by
  have hread : keyIdOf (framed key.id ++ nonce ++ sealed) = .ok (some key.id) := by
    rw [List.append_assoc]
    exact keyIdOf_framed key.length_pos key.short _
  have hheader : (framed key.id ++ nonce ++ sealed).take (3 + (encodeUtf8 key.id).length) = framed key.id := by
    rw [← length_framed, List.append_assoc, List.take_left]
  have htail : (framed key.id ++ nonce ++ sealed).drop (3 + (encodeUtf8 key.id).length) = nonce ++ sealed := by
    rw [← length_framed, List.append_assoc, List.drop_left]
  have hlong : ¬(framed key.id ++ nonce ++ sealed).length <
      3 + (encodeUtf8 key.id).length + nonceBytes + tagBytes := by
    rw [List.length_append, List.length_append, length_framed, hnonce]
    omega
  have hring : ring.keyFor key.id = .ok key := by
    rw [Keyring.keyFor, hkey]
  simp only [plaintextOf, hread, ok_bind, if_neg hlong, hring, hheader, htail]
  rw [← List.drop_drop, htail, ← hnonce, List.take_left, List.drop_left]

/-- A body is laid out as this codec lays bodies out, for a key of the ring, or refused. -/
theorem laidOut_or_refused (cipher : Cipher) (ring : Keyring) (body : Bytes) :
    (∃ key nonce sealed, ring.keys.get? key.id = some key ∧ nonce.length = nonceBytes ∧
      tagBytes ≤ sealed.length ∧ body = framed key.id ++ nonce ++ sealed) ∨ Refused cipher ring body := by
  obtain ⟨read, hread⟩ := exists_keyIdOf body
  cases read with
  | none =>
      right
      rw [Refused, plaintextOf, hread, ok_bind]
      exact ⟨_, rfl⟩
  | some keyId =>
      by_cases hshort : body.length < 3 + (encodeUtf8 keyId).length + nonceBytes + tagBytes
      · right
        rw [Refused, plaintextOf, hread, ok_bind]
        exact ⟨_, if_pos hshort⟩
      · obtain ⟨rest, rfl⟩ := eq_framed_of_keyIdOf hread
        rw [List.length_append, length_framed] at hshort
        cases hget : ring.keys.get? keyId with
        | none =>
            obtain ⟨text, htext⟩ : ∃ text, ring.keyFor keyId = .error (fatalError text) := by
              rw [Keyring.keyFor, hget]
              exact ⟨_, rfl⟩
            refine .inr ⟨text, ?_⟩
            rw [plaintextOf, hread, ok_bind]
            simp only [List.length_append, length_framed, if_neg hshort, htext]
            exact error_bind _ _
        | some key =>
            obtain rfl := ring.filed keyId key hget
            refine .inl ⟨key, rest.take nonceBytes, rest.drop nonceBytes, hget, ?_, ?_, ?_⟩
            · rw [List.length_take]
              omega
            · rw [List.length_drop]
              omega
            · rw [List.append_assoc, List.take_append_drop]

theorem plaintextOf_of_genuine (hcipher : Authentic cipher made) (h : Genuine cipher made ring body plaintext) :
    plaintextOf cipher ring body = .ok plaintext := by
  obtain ⟨keyId, key, nonce, hkey, hmade, sealed, hsealed, hnonce, rfl⟩ := h
  obtain rfl := ring.filed keyId key hkey
  have htag : tagBytes ≤ sealed.length := by
    rw [hcipher.tagged _ _ _ _ _ hsealed]
    exact Nat.le_add_left _ _
  rw [plaintextOf_framed hkey hnonce htag, (hcipher.opens _ _ _ _ _).mpr ⟨hmade, hsealed⟩]

/-- Every body is genuine, or refused. -/
theorem genuine_or_refused (hcipher : Authentic cipher made) (ring : Keyring) (body : Bytes) :
    (∃ plaintext, Genuine cipher made ring body plaintext) ∨ Refused cipher ring body := by
  obtain ⟨key, nonce, sealed, hkey, hnonce, htag, rfl⟩ | href := laidOut_or_refused cipher ring body
  · cases hopen : cipher.decrypt key.key nonce sealed (framed key.id) with
    | none =>
        right
        rw [Refused, plaintextOf_framed hkey hnonce htag, hopen]
        exact ⟨_, rfl⟩
    | some plaintext =>
        obtain ⟨hmade, hsealed⟩ := (hcipher.opens _ _ _ _ _).mp hopen
        exact .inl ⟨plaintext, key.id, key, nonce, hkey, hmade, sealed, hsealed, hnonce, rfl⟩
  · exact .inr href

theorem not_refused_of_genuine (hcipher : Authentic cipher made) (h : Genuine cipher made ring body plaintext) :
    ¬Refused cipher ring body := by
  rintro ⟨text, href⟩
  rw [plaintextOf_of_genuine hcipher h] at href
  cases href

end sealed

section exact

variable {Payload : Type} {cipher : Cipher} {made : Sealing → Prop} {delegate : Codec Payload}
  {ring : Keyring} {body plaintext : Bytes}

theorem decode_of_genuine (hcipher : Authentic cipher made) (h : Genuine cipher made ring body plaintext)
    (contentType : Option String) :
    decode cipher delegate ring body contentType = delegate.decode plaintext (some delegate.contentType) := by
  rw [decode, plaintextOf_of_genuine hcipher h, ok_bind]

theorem decode_of_refused (h : Refused cipher ring body) (contentType : Option String) :
    ∃ text, decode cipher delegate ring body contentType = .error (fatalError text) := by
  obtain ⟨text, href⟩ := h
  refine ⟨text, ?_⟩
  rw [decode, href, error_bind]

variable {typeName : Payload → String} {nonce : Bytes} {payload : Payload}

theorem encode_of_error {raised : Failure} (h : delegate.encode payload = .error raised) :
    encode cipher delegate ring typeName nonce payload = .error raised := by
  rw [encode, frame_key, ok_bind, h, error_bind]

/-- What `encode` returns: the header, the nonce, and the delegate's body sealed. -/
theorem encode_ok_iff :
    encode cipher delegate ring typeName nonce payload = .ok body ↔
      ∃ plaintext sealed, delegate.encode payload = .ok plaintext ∧
        cipher.encrypt ring.current.key nonce plaintext (framed ring.current.id) = .ok sealed ∧
        body = framed ring.current.id ++ nonce ++ sealed := by
  rw [encode, frame_key, ok_bind, bind_ok_iff]
  refine exists_congr fun plaintext ↦ ?_
  cases hsealed : cipher.encrypt ring.current.key nonce plaintext (framed ring.current.id) with
  | error raised => simp
  | ok sealed => simp [eq_comm]

/-- What was encoded is decoded by whoever has the key. -/
theorem decode_of_encode (hcipher : Authentic cipher made) {reader : Keyring} {plaintext : Bytes}
    (hreader : reader.keys.get? ring.current.id = some ring.current) (hnonce : nonce.length = nonceBytes)
    (hplaintext : delegate.encode payload = .ok plaintext)
    (hmade : made ⟨ring.current.key, nonce, plaintext, framed ring.current.id⟩)
    (hbody : encode cipher delegate ring typeName nonce payload = .ok body) (contentType : Option String) :
    decode cipher delegate reader body contentType = delegate.decode plaintext (some delegate.contentType) := by
  obtain ⟨plaintext', sealed, hplaintext', hsealed, rfl⟩ := encode_ok_iff.mp hbody
  obtain rfl := Except.ok.inj (hplaintext.symm.trans hplaintext')
  apply decode_of_genuine hcipher
  exact ⟨_, ring.current, nonce, hreader, hmade, sealed, hsealed, hnonce, rfl⟩

/-- A body that is not the one it was made from, and none that was made besides. -/
theorem refused_of_altered (hcipher : Authentic cipher made) {sealing : Sealing} {altered : Bytes}
    (hcarries : Carries cipher body sealing) (hne : altered ≠ body)
    (hothers : ∀ other, made other → other ≠ sealing → ¬Carries cipher altered other) :
    Refused cipher ring altered := by
  obtain ⟨plaintext, keyId, key, nonce, _, hmade, hcarries'⟩ | hrefused := genuine_or_refused hcipher ring altered
  · by_cases hsame : (⟨key.key, nonce, plaintext, framed keyId⟩ : Sealing) = sealing
    · subst hsame
      obtain ⟨sealed, hsealed, _, rfl⟩ := hcarries
      obtain ⟨sealed', hsealed', _, rfl⟩ := hcarries'
      obtain rfl := Except.ok.inj (hsealed.symm.trans hsealed')
      exact absurd rfl hne
    · exact absurd hcarries' (hothers _ hmade hsame)
  · exact hrefused

/-- Encrypted bodies are accepted exactly when they are genuine. -/
theorem encryptedCodec_exact (cipher : Cipher) (made : Sealing → Prop) (hcipher : Authentic cipher made)
    (delegate : Codec Payload) :
    (∀ (writer reader : Keyring) (typeName : Payload → String) (nonce : Bytes) (payload : Payload)
        (contentType : Option String),
      reader.keys.get? writer.current.id = some writer.current → nonce.length = nonceBytes →
      (∀ raised, delegate.encode payload = .error raised →
        encode cipher delegate writer typeName nonce payload = .error raised) ∧
      ∀ plaintext, delegate.encode payload = .ok plaintext →
        (∀ sealed, cipher.encrypt writer.current.key nonce plaintext (framed writer.current.id) = .ok sealed →
          encode cipher delegate writer typeName nonce payload =
            .ok (framed writer.current.id ++ nonce ++ sealed)) ∧
        (made ⟨writer.current.key, nonce, plaintext, framed writer.current.id⟩ →
          ∀ body, encode cipher delegate writer typeName nonce payload = .ok body →
            decode cipher delegate reader body contentType =
              delegate.decode plaintext (some delegate.contentType))) ∧
    (∀ (ring : Keyring) (body : Bytes) (contentType : Option String),
      (∃ plaintext, Genuine cipher made ring body plaintext ∧
        decode cipher delegate ring body contentType =
          delegate.decode plaintext (some delegate.contentType)) ∨
      (¬∃ plaintext, Genuine cipher made ring body plaintext) ∧
        ∃ text, decode cipher delegate ring body contentType = .error (fatalError text)) ∧
    (∀ (ring : Keyring) (sealing : Sealing) (body altered : Bytes) (contentType : Option String),
      Carries cipher body sealing → altered ≠ body →
      (∀ other, made other → other ≠ sealing → ¬Carries cipher altered other) →
      ∃ text, decode cipher delegate ring altered contentType = .error (fatalError text)) ∧
    (∀ (ring : Keyring) (typeName : Payload → String) (nonce : Bytes) (payload : Payload) (body : Bytes),
      encode cipher delegate ring typeName nonce payload = .ok body →
        keyIdOf body = .ok (some ring.current.id)) ∧
    ∀ body, ∃ read, keyIdOf body = .ok read := by
  refine ⟨?_, ?_, ?_, ?_, exists_keyIdOf⟩
  · intro writer reader typeName nonce payload contentType hreader hnonce
    refine ⟨fun raised ↦ encode_of_error, fun plaintext hplaintext ↦ ⟨fun sealed hsealed ↦ ?_, ?_⟩⟩
    · exact encode_ok_iff.mpr ⟨plaintext, sealed, hplaintext, hsealed, rfl⟩
    · exact fun hmade body hbody ↦ decode_of_encode hcipher hreader hnonce hplaintext hmade hbody contentType
  · intro ring body contentType
    obtain ⟨plaintext, hgenuine⟩ | hrefused := genuine_or_refused hcipher ring body
    · exact .inl ⟨plaintext, hgenuine, decode_of_genuine hcipher hgenuine contentType⟩
    · refine .inr ⟨?_, decode_of_refused hrefused contentType⟩
      rintro ⟨plaintext, hgenuine⟩
      exact not_refused_of_genuine hcipher hgenuine hrefused
  · intro ring sealing body altered contentType hcarries hne hothers
    exact decode_of_refused (refused_of_altered hcipher hcarries hne hothers) contentType
  · intro ring typeName nonce payload body hbody
    obtain ⟨plaintext, sealed, _, _, rfl⟩ := encode_ok_iff.mp hbody
    rw [List.append_assoc]
    exact keyIdOf_framed ring.current.length_pos ring.current.short _

/-- A key of the bytes 0 to 15 named `k1`, and what AES-GCM makes of `hi` under it and a
nonce of zeros. -/
def exampleKey : EncryptionKey where
  id := "k1"
  key := (List.range 16).map UInt8.ofNat
  named := by decide
  short := by decide
  no_null := by decide
  sized := by decide

def exampleSealing : Sealing :=
  ⟨exampleKey.key, List.replicate 12 0, [104, 105], framed "k1"⟩

def exampleSealed : Bytes :=
  [33, 191, 77, 15, 35, 96, 157, 197, 87, 188, 235, 230, 96, 41, 130, 58, 248, 154]

def exampleCipher : Cipher where
  encrypt key nonce plaintext header :=
    if (⟨key, nonce, plaintext, header⟩ : Sealing) = exampleSealing then .ok exampleSealed
    else .ok (plaintext ++ List.replicate tagBytes 0)
  decrypt key nonce sealed header :=
    if (⟨key, nonce, exampleSealing.plaintext, header⟩ : Sealing) = exampleSealing ∧ sealed = exampleSealed
    then some exampleSealing.plaintext else none

theorem authentic_example : Authentic exampleCipher (· = exampleSealing) where
  opens key nonce sealed header plaintext := by
    simp only [exampleCipher]
    constructor
    · intro h
      split at h
      · rename_i hall
        obtain rfl := Option.some.inj h
        rw [if_pos hall.1, hall.2]
        exact ⟨hall.1, rfl⟩
      · cases h
    · rintro ⟨hmade, hsealed⟩
      have hplain : plaintext = exampleSealing.plaintext := congrArg Sealing.plaintext hmade
      subst hplain
      rw [if_pos hmade] at hsealed
      exact if_pos ⟨hmade, (Except.ok.inj hsealed).symm⟩
  tagged key nonce plaintext header sealed h := by
    simp only [exampleCipher] at h
    split at h
    · rename_i hsealing
      rw [← Except.ok.inj h, show plaintext = exampleSealing.plaintext from congrArg Sealing.plaintext hsealing]
      decide
    · rw [← Except.ok.inj h, List.length_append, List.length_replicate]

theorem encryptedCodec_exact_example :
    encode exampleCipher bytesCodec (Keyring.new exampleKey []) (fun _ ↦ "bytes") (List.replicate 12 0) [104, 105] =
      .ok (framed "k1" ++ List.replicate 12 0 ++ exampleSealed) ∧
    decode exampleCipher bytesCodec (Keyring.new exampleKey [])
      (framed "k1" ++ List.replicate 12 0 ++ exampleSealed) none = .ok [104, 105] ∧
    ∀ altered, altered ≠ framed "k1" ++ List.replicate 12 0 ++ exampleSealed →
      ∃ text, decode exampleCipher bytesCodec (Keyring.new exampleKey []) altered none =
        .error (fatalError text) := by
  obtain ⟨hround, -, haltered, -, -⟩ :=
    encryptedCodec_exact exampleCipher (· = exampleSealing) authentic_example bytesCodec
  obtain ⟨hencode, hdecode⟩ := (hround (Keyring.new exampleKey []) (Keyring.new exampleKey []) (fun _ ↦ "bytes")
    (List.replicate 12 0) [104, 105] none (Keyring.get?_current _) (by decide)).2 _ rfl
  have hencoded := hencode exampleSealed (by decide +kernel)
  refine ⟨hencoded, hdecode (by decide +kernel) _ hencoded, ?_⟩
  · intro altered hne
    refine haltered _ exampleSealing _ altered none ⟨exampleSealed, ?_, by decide, rfl⟩ hne ?_
    · decide +kernel
    · exact fun other hmade hother ↦ absurd hmade hother

end exact

end Encrypted

end AcemqAmqp
