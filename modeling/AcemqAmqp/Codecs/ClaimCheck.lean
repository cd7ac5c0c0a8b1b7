import AcemqAmqp.Codecs.Codec
import AcemqAmqp.Foundations.Program

/-!
# Claim checks

A codec that puts a large body in a store and sends the key.  The three bytes
in front of a body say which it is, and a body without them is read as the
codec underneath reads it.
-/

namespace AcemqAmqp

open Interaction Program

namespace ClaimCheck

def magic : UInt8 := 0xAC

def version : UInt8 := 0x01

def inline : UInt8 := 0x00

def checked : UInt8 := 0x01

/-- `_HEADER`. -/
def headerBytes : ℕ := 3

/-- `ClaimCheckStore.put` and `ClaimCheckStore.get`.  A codec never deletes. -/
inductive StoreCall
  | put (content : Bytes)
  | get (key : String)

abbrev Store : Interface where
  Act := StoreCall
  Ans
    | .put _ => Except Failure String
    | .get _ => Except Failure (Option Bytes)

/-- A claim-check codec, as its constructor admits one: the store is the environment. -/
structure ClaimCheckCodec (Payload : Type) where
  delegate : Codec Payload
  threshold : ℕ

/-- `ClaimCheckCodec(delegate, store, threshold=threshold)`. -/
def ClaimCheckCodec.new {Payload : Type} (delegate : Codec Payload) (threshold : ℤ) :
    Except Failure (ClaimCheckCodec Payload) :=
  if threshold < 0 then .error <| valueError <|
    "acemq: a claim-check threshold cannot be negative, got " ++ toString threshold
  else .ok ⟨delegate, threshold.toNat⟩

def isFramed (body : Bytes) : Bool :=
  headerBytes ≤ body.length ∧ body[0]? = some magic ∧ body[1]? = some version ∧
    (body[2]? = some inline ∨ body[2]? = some checked)

def frame (kind : UInt8) (rest : Bytes) : Bytes := [magic, version, kind] ++ rest

/-- What `bytes.decode("utf-8")` raises. -/
def unicodeDecodeError (reason : String) : Failure := ⟨.exception, "UnicodeDecodeError", reason⟩

section codec

variable {Payload : Type} (undecodable : Bytes → String) (codec : ClaimCheckCodec Payload)

/-- Reads the key a message refers to, without fetching it.  `undecodable` is how
the interpreter words what keeps bytes from being UTF-8. -/
def claimKeyOf (body : Bytes) : Except Failure (Option String) :=
  if ¬isFramed body ∨ body[2]? ≠ some checked then .ok none
  else
    match decodeUtf8 (body.drop headerBytes) with
    | some key => .ok (some key)
    | none => .error (unicodeDecodeError (undecodable (body.drop headerBytes)))

/-- Whether a body is a claim check rather than a payload. -/
def isClaimCheck (body : Bytes) : Except Failure Bool :=
  (claimKeyOf undecodable body).map Option.isSome

def encode (payload : Payload) : Program Store Failure Bytes := do
  let encoded ← ofExcept (codec.delegate.encode payload)
  if encoded.length < codec.threshold then return frame inline encoded
  let key ← call (.put encoded) id
  return frame checked (encodeUtf8 key)

def decode (body : Bytes) (contentType : Option String) : Program Store Failure Payload :=
  if ¬isFramed body then ofExcept (codec.delegate.decode body contentType)
  else
    let rest := body.drop headerBytes
    if body[2]? = some inline then ofExcept (codec.delegate.decode rest contentType)
    else
      match decodeUtf8 rest with
      | none => raise (unicodeDecodeError (undecodable rest))
      | some key => (call (I := Store) (.get key) id).bind fun
          | none => raise <| fatalError <|
              "acemq: the claim check " ++ reprText key ++ " is not in the store, so this message " ++
                "cannot be read. The payload was removed while a message referring to it was still " ++
                "deliverable — the store's retention has to outlast every queue, every dead-letter " ++
                "queue, and any replay somebody might do by hand."
          | some content => ofExcept (codec.delegate.decode content contentType)

/-- Whatever the delegate accepts. -/
def canDecode (contentType : Option String) : Bool := codec.delegate.canDecode contentType

end codec

/-! ## The frame -/

section frame

variable {undecodable : Bytes → String} {rest : Bytes}

@[simp] theorem isFramed_inline (rest : Bytes) : isFramed (frame inline rest) = true := by
  simp [isFramed, frame, headerBytes]

@[simp] theorem isFramed_checked (rest : Bytes) : isFramed (frame checked rest) = true := by
  simp [isFramed, frame, headerBytes]

@[simp] theorem frame_two (kind : UInt8) (rest : Bytes) : (frame kind rest)[2]? = some kind := rfl

@[simp] theorem drop_frame (kind : UInt8) (rest : Bytes) : (frame kind rest).drop headerBytes = rest := rfl

theorem inline_ne_checked : inline ≠ checked := by decide

theorem claimKeyOf_inline (rest : Bytes) : claimKeyOf undecodable (frame inline rest) = .ok none := by
  simp [claimKeyOf, inline_ne_checked]

theorem claimKeyOf_checked (key : String) :
    claimKeyOf undecodable (frame checked (encodeUtf8 key)) = .ok (some key) := by
  simp [claimKeyOf]

end frame

/-! ## Writing and reading -/

section runs

variable {Payload : Type} {undecodable : Bytes → String} {codec : ClaimCheckCodec Payload}
  {body : Bytes} {contentType : Option String}

/-- What one call of `encode` asks of the store, and what it returns. -/
theorem encode_always (payload : Payload) :
    (encode codec payload).Always (Anything Store) fun t x ↦
      match codec.delegate.encode payload with
      | .error raised => t = [] ∧ x = .error raised
      | .ok encoded =>
          if encoded.length < codec.threshold then t = [] ∧ x = .ok (frame inline encoded)
          else ∃ answer : Except Failure String, t = [⟨.put encoded, answer⟩] ∧
            x = answer.map fun key ↦ frame checked (encodeUtf8 key) := by
  rw [encode, bind_eq, always_bind, always_ofExcept]
  cases codec.delegate.encode payload with
  | error raised => exact ⟨rfl, rfl⟩
  | ok encoded =>
      rw [onEnd_ok]
      by_cases hshort : encoded.length < codec.threshold
      · simp [hshort]
      · simp only [if_neg hshort, bind_eq, pure_eq, always_bind, always_call]
        rintro (raised | key) -
        · exact ⟨.error raised, rfl, rfl⟩
        · exact ⟨.ok key, rfl, rfl⟩

theorem decode_bare (h : ¬isFramed body) :
    decode undecodable codec body contentType = ofExcept (codec.delegate.decode body contentType) :=
  if_pos h

theorem decode_inline (rest : Bytes) :
    decode undecodable codec (frame inline rest) contentType =
      ofExcept (codec.delegate.decode rest contentType) := by
  simp [decode]

/-- A claim check is redeemed with one question, and read as the delegate reads the answer. -/
theorem decode_checked_always (key : String) :
    (decode undecodable codec (frame checked (encodeUtf8 key)) contentType).Always (Anything Store)
      fun t y ↦ ∃ answer : Except Failure (Option Bytes), t = [⟨.get key, answer⟩] ∧
        ∀ content, answer = .ok (some content) → y = codec.delegate.decode content contentType := by
  rw [decode, if_neg (by simp)]
  simp only [frame_two, drop_frame, decodeUtf8_encodeUtf8, Option.some.injEq, inline_ne_checked.symm,
    if_false, always_bind, always_call]
  rintro (raised | _ | content) -
  · exact ⟨.error raised, rfl, fun content h ↦ by cases h⟩
  · exact ⟨.ok none, rfl, fun content h ↦ by cases h⟩
  · simp only [id, onEnd_ok, always_ofExcept]
    refine ⟨.ok (some content), rfl, ?_⟩
    rintro _ ⟨⟩
    rfl

end runs

/-- The store returns what was put: a key it has answered with is answered with the
content it was given for, by whomever and however much later. -/
def ReturnsWhatWasPut (t : List (Event Store)) : Prop :=
  ∀ pre post content key answer, t = pre ++ ⟨.put content, .ok key⟩ :: post →
    (⟨.get key, answer⟩ : Event Store) ∈ post → answer = .ok (some content)

/-- A body some codec wrote by itself is read, by this codec over that one, as that
codec reads it. -/
def ReadAsBare (undecodable : Bytes → String) (body : Bytes) : Prop :=
  ∀ (Payload : Type) (delegate : Codec Payload) (payload : Payload), delegate.encode payload = .ok body →
    ∀ (threshold : ℕ) (contentType : Option String) (t : List (Event Store)) (y : Except Failure Payload),
      Runs (Anything Store) (decode undecodable ⟨delegate, threshold⟩ body contentType) t y →
        y = delegate.decode body contentType

variable {undecodable : Bytes → String}

/-- Every framed body is read as something other than itself, in some run. -/
theorem exists_runs_ne_self (undecodable : Bytes → String) {body : Bytes} (h : isFramed body = true) :
    ∃ t y, Runs (Anything Store) (decode undecodable ⟨bytesCodec, 0⟩ body none) t y ∧ y ≠ .ok body := by
  have hdrop : body.drop headerBytes ≠ body := by
    intro heq
    have hlong : headerBytes ≤ body.length := (of_decide_eq_true h).1
    have hlength := congrArg List.length heq
    rw [List.length_drop, headerBytes] at hlength
    rw [headerBytes] at hlong
    omega
  rw [decode, if_neg (by simp [h])]
  by_cases hkind : body[2]? = some inline
  · simp only [if_pos hkind]
    refine ⟨[], .ok (body.drop headerBytes), .ret _, ?_⟩
    exact fun heq ↦ hdrop (Except.ok.inj heq)
  · simp only [if_neg hkind]
    cases decodeUtf8 (body.drop headerBytes) with
    | none => exact ⟨[], _, .raise _, nofun⟩
    | some key => exact ⟨[⟨.get key, .ok none⟩], _, .ask trivial (.raise _), nofun⟩

theorem readAsBare_iff {body : Bytes} : ReadAsBare undecodable body ↔ ¬isFramed body := by
  constructor
  · intro hbare hframed
    obtain ⟨t, y, hrun, hne⟩ := exists_runs_ne_self undecodable hframed
    exact hne (hbare Bytes bytesCodec body rfl 0 none t y hrun)
  · intro hnot Payload delegate payload _ threshold contentType t y hrun
    rw [decode_bare hnot] at hrun
    exact hrun.of_ofExcept.2

/-- The claim-check codec is transparent, except to bodies of others that begin as its own. -/
theorem claimCheck_transparent (undecodable : Bytes → String) :
    (∀ (Payload : Type) (delegate : Codec Payload) (written read : ℕ) (payload : Payload)
        (t : List (Event Store)) (x : Except Failure Bytes),
      Runs (Anything Store) (encode ⟨delegate, written⟩ payload) t x →
        (∀ raised, delegate.encode payload = .error raised → t = [] ∧ x = .error raised) ∧
        ∀ encoded, delegate.encode payload = .ok encoded →
          (encoded.length < written →
            t = [] ∧ ∃ body, x = .ok body ∧ claimKeyOf undecodable body = .ok none) ∧
          (written ≤ encoded.length →
            (∃ raised, t = [⟨.put encoded, .error raised⟩] ∧ x = .error raised) ∨
            ∃ key body, t = [⟨.put encoded, .ok key⟩] ∧ x = .ok body ∧
              claimKeyOf undecodable body = .ok (some key)) ∧
          ∀ body, x = .ok body → ∀ (contentType : Option String) (between t' : List (Event Store))
              (y : Except Failure Payload),
            Runs (Anything Store) (decode undecodable ⟨delegate, read⟩ body contentType) t' y →
              ReturnsWhatWasPut (t ++ between ++ t') → y = delegate.decode encoded contentType) ∧
    ∀ body, ReadAsBare undecodable body ↔ ¬isFramed body := by
  refine ⟨?_, fun body ↦ readAsBare_iff⟩
  intro Payload delegate written read payload t x hrun
  have hcourse := always_iff_runs.mp (encode_always payload) t x hrun
  refine ⟨?_, ?_⟩
  · intro raised hraised
    simpa only [hraised] using hcourse
  intro encoded hencoded
  simp only [hencoded] at hcourse
  by_cases hshort : encoded.length < written
  · rw [if_pos hshort] at hcourse
    obtain ⟨rfl, rfl⟩ := hcourse
    refine ⟨fun _ ↦ ⟨rfl, _, rfl, claimKeyOf_inline encoded⟩, fun hlong ↦ absurd hshort hlong.not_gt, ?_⟩
    rintro _ ⟨⟩ contentType between t' y hread -
    rw [decode_inline] at hread
    exact hread.of_ofExcept.2
  · rw [if_neg hshort] at hcourse
    obtain ⟨raised | key, rfl, rfl⟩ := hcourse
    · refine ⟨fun h ↦ absurd h hshort, fun _ ↦ .inl ⟨raised, rfl, rfl⟩, ?_⟩
      rintro _ ⟨⟩
    · refine ⟨fun h ↦ absurd h hshort, fun _ ↦ .inr ⟨key, _, rfl, rfl, claimKeyOf_checked key⟩, ?_⟩
      rintro _ ⟨⟩ contentType between t' y hread hreturns
      obtain ⟨answer, rfl, hanswer⟩ := always_iff_runs.mp (decode_checked_always key) t' y hread
      refine hanswer encoded (hreturns [] (between ++ [⟨.get key, answer⟩]) encoded key answer ?_ ?_)
      · rw [List.append_assoc]
        rfl
      · exact List.mem_append_right _ (List.mem_singleton_self _)

/-- The bytes `AC 01 00 68 69` of `BytesCodec` come back as `68 69`. -/
theorem claimCheck_strips : ¬ReadAsBare (fun _ ↦ "") [0xAC, 0x01, 0x00, 0x68, 0x69] := by
  intro hbare
  have hread := hbare Bytes bytesCodec [0xAC, 0x01, 0x00, 0x68, 0x69] rfl 0 none []
    (.ok [0x68, 0x69]) (.ret _)
  exact absurd hread (by decide)

end ClaimCheck

end AcemqAmqp
