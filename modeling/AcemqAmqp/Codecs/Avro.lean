import AcemqAmqp.Codecs.Codec
import AcemqAmqp.Foundations.Dict
import AcemqAmqp.Foundations.Program

/-!
# Avro bodies

`AvroCodec` in its two modes, with fastavro as the environment: what its
reader is asked to read, and under which schemas.  What its writer makes of a
payload, and what it calls a schema, are parameters.
-/

namespace AcemqAmqp

open Interaction Program

namespace Avro

open ContentType

/-- `AVRO_CONTENT_TYPE`. -/
def avroContentType : String := "avro/binary"

/-- `AVRO_REGISTERED_CONTENT_TYPE`. -/
def avroRegisteredContentType : String := "application/vnd.acemq.avro"

def magic : UInt8 := 0

/-- `_FRAME_BYTES`. -/
def frameBytes : ℕ := 5

/-- A codec with a fixed schema, or one whose messages carry a schema identifier. -/
structure AvroCodec (Schema : Type) where
  schema : Schema
  reader : Schema
  schemaId : Option ℤ
  registered : Bool
  known : Dict ℤ Schema
  positive : ∀ id, schemaId = some id → 0 < id
  framing : ∀ id, schemaId = some id → registered = true ∧ id ∈ known

/-- One call of `schemaless_reader`. -/
structure ReadCall (Schema : Type) where
  body : Bytes
  writer : Schema
  reader : Schema

/-- What `schemaless_reader` raises, and whether it is a `SchemaResolutionError`. -/
structure ReadFailure where
  failure : Failure
  clash : Bool

abbrev Fastavro (Schema Payload : Type) : Interface where
  Act := ReadCall Schema
  Ans _ := Except ReadFailure Payload

namespace AvroCodec

variable {Schema Payload : Type}

/-- `AvroCodec(schema, schema_id=schema_id, reader_schema=reader_schema)`, of schemas
that parse. -/
def new (schema : Schema) (schemaId : Option ℤ) (readerSchema : Option Schema) :
    Except Failure (AvroCodec Schema) :=
  match schemaId with
  | none => .ok
      { schema := schema
        reader := readerSchema.getD schema
        schemaId := none
        registered := false
        known := ∅
        positive := nofun
        framing := nofun }
  | some id =>
      if hid : id ≤ 0 then .error (valueError "acemq: a schema identifier is a positive integer")
      else .ok
        { schema := schema
          reader := readerSchema.getD schema
          schemaId := some id
          registered := true
          known := Dict.set ∅ id schema
          positive := by
            rintro _ ⟨⟩
            exact not_le.mp hid
          framing := by
            rintro _ ⟨⟩
            exact ⟨rfl, Dict.mem_set.mpr (.inl rfl)⟩ }

/-- `AvroCodec.reading(reader_schema)`. -/
def reading (readerSchema : Schema) : AvroCodec Schema where
  schema := readerSchema
  reader := readerSchema
  schemaId := none
  registered := true
  known := ∅
  positive := nofun
  framing := nofun

variable (codec : AvroCodec Schema)

/-- Teaches this codec a writer schema it will meet. -/
def learn (schemaId : ℤ) (schema : Schema) : AvroCodec Schema :=
  { codec with
    known := codec.known.set schemaId schema
    framing := fun id hid ↦ ⟨(codec.framing id hid).1, Dict.mem_set.mpr (.inr (codec.framing id hid).2)⟩ }

def contentType : String := if codec.registered then avroRegisteredContentType else avroContentType

/-- `encode`.  `write` is `schemaless_writer`, or the text of what it raises, and
`typeName` what `type(payload).__name__` answers. -/
def encode (write : Schema → Payload → Except String Bytes) (typeName : Payload → String)
    (payload : Payload) : Except Failure Bytes := do
  if codec.registered ∧ codec.schemaId = none then throw <| aceMQError <|
    "acemq: this codec was built with AvroCodec.reading(...) to consume, and has no schema identifier " ++
      "to frame into a message. Publish with await AvroCodec.from_registry(registry, subject, schema), " ++
      "which registers the schema you write and gives back the identifier."
  let front ← match codec.schemaId with
    | none => .ok []
    | some id => (toBytesBig 4 id.toNat).map (magic :: ·)
  match write codec.schema payload with
  | .ok written => return front ++ written
  | .error failure => throw <| typeError <|
      "acemq: cannot write a " ++ typeName payload ++ " as Avro against this schema: " ++ failure

/-- The identifier on the front of a body. -/
def identifier (body : Bytes) : ℤ := fromBytesBig ((body.take frameBytes).drop 1)

/-- Accepts the Avro content types, and never an absent one. -/
def canDecode (contentType : Option String) : Bool :=
  if contentType.getD "" = "" then false
  else if StartsWith contentType avroRegisteredContentType then codec.registered
  else if StartsWith contentType avroContentType ∨ StartsWith contentType "avro/" then !codec.registered
  else Mentions contentType "avro" ∧ ¬Mentions contentType "acemq.avro"

/-- The schema a message was written with, or a refusal saying why not. -/
def writerSchemaFor (body : Bytes) (contentType : Option String) : Except Failure Schema :=
  if codec.registered then
    if body.length < frameBytes ∨ body[0]? ≠ some magic then .error <| fatalError <|
      "acemq: this message has no schema identifier on the front of it. This codec was built from a " ++
        "registry and reads messages written by one; these bytes were written by a codec with a fixed " ++
        "schema, or by something else entirely."
    else
      match codec.known.get? (identifier body) with
      | some known => .ok known
      | none => .error <| fatalError <|
          "acemq: this message was written with schema " ++ toString (identifier body) ++ ", which this " ++
            "codec has not been taught. Call await codec.learn_from(registry, " ++
            toString (identifier body) ++ ") before consuming, or codec.learn(" ++
            toString (identifier body) ++ ", schema)."
  else if StartsWith contentType avroRegisteredContentType then .error <| fatalError <|
    "acemq: this message says it carries a schema identifier and this codec has a fixed schema, so " ++
      "reading it would silently produce the wrong values. Build the codec with " ++
      "AvroCodec.from_registry(...) to read it."
  else if ¬Mentions contentType "avro" ∧ frameBytes ≤ body.length ∧ body[0]? = some magic then
    .error <| fatalError <|
      "acemq: these bytes look like they carry a schema identifier and nothing said they were Avro, so a " ++
        "fixed-schema codec will not guess. Build the codec with AvroCodec.from_registry(...), or set the " ++
        "message's content type to avro/binary if it really has a fixed schema."
  else .ok codec.schema

section decode

variable (nameOf : Schema → String)

/-- Why two schemas would not go together, naming both of them. -/
def cannotResolve (body : Bytes) (writerSchema : Schema) (clash : String) : String :=
  let writer := nameOf writerSchema
  let writer := if codec.registered ∧ frameBytes ≤ body.length then
    "schema " ++ toString (identifier body) ++ " (" ++ writer ++ ")" else writer
  "acemq: this message was written with " ++ writer ++ " and this codec reads onto " ++
    nameOf codec.reader ++ ", and Avro will not resolve the one onto the other: " ++ clash ++
    ". The two have diverged by something Avro does not call a compatible change — a field whose type " ++
    "changed, or a field added without a default — so no reader can make these bytes mean that record. " ++
    "Give the new field a default, or read this version with a codec built against a schema that " ++
    "resolves against it."

def decode (body : Bytes) (contentType : Option String) : Program (Fastavro Schema Payload) Failure Payload := do
  let writerSchema ← ofExcept (codec.writerSchemaFor body contentType)
  let offset := if codec.registered then frameBytes else 0
  call (I := Fastavro Schema Payload) ⟨body.drop offset, writerSchema, codec.reader⟩ fun
    | .ok payload => .ok payload
    | .error raised =>
        if raised.failure.isFatal then .error raised.failure
        else if raised.clash then
          .error (fatalError (codec.cannotResolve nameOf body writerSchema raised.failure.text))
        else if raised.failure.isException then
          .error (fatalError ("acemq: this message is not Avro this codec reads: " ++ raised.failure.text))
        else .error raised.failure

end decode

/-! ## What the reader is asked -/

/-- The content type says that a body is a bare record. -/
def SaysBare (contentType : Option String) : Prop :=
  StartsWith contentType avroContentType ∨ StartsWith contentType "avro/"

/-- The content type says that a body carries a schema identifier. -/
def SaysFramed (contentType : Option String) : Prop := StartsWith contentType avroRegisteredContentType

/-- Nothing but the whole body is read, and with the codec's own schema. -/
def ReadsBare (body : Bytes) (t : List (Event (Fastavro Schema Payload))) : Prop :=
  ∀ event ∈ t, event.1 = ⟨body, codec.schema, codec.reader⟩

/-- Nothing but what follows an identifier is read, and with the schema learned under it. -/
def ReadsFramed (body : Bytes) (t : List (Event (Fastavro Schema Payload))) : Prop :=
  ∀ event ∈ t, frameBytes ≤ body.length ∧ body[0]? = some magic ∧
    ∃ writer, codec.known.get? (identifier body) = some writer ∧
      event.1 = ⟨body.drop frameBytes, writer, codec.reader⟩

/-- The body begins with an identifier that the codec has been taught. -/
def CarriesKnown (body : Bytes) : Prop :=
  frameBytes ≤ body.length ∧ body[0]? = some magic ∧ identifier body ∈ codec.known

variable {codec} {nameOf : Schema → String} {body : Bytes} {contentType : Option String}

theorem not_saysFramed_of_saysBare (h : SaysBare contentType) : ¬SaysFramed contentType := by
  intro hframed
  obtain h | h := h
  · exact absurd (List.prefix_of_prefix_length_le h hframed (by decide)) (by decide)
  · exact absurd (List.prefix_of_prefix_length_le h hframed (by decide)) (by decide)

theorem mentions_of_saysBare (h : SaysBare contentType) : Mentions contentType "avro" := by
  have hprefix : "avro".toList <+: lowered contentType := by
    obtain h | h := h
    · exact List.IsPrefix.trans (by decide) h
    · exact List.IsPrefix.trans (by decide) h
  exact hprefix.isInfix

section runs

variable {t : List (Event (Fastavro Schema Payload))} {x : Except Failure Payload}

/-- A schema was found, and its reader is asked once. -/
theorem asks_of_ok {writer : Schema} (h : codec.writerSchemaFor body contentType = .ok writer)
    (hrun : Runs (Anything _) (codec.decode nameOf body contentType) t x) :
    ∃ answer, t = [⟨⟨body.drop (if codec.registered then frameBytes else 0), writer, codec.reader⟩, answer⟩] := by
  have hall : (codec.decode nameOf body contentType : Program (Fastavro Schema Payload) _ _).Always
      (Anything _) fun t _ ↦ ∃ answer, t =
        [⟨⟨body.drop (if codec.registered then frameBytes else 0), writer, codec.reader⟩, answer⟩] := by
    rw [decode, h]
    exact (always_call _ _).mpr fun answer _ ↦ ⟨answer, rfl⟩
  exact always_iff_runs.mp hall t x hrun

theorem refuses_of_error {raised : Failure} (h : codec.writerSchemaFor body contentType = .error raised)
    (hrun : Runs (Anything _) (codec.decode nameOf body contentType) t x) : t = [] ∧ x = .error raised := by
  rw [decode, h] at hrun
  cases hrun
  exact ⟨rfl, rfl⟩

theorem writerSchemaFor_of_carriesKnown (hregistered : codec.registered = true)
    (hcarries : codec.CarriesKnown body) (contentType : Option String) :
    ∃ writer, codec.known.get? (identifier body) = some writer ∧
      codec.writerSchemaFor body contentType = .ok writer := by
  obtain ⟨hlength, hmagic, hknown⟩ := hcarries
  obtain ⟨writer, hwriter⟩ := Dict.mem_iff_get?.mp hknown
  refine ⟨writer, hwriter, ?_⟩
  have hfront : ¬(body.length < frameBytes ∨ body[0]? ≠ some magic) :=
    not_or.mpr ⟨not_lt.mpr hlength, not_not.mpr hmagic⟩
  rw [writerSchemaFor, if_pos hregistered, if_neg hfront, hwriter]

/-- A codec with identifiers asks for what follows a known one. -/
theorem asks_of_carriesKnown (hregistered : codec.registered = true) (hcarries : codec.CarriesKnown body)
    (hrun : Runs (Anything _) (codec.decode nameOf body contentType) t x) :
    ∃ writer answer, codec.known.get? (identifier body) = some writer ∧
      t = [⟨⟨body.drop frameBytes, writer, codec.reader⟩, answer⟩] := by
  obtain ⟨writer, hwriter, hfound⟩ := writerSchemaFor_of_carriesKnown hregistered hcarries contentType
  obtain ⟨answer, ht⟩ := asks_of_ok hfound hrun
  rw [if_pos hregistered] at ht
  exact ⟨writer, answer, hwriter, ht⟩

/-- And it refuses what carries none that it knows. -/
theorem refuses_of_not_carriesKnown (hregistered : codec.registered = true)
    (hcarries : ¬codec.CarriesKnown body)
    (hrun : Runs (Anything _) (codec.decode nameOf body contentType) t x) :
    t = [] ∧ ∃ text, x = .error (fatalError text) := by
  obtain ⟨text, htext⟩ : ∃ text, codec.writerSchemaFor body contentType = .error (fatalError text) := by
    rw [writerSchemaFor, if_pos hregistered]
    by_cases hfront : body.length < frameBytes ∨ body[0]? ≠ some magic
    · rw [if_pos hfront]
      exact ⟨_, rfl⟩
    · rw [if_neg hfront]
      cases hget : codec.known.get? (identifier body) with
      | none => exact ⟨_, rfl⟩
      | some known =>
          rw [not_or, not_lt, not_not] at hfront
          exact absurd ⟨hfront.1, hfront.2, Dict.mem_iff_get?.mpr ⟨known, hget⟩⟩ hcarries
  obtain ⟨rfl, rfl⟩ := refuses_of_error htext hrun
  exact ⟨rfl, text, rfl⟩

/-- A codec with a fixed schema takes the sender's word for it. -/
theorem asks_of_fixed (hfixed : codec.registered = false) (hbare : SaysBare contentType)
    (hrun : Runs (Anything _) (codec.decode nameOf body contentType) t x) :
    ∃ answer, t = [⟨⟨body, codec.schema, codec.reader⟩, answer⟩] := by
  have hfound : codec.writerSchemaFor body contentType = .ok codec.schema := by
    have hmentions : ¬(¬Mentions contentType "avro" ∧ frameBytes ≤ body.length ∧ body[0]? = some magic) :=
      fun h ↦ h.1 (mentions_of_saysBare hbare)
    have hnot : ¬StartsWith contentType avroRegisteredContentType := not_saysFramed_of_saysBare hbare
    rw [writerSchemaFor, hfixed, if_neg Bool.false_ne_true, if_neg hnot, if_neg hmentions]
  obtain ⟨answer, ht⟩ := asks_of_ok hfound hrun
  rw [hfixed, if_neg Bool.false_ne_true, List.drop_zero] at ht
  exact ⟨answer, ht⟩

theorem refuses_of_fixed (hfixed : codec.registered = false) (hframed : SaysFramed contentType)
    (hrun : Runs (Anything _) (codec.decode nameOf body contentType) t x) :
    t = [] ∧ ∃ text, x = .error (fatalError text) := by
  obtain ⟨text, htext⟩ : ∃ text, codec.writerSchemaFor body contentType = .error (fatalError text) := by
    have hstarts : StartsWith contentType avroRegisteredContentType := hframed
    rw [writerSchemaFor, hfixed, if_neg Bool.false_ne_true, if_pos hstarts]
    exact ⟨_, rfl⟩
  obtain ⟨rfl, rfl⟩ := refuses_of_error htext hrun
  exact ⟨rfl, text, rfl⟩

end runs

/-! ## The framing -/

section framing

variable {write : Schema → Payload → Except String Bytes} {typeName : Payload → String} {payload : Payload}

/-- What a codec wrote: the record, behind the identifier where the codec has one. -/
theorem encode_ok (h : codec.encode write typeName payload = .ok body) :
    ∃ written, write codec.schema payload = .ok written ∧
      ((codec.registered = false ∧ body = written) ∨
        ∃ id, codec.schemaId = some id ∧ id.toNat < 256 ^ 4 ∧
          body = magic :: bigEndian 4 id.toNat ++ written) := by
  have hwritten : ∀ front, (match write codec.schema payload with
      | .ok written => return front ++ written
      | .error failure => throw <| typeError <|
          "acemq: cannot write a " ++ typeName payload ++ " as Avro against this schema: " ++ failure) =
        Except.ok (ε := Failure) body → ∃ written, write codec.schema payload = .ok written ∧
          body = front ++ written := by
    intro front hbody
    cases hwrite : write codec.schema payload with
    | error failure =>
        rw [hwrite] at hbody
        cases hbody
    | ok written =>
        rw [hwrite] at hbody
        exact ⟨written, rfl, (Except.ok.inj hbody).symm⟩
  rw [encode] at h
  cases hid : codec.schemaId with
  | none =>
      cases hregistered : codec.registered with
      | true =>
          rw [if_pos ⟨hregistered, hid⟩] at h
          cases h
      | false =>
          rw [if_neg (by simp [hregistered]), hid] at h
          obtain ⟨written, hwrite, hbody⟩ := hwritten [] h
          exact ⟨written, hwrite, .inl ⟨rfl, hbody⟩⟩
  | some id =>
      rw [if_neg (by simp [hid]), hid] at h
      by_cases hsmall : id.toNat < 256 ^ 4
      · simp only [toBytesBig, if_pos hsmall] at h
        obtain ⟨written, hwrite, rfl⟩ := hwritten _ h
        exact ⟨written, hwrite, .inr ⟨id, rfl, hsmall, rfl⟩⟩
      · simp only [toBytesBig, if_neg hsmall] at h
        cases h

theorem identifier_framed {id : ℤ} (hpos : 0 < id) (hsmall : id.toNat < 256 ^ 4) (written : Bytes) :
    identifier (magic :: bigEndian 4 id.toNat ++ written) = id := by
  have hdigits : ((magic :: bigEndian 4 id.toNat ++ written).take frameBytes).drop 1 = bigEndian 4 id.toNat :=
    List.take_left' (length_bigEndian 4 _)
  rw [identifier, hdigits, fromBytesBig_bigEndian hsmall, Int.toNat_of_nonneg hpos.le]

end framing

/-- The content type decides how the body is read, and what cannot be read so is refused. -/
def Honours (codec : AvroCodec Schema) (Payload : Type) (nameOf : Schema → String) (body : Bytes)
    (contentType : Option String) : Prop :=
  ∀ (t : List (Event (Fastavro Schema Payload))) (x : Except Failure Payload),
    Runs (Anything _) (codec.decode nameOf body contentType) t x →
      (SaysBare contentType → codec.ReadsBare body t ∧
        (codec.registered = true → ∃ text, x = .error (fatalError text))) ∧
      (SaysFramed contentType → codec.ReadsFramed body t ∧
        (codec.registered = false → ∃ text, x = .error (fatalError text)))

section honours

variable {write : Schema → Payload → Except String Bytes} {typeName : Payload → String} {payload : Payload}

theorem honours_iff :
    codec.Honours Payload nameOf body contentType ↔
      ¬(codec.registered = true ∧ SaysBare contentType ∧ codec.CarriesKnown body) := by
  constructor
  · rintro hhonours ⟨hregistered, hbare, hcarries⟩
    obtain ⟨writer, _, hfound⟩ := writerSchemaFor_of_carriesKnown hregistered hcarries contentType
    have hrun : Runs (Anything (Fastavro Schema Payload)) (codec.decode nameOf body contentType)
        [⟨⟨body.drop frameBytes, writer, codec.reader⟩, .error ⟨fatalError "", false⟩⟩]
        (.error (fatalError "")) := by
      rw [decode, hfound, if_pos hregistered]
      exact .ask trivial (.raise _)
    have hcall := ((hhonours _ _ hrun).1 hbare).1 _ (List.mem_singleton_self _)
    have hlength : (body.drop frameBytes).length = body.length :=
      congrArg (fun call ↦ call.body.length) hcall
    have hlong := hcarries.1
    rw [List.length_drop] at hlength
    rw [frameBytes] at hlength hlong
    omega
  · intro hnot t x hrun
    cases hregistered : codec.registered with
    | true =>
        by_cases hcarries : codec.CarriesKnown body
        · obtain ⟨writer, answer, hwriter, rfl⟩ := asks_of_carriesKnown hregistered hcarries hrun
          refine ⟨fun hbare ↦ absurd ⟨hregistered, hbare, hcarries⟩ hnot, fun _ ↦ ⟨?_, nofun⟩⟩
          intro event hevent
          rw [List.mem_singleton.mp hevent]
          exact ⟨hcarries.1, hcarries.2.1, writer, hwriter, rfl⟩
        · obtain ⟨rfl, hrefused⟩ := refuses_of_not_carriesKnown hregistered hcarries hrun
          exact ⟨fun _ ↦ ⟨nofun, fun _ ↦ hrefused⟩, fun _ ↦ ⟨nofun, nofun⟩⟩
    | false =>
        refine ⟨fun hbare ↦ ⟨?_, nofun⟩, fun hframed ↦ ?_⟩
        · obtain ⟨answer, rfl⟩ := asks_of_fixed hregistered hbare hrun
          intro event hevent
          rw [List.mem_singleton.mp hevent]
        · obtain ⟨rfl, hrefused⟩ := refuses_of_fixed hregistered hframed hrun
          exact ⟨nofun, fun _ ↦ hrefused⟩

theorem canDecode_contentType (codec : AvroCodec Schema) : codec.canDecode (some codec.contentType) = true := by
  rw [contentType]
  cases hregistered : codec.registered with
  | true =>
      have hstarts : StartsWith (some avroRegisteredContentType) avroRegisteredContentType := by decide
      rw [if_pos rfl, canDecode, if_neg (by decide), if_pos hstarts, hregistered]
  | false =>
      have hnot : ¬StartsWith (some avroContentType) avroRegisteredContentType := by decide
      have hstarts : StartsWith (some avroContentType) avroContentType := by decide
      rw [if_neg Bool.false_ne_true, canDecode, if_neg (by decide), if_neg hnot, if_pos (.inl hstarts),
        hregistered]
      rfl

/-- The content type decides the framing, but for the bodies with a known identifier that
a codec with identifiers is told are bare. -/
theorem avroCodec_framing (codec : AvroCodec Schema) (Payload : Type) (nameOf : Schema → String) :
    (∀ (write : Schema → Payload → Except String Bytes) (typeName : Payload → String) (payload : Payload)
        (body : Bytes), codec.encode write typeName payload = .ok body →
      codec.canDecode (some codec.contentType) = true ∧
      ∀ (t : List (Event (Fastavro Schema Payload))) (x : Except Failure Payload),
        Runs (Anything _) (codec.decode nameOf body (some codec.contentType)) t x →
          ∃ written writer answer, write codec.schema payload = .ok written ∧
            t = [⟨⟨written, writer, codec.reader⟩, answer⟩] ∧
            (codec.registered = false ∧ writer = codec.schema ∨
              ∃ id, codec.schemaId = some id ∧ codec.known.get? id = some writer)) ∧
    ∀ (body : Bytes) (contentType : Option String),
      codec.Honours Payload nameOf body contentType ↔
        ¬(codec.registered = true ∧ SaysBare contentType ∧ codec.CarriesKnown body) := by
  refine ⟨?_, fun body contentType ↦ honours_iff⟩
  intro write typeName payload body hencode
  refine ⟨canDecode_contentType codec, fun t x hrun ↦ ?_⟩
  obtain ⟨written, hwrite, ⟨hfixed, rfl⟩ | ⟨id, hid, hsmall, rfl⟩⟩ := encode_ok hencode
  · have hbare : SaysBare (some codec.contentType) := by
      rw [AvroCodec.contentType, hfixed]
      exact .inl (by decide)
    obtain ⟨answer, ht⟩ := asks_of_fixed hfixed hbare hrun
    exact ⟨body, codec.schema, answer, hwrite, ht, .inl ⟨hfixed, rfl⟩⟩
  · have hidentifier := identifier_framed (codec.positive id hid) hsmall written
    have hcarries : codec.CarriesKnown (magic :: bigEndian 4 id.toNat ++ written) := by
      refine ⟨?_, rfl, ?_⟩
      · simp [frameBytes]
      · rw [hidentifier]
        exact (codec.framing id hid).2
    obtain ⟨writer, answer, hwriter, ht⟩ := asks_of_carriesKnown (codec.framing id hid).1 hcarries hrun
    have hdrop : (magic :: bigEndian 4 id.toNat ++ written).drop frameBytes = written :=
      List.drop_left' (by simp [frameBytes])
    rw [hdrop] at ht
    rw [hidentifier] at hwriter
    exact ⟨written, writer, answer, hwrite, ht, .inr ⟨id, hid, hwriter⟩⟩

end honours

/-- A codec that writes identifier 7. -/
def sevenCodec : AvroCodec Unit where
  schema := ()
  reader := ()
  schemaId := some 7
  registered := true
  known := Dict.set ∅ 7 ()
  positive := by
    rintro _ ⟨⟩
    decide
  framing := by
    rintro _ ⟨⟩
    exact ⟨rfl, Dict.mem_set.mpr (.inl rfl)⟩

/-- Told `avro/binary`, that codec reads six bytes as an identifier and one byte. -/
theorem avroCodec_reads_framed :
    ¬sevenCodec.Honours Unit (fun _ ↦ "reading") [0, 0, 0, 0, 7, 2] (some "avro/binary") := by
  intro hhonours
  have hrun : Runs (Anything (Fastavro Unit Unit))
      (sevenCodec.decode (fun _ ↦ "reading") [0, 0, 0, 0, 7, 2] (some "avro/binary"))
      [⟨⟨[2], (), ()⟩, .ok ()⟩] (.ok ()) := .ask trivial (.ret _)
  obtain ⟨-, hrefused⟩ := (hhonours _ _ hrun).1 (.inl (by decide))
  obtain ⟨text, htext⟩ := hrefused rfl
  cases htext

end AvroCodec

end Avro

end AcemqAmqp
