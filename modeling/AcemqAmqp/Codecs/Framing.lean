import AcemqAmqp.Codecs.Avro
import AcemqAmqp.Foundations.Fallible
import AcemqAmqp.Registry.InMemory

/-!
# The identifier on the front of an Avro body

One codec writes under the identifier it was built with, and any codec that has
been taught that identifier reads what it wrote.  The constructor takes every
positive identifier, and the frame has room for those of four bytes.
-/

namespace AcemqAmqp

open Interaction Program

namespace Avro

namespace AvroCodec

variable {Schema Payload : Type}

/-- What a schema of another format is refused with. -/
def notAvro (schemaId : ℤ) (definition : Registry.SchemaDefinition) : Failure := aceMQError <|
  "acemq: schema id " ++ toString schemaId ++ " is registered as " ++ definition.format ++
    ", and this codec reads avro. The message was written by something else."

/-- `learn_from`.  `found` is what the registry answers, and `parse` what
fastavro makes of a definition. -/
def learnFrom (parse : String → Except Failure Schema) (codec : AvroCodec Schema) (schemaId : ℤ)
    (found : Except Failure Registry.SchemaDefinition) : Except Failure (AvroCodec Schema) := do
  let definition ← found
  if definition.format ≠ "avro" then .error (notAvro schemaId definition)
  else (parse definition.definition).map (codec.learn schemaId)

/-- A codec and what it has been taught so far: its own schema, where it has an
identifier, and what it learned and looked up. -/
inductive Built (parse : String → Except Failure Schema) :
    AvroCodec Schema → List (ℤ × Schema) → Prop
  | fixed {schema : Schema} {readerSchema : Option Schema} {codec : AvroCodec Schema} :
      new schema none readerSchema = .ok codec → Built parse codec []
  | framing {schema : Schema} {id : ℤ} {readerSchema : Option Schema} {codec : AvroCodec Schema} :
      new schema (some id) readerSchema = .ok codec → Built parse codec [(id, schema)]
  | reading (readerSchema : Schema) : Built parse (reading readerSchema) []
  | learned {codec : AvroCodec Schema} {lessons : List (ℤ × Schema)} (id : ℤ) (schema : Schema) :
      Built parse codec lessons → Built parse (codec.learn id schema) (lessons ++ [(id, schema)])
  | lookedUp {codec codec' : AvroCodec Schema} {lessons : List (ℤ × Schema)} {id : ℤ}
      {definition : Registry.SchemaDefinition} {schema : Schema} :
      Built parse codec lessons → codec.learnFrom parse id (.ok definition) = .ok codec' →
      parse definition.definition = .ok schema → Built parse codec' (lessons ++ [(id, schema)])

/-- The last lesson about an identifier. -/
def lastUnder (id : ℤ) (lessons : List (ℤ × Schema)) : Option Schema :=
  (lessons.reverse.find? (·.1 = id)).map Prod.snd

theorem lastUnder_append (id id' : ℤ) (schema : Schema) (lessons : List (ℤ × Schema)) :
    lastUnder id (lessons ++ [(id', schema)]) =
      if id' = id then some schema else lastUnder id lessons := by
  rw [lastUnder, List.reverse_append, List.reverse_singleton, List.singleton_append, List.find?_cons]
  split <;> simp_all [lastUnder]

theorem learnFrom_ok {parse : String → Except Failure Schema} {codec codec' : AvroCodec Schema}
    {id : ℤ} {definition : Registry.SchemaDefinition} {schema : Schema}
    (h : codec.learnFrom parse id (.ok definition) = .ok codec')
    (hparse : parse definition.definition = .ok schema) : codec' = codec.learn id schema := by
  have hlearned : (if definition.format ≠ "avro" then .error (notAvro id definition)
      else (parse definition.definition).map (codec.learn id)) = .ok codec' := h
  split at hlearned
  · cases hlearned
  · obtain ⟨parsed, hparsed, rfl⟩ := Fallible.map_ok_iff.mp hlearned
    rw [hparse] at hparsed
    rw [Except.ok.inj hparsed]

theorem new_eq {schema : Schema} {id : ℤ} {readerSchema : Option Schema} {codec : AvroCodec Schema}
    (h : new schema (some id) readerSchema = .ok codec) :
    0 < id ∧ codec.schema = schema ∧ codec.schemaId = some id ∧ codec.registered = true ∧
      codec.known = Dict.set ∅ id schema := by
  unfold new at h
  dsimp only at h
  split at h
  · cases h
  · rename_i hpos
    obtain rfl := Except.ok.inj h
    exact ⟨not_le.mp hpos, rfl, rfl, rfl, rfl⟩

/-- What a codec knows is what it was taught last. -/
theorem Built.known {parse : String → Except Failure Schema} {codec : AvroCodec Schema}
    {lessons : List (ℤ × Schema)} (h : Built parse codec lessons) (id : ℤ) :
    codec.known.get? id = lastUnder id lessons := by
  have hlearn : ∀ {codec : AvroCodec Schema} {lessons : List (ℤ × Schema)} (id' : ℤ) (schema : Schema),
      codec.known.get? id = lastUnder id lessons →
      (codec.learn id' schema).known.get? id = lastUnder id (lessons ++ [(id', schema)]) := by
    intro codec lessons id' schema hknown
    rw [learn, Dict.get?_set, lastUnder_append, hknown]
    simp only [eq_comm]
  induction h with
  | fixed hnew =>
      obtain rfl := Except.ok.inj hnew
      rfl
  | @framing schema id' _ _ hnew =>
      rw [(new_eq hnew).2.2.2.2, Dict.get?_set, ← List.nil_append [(id', schema)], lastUnder_append]
      simp only [eq_comm]
      rfl
  | reading => rfl
  | learned id' schema _ ih => exact hlearn id' schema ih
  | lookedUp _ hfound hparse ih =>
      rw [learnFrom_ok hfound hparse]
      exact hlearn _ _ ih

/-! ## There and back -/

/-- What a codec that was never taught an identifier says of it. -/
def notTaught (id : ℤ) : Failure := fatalError <|
  "acemq: this message was written with schema " ++ toString id ++ ", which this " ++
    "codec has not been taught. Call await codec.learn_from(registry, " ++ toString id ++
    ") before consuming, or codec.learn(" ++ toString id ++ ", schema)."

/-- The record is written behind four bytes that say the identifier, and whoever was
taught the identifier reads that record, under the schema it was taught. -/
def RoundTrips (parse : String → Except Failure Schema) (write : Schema → Payload → Except String Bytes)
    (typeName : Payload → String) (nameOf : Schema → String) (codec : AvroCodec Schema) (id : ℤ)
    (payload : Payload) (written : Bytes) : Prop :=
  ∃ digits : Bytes, digits.length = 4 ∧ fromBytesBig digits = id ∧
    codec.encode write typeName payload = .ok (0 :: digits ++ written) ∧
    ∀ (reader : AvroCodec Schema) (lessons : List (ℤ × Schema)) (contentType : Option String)
      (t : List (Event (Fastavro Schema Payload))) (x : Except Failure Payload),
      Built parse reader lessons → reader.registered = true →
      Runs (Anything _) (reader.decode nameOf (0 :: digits ++ written) contentType) t x →
      (∀ learned, lastUnder id lessons = some learned →
        ∃ answer, t = [⟨⟨written, learned, reader.reader⟩, answer⟩]) ∧
      (lastUnder id lessons = none → t = [] ∧ x = .error (notTaught id))

section roundTrip

variable {parse : String → Except Failure Schema} {write : Schema → Payload → Except String Bytes}
  {typeName : Payload → String} {nameOf : Schema → String} {codec : AvroCodec Schema} {id : ℤ}
  {schema : Schema} {readerSchema : Option Schema} {payload : Payload} {written : Bytes}

theorem encode_framed (hnew : new schema (some id) readerSchema = .ok codec)
    (hwrite : write schema payload = .ok written) (hsmall : id.toNat < 256 ^ 4) :
    codec.encode write typeName payload = .ok (magic :: bigEndian 4 id.toNat ++ written) := by
  obtain ⟨-, hschema, hid, -, -⟩ := new_eq hnew
  rw [encode, if_neg (by simp [hid]), hid, hschema, hwrite]
  simp only [toBytesBig, if_pos hsmall]
  rfl

/-- A body with an identifier that a codec was taught, or was not. -/
theorem decode_framed {reader : AvroCodec Schema} {lessons : List (ℤ × Schema)}
    {contentType : Option String} {t : List (Event (Fastavro Schema Payload))}
    {x : Except Failure Payload} {digits : Bytes} (hlength : digits.length = 4)
    (hdigits : fromBytesBig digits = id) (hbuilt : Built parse reader lessons)
    (hregistered : reader.registered = true)
    (hrun : Runs (Anything _) (reader.decode nameOf (magic :: digits ++ written) contentType) t x) :
    (∀ learned, lastUnder id lessons = some learned →
      ∃ answer, t = [⟨⟨written, learned, reader.reader⟩, answer⟩]) ∧
    (lastUnder id lessons = none → t = [] ∧ x = .error (notTaught id)) := by
  have hfront : ¬((magic :: digits ++ written).length < frameBytes ∨
      (magic :: digits ++ written)[0]? ≠ some magic) := by
    simp [frameBytes, hlength]
  have hidentifier : identifier (magic :: digits ++ written) = id := by
    have htaken : ((magic :: digits ++ written).take frameBytes).drop 1 = digits :=
      List.take_left' hlength
    rw [identifier, htaken, hdigits]
  have hdrop : (magic :: digits ++ written).drop frameBytes = written :=
    List.drop_left' (by simp [frameBytes, hlength])
  constructor
  · intro learned hlearned
    have hfound : reader.writerSchemaFor (magic :: digits ++ written) contentType = .ok learned := by
      rw [writerSchemaFor, if_pos hregistered, if_neg hfront, hidentifier, hbuilt.known, hlearned]
    obtain ⟨answer, ht⟩ := asks_of_ok hfound hrun
    rw [if_pos hregistered, hdrop] at ht
    exact ⟨answer, ht⟩
  · intro hnone
    have hrefused : reader.writerSchemaFor (magic :: digits ++ written) contentType =
        .error (notTaught id) := by
      rw [writerSchemaFor, if_pos hregistered, if_neg hfront, hidentifier, hbuilt.known, hnone]
      rfl
    exact refuses_of_error hrefused hrun

end roundTrip

/-- The framing round-trips for the identifiers there is room for in four bytes,
of those that the constructor takes. -/
theorem schema_identifier_round_trips {schema : Schema} {id : ℤ} {readerSchema : Option Schema}
    {codec : AvroCodec Schema} {write : Schema → Payload → Except String Bytes} {payload : Payload}
    {written : Bytes} (parse : String → Except Failure Schema) (typeName : Payload → String)
    (nameOf : Schema → String) (hnew : new schema (some id) readerSchema = .ok codec)
    (hwrite : write schema payload = .ok written) :
    RoundTrips parse write typeName nameOf codec id payload written ↔ id < 4294967296 := by
  obtain ⟨hpos, -, hid, -, -⟩ := new_eq hnew
  constructor
  · rintro ⟨digits, -, -, hencode, -⟩
    obtain ⟨_, -, ⟨hfixed, -⟩ | ⟨id', hid', hsmall, -⟩⟩ := encode_ok hencode
    · rw [(codec.framing id hid).1] at hfixed
      cases hfixed
    · obtain rfl := Option.some.inj (hid.symm.trans hid')
      omega
  · intro hlimit
    have hsmall : id.toNat < 256 ^ 4 := by omega
    have hdigits : (fromBytesBig (bigEndian 4 id.toNat) : ℤ) = id := by
      rw [fromBytesBig_bigEndian hsmall, Int.toNat_of_nonneg hpos.le]
    exact ⟨bigEndian 4 id.toNat, length_bigEndian 4 _, hdigits, encode_framed hnew hwrite hsmall,
      fun reader lessons contentType t x hbuilt hregistered hrun ↦
        decode_framed (length_bigEndian 4 _) hdigits hbuilt hregistered hrun⟩

/-- Identifier 7, read by a codec that learned it. -/
theorem schema_identifier_round_trips_seven : ∃ codec : AvroCodec Unit,
    new () (some 7) none = .ok codec ∧
      RoundTrips (fun _ ↦ .ok ()) (fun _ (_ : Unit) ↦ .ok [2]) (fun _ ↦ "dict") (fun _ ↦ "order")
        codec 7 () [2] :=
  ⟨_, rfl, (schema_identifier_round_trips _ _ _ rfl rfl).mpr (by decide)⟩

/-- An identifier of five bytes is taken, and nothing can be written under it. -/
theorem schema_identifier_too_big : ∃ codec : AvroCodec Unit,
    new () (some 4294967296) none = .ok codec ∧
      codec.encode (fun _ (_ : Unit) ↦ .ok [2]) (fun _ ↦ "dict") () =
        .error ⟨.exception, "OverflowError", "int too big to convert"⟩ ∧
      ¬RoundTrips (fun _ ↦ .ok ()) (fun _ (_ : Unit) ↦ .ok [2]) (fun _ ↦ "dict") (fun _ ↦ "order")
        codec 4294967296 () [2] := by
  refine ⟨_, rfl, rfl, ?_⟩
  rintro ⟨digits, -, -, hencode, -⟩
  cases hencode

end AvroCodec

end Avro

end AcemqAmqp
