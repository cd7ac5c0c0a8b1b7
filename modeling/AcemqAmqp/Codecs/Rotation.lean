import AcemqAmqp.Codecs.Encrypted

/-!
# Rotating keys

What a keyring holds after any calls of `add` and `use`, and which of the
bodies written with it before can still be read.
-/

namespace AcemqAmqp

open Fallible

namespace Encrypted

/-- A call on a keyring.  One that raises leaves the ring as it is. -/
inductive Change
  | add (key : EncryptionKey)
  | use (id : String)

namespace Keyring

def change (ring : Keyring) : Change → Keyring
  | .add key => ring.add key
  | .use id => match ring.use id with
    | .ok ring => ring
    | .error _ => ring

/-- `Keyring(first, *rest)` after some changes. -/
def after (first : EncryptionKey) (rest : List EncryptionKey) (changes : List Change) : Keyring :=
  changes.foldl change (new first rest)

end Keyring

/-- The last of some keys with a name. -/
def lastNamed (id : String) (keys : List EncryptionKey) : Option EncryptionKey :=
  keys.reverse.find? (·.id = id)

/-- No key that has been written with is replaced by another one of its name. -/
structure Steady (first : EncryptionKey) (rest : List EncryptionKey) (changes : List Change) : Prop where
  start : lastNamed first.id (first :: rest) = some first
  kept : ∀ before key later, changes = before ++ .add key :: later →
    ∀ early, early <+: before → (Keyring.after first rest early).currentId = key.id →
      (Keyring.after first rest before).keys.get? key.id = some key

/-- What is written with one ring is read with another. -/
def StillReads (writer reader : Keyring) : Prop :=
  ∀ (Payload : Type) (cipher : Cipher) (made : Sealing → Prop) (delegate : Codec Payload)
    (typeName : Payload → String) (nonce : Bytes) (payload : Payload) (plaintext body : Bytes)
    (contentType : Option String), Authentic cipher made → nonce.length = nonceBytes →
    delegate.encode payload = .ok plaintext →
    made ⟨writer.current.key, nonce, plaintext, framed writer.current.id⟩ →
    encode cipher delegate writer typeName nonce payload = .ok body →
    decode cipher delegate reader body contentType =
      delegate.decode plaintext (some delegate.contentType)

/-- The key written with is the first one until another is used, and whatever was
written at some point is read from then on. -/
structure NeverLoses (first : EncryptionKey) (rest : List EncryptionKey) (changes : List Change) :
    Prop where
  start : (Keyring.new first rest).current = first
  added : ∀ before key later, changes = before ++ .add key :: later →
    ((Keyring.after first rest before).add key).current = (Keyring.after first rest before).current
  used : ∀ before id later, changes = before ++ .use id :: later →
    (∀ key, (Keyring.after first rest before).keys.get? id = some key →
      (Keyring.after first rest (before ++ [.use id])).current = key) ∧
    ((Keyring.after first rest before).keys.get? id = none →
      (∃ f, (Keyring.after first rest before).use id = .error f) ∧
      Keyring.after first rest (before ++ [.use id]) = Keyring.after first rest before)
  read : ∀ early late, early <+: late → late <+: changes →
    StillReads (Keyring.after first rest early) (Keyring.after first rest late)

/-! ## What the ring holds -/

section ring

variable {ring : Keyring} {key : EncryptionKey} {id : String}

theorem Keyring.current_eq (h : ring.keys.get? ring.currentId = some key) : ring.current = key := by
  unfold Keyring.current
  split
  · rename_i found hfound
    exact Option.some.inj (hfound.symm.trans h)
  · rename_i hnone
    rw [hnone] at h
    cases h

theorem Keyring.current_id (ring : Keyring) : ring.current.id = ring.currentId := by
  obtain ⟨key, hkey⟩ := Dict.mem_iff_get?.mp ring.holds
  rw [Keyring.current_eq hkey]
  exact ring.filed _ _ hkey

theorem Keyring.get?_currentId (ring : Keyring) :
    ring.keys.get? ring.currentId = some ring.current := by
  rw [← ring.current_id]
  exact ring.get?_current

theorem Keyring.get?_add_self : (ring.add key).keys.get? key.id = some key := Dict.get?_set_self

theorem Keyring.get?_add_ne (h : id ≠ key.id) : (ring.add key).keys.get? id = ring.keys.get? id :=
  Dict.get?_set_ne h

theorem Keyring.keys_use (ring : Keyring) (id : String) : (ring.change (.use id)).keys = ring.keys := by
  rw [change, use]
  split <;> rename_i h <;> split at h <;> cases h <;> rfl

theorem lastNamed_cons (keys : List EncryptionKey) (key : EncryptionKey) :
    lastNamed id (key :: keys) =
      (lastNamed id keys).or (if key.id = id then some key else none) := by
  rw [lastNamed, lastNamed, List.reverse_cons, List.find?_append, List.find?_singleton]
  simp

theorem get?_foldl_file (keys : List EncryptionKey) (held : Dict String EncryptionKey) :
    (keys.foldl Keyring.file held).get? id = (lastNamed id keys).or (held.get? id) := by
  induction keys generalizing held with
  | nil => rfl
  | cons key keys ih =>
      rw [List.foldl_cons, ih, lastNamed_cons, Keyring.file, Dict.get?_set, Option.or_assoc]
      by_cases h : key.id = id
      · rw [if_pos h.symm, if_pos h, Option.some_or]
      · rw [if_neg (Ne.symm h), if_neg h, Option.none_or]

/-- A ring holds the last key it was given under a name. -/
theorem Keyring.get?_new (first : EncryptionKey) (rest : List EncryptionKey) (id : String) :
    (Keyring.new first rest).keys.get? id = lastNamed id (first :: rest) := by
  rw [Keyring.new, get?_foldl_file, lastNamed_cons, file, Dict.get?_set, Dict.get?_empty]
  simp only [eq_comm]

theorem Keyring.after_append (first : EncryptionKey) (rest : List EncryptionKey)
    (before : List Change) (c : Change) :
    Keyring.after first rest (before ++ [c]) = (Keyring.after first rest before).change c := by
  rw [after, List.foldl_append]
  rfl

theorem Keyring.use_spec (ring : Keyring) (id : String) :
    (∀ key, ring.keys.get? id = some key → (ring.change (.use id)).current = key) ∧
      (ring.keys.get? id = none → (∃ f, ring.use id = .error f) ∧ ring.change (.use id) = ring) := by
  refine ⟨fun key hkey ↦ ?_, fun hnone ↦ ?_⟩
  · have hmem : id ∈ ring.keys := Dict.mem_iff_get?.mpr ⟨key, hkey⟩
    apply Keyring.current_eq
    simp only [change, use, dif_pos hmem]
    exact hkey
  · have hmem : id ∉ ring.keys := Dict.get?_eq_none_iff.mp hnone
    have hraises : ∃ f, ring.use id = .error f := by
      rw [use, dif_neg hmem]
      exact ⟨_, rfl⟩
    refine ⟨hraises, ?_⟩
    obtain ⟨f, hf⟩ := hraises
    rw [change, hf]

end ring

/-! ## What can still be read -/

/-- A cipher that has sealed one text. -/
def sealsOnce (sealing : Sealing) : Cipher where
  encrypt _ _ plaintext _ := .ok (plaintext ++ List.replicate tagBytes 0)
  decrypt key nonce sealed header :=
    if (⟨key, nonce, sealing.plaintext, header⟩ : Sealing) = sealing ∧
      sealed = sealing.plaintext ++ List.replicate tagBytes 0 then some sealing.plaintext else none

theorem authentic_sealsOnce (sealing : Sealing) : Authentic (sealsOnce sealing) (· = sealing) where
  opens key nonce sealed header plaintext := by
    simp only [sealsOnce, Except.ok.injEq]
    constructor
    · intro h
      split at h
      · rename_i hall
        obtain rfl := Option.some.inj h
        exact ⟨hall.1, hall.2.symm⟩
      · cases h
    · rintro ⟨hmade, hsealed⟩
      obtain rfl : plaintext = sealing.plaintext := congrArg Sealing.plaintext hmade
      exact if_pos ⟨hmade, hsealed.symm⟩
  tagged key nonce plaintext header sealed h := by
    rw [← Except.ok.inj h, List.length_append, List.length_replicate]

theorem key_ne {key other : EncryptionKey} (hid : other.id = key.id) (hne : other ≠ key) :
    other.key ≠ key.key := by
  intro hkey
  cases key
  cases other
  simp_all

section read

variable {writer reader : Keyring}

/-- A ring reads what another one writes as long as it holds the key that is written with. -/
theorem stillReads_iff :
    StillReads writer reader ↔ reader.keys.get? writer.current.id = some writer.current := by
  constructor
  · intro hreads
    let nonce : Bytes := List.replicate nonceBytes 0
    let sealing : Sealing := ⟨writer.current.key, nonce, [], framed writer.current.id⟩
    have hencode : encode (sealsOnce sealing) bytesCodec writer (fun _ ↦ "bytes") nonce [] =
        .ok (framed writer.current.id ++ nonce ++ List.replicate tagBytes 0) :=
      encode_ok_iff.mpr ⟨[], _, rfl, rfl, rfl⟩
    have hdecode := hreads Bytes (sealsOnce sealing) (· = sealing) bytesCodec _ nonce [] [] _ none
      (authentic_sealsOnce sealing) List.length_replicate rfl rfl hencode
    have hgenuine := genuine_or_refused (authentic_sealsOnce sealing) reader
      (framed writer.current.id ++ nonce ++ List.replicate tagBytes 0)
    rcases hgenuine with ⟨plaintext, keyId, key, nonce', hkey, hmade, -⟩ | hrefused
    · have hsame : key.key = writer.current.key := congrArg Sealing.key hmade
      have hframed : framed keyId = framed writer.current.id := congrArg Sealing.header hmade
      have hid : keyId = writer.current.id := by
        have hread : keyIdOf (framed keyId ++ []) = .ok (some writer.current.id) := by
          rw [hframed]
          exact keyIdOf_framed writer.current.length_pos writer.current.short []
        obtain rfl := reader.filed keyId key hkey
        rw [keyIdOf_framed key.length_pos key.short] at hread
        exact Option.some.inj (Except.ok.inj hread)
      subst hid
      have hfiled := reader.filed _ _ hkey
      by_cases heq : key = writer.current
      · rw [hkey, heq]
      · exact absurd hsame (key_ne hfiled heq)
    · have hfails : ∃ text, decode (sealsOnce sealing) bytesCodec reader _ none =
          .error (fatalError text) := decode_of_refused hrefused none
      obtain ⟨text, htext⟩ := hfails
      rw [htext] at hdecode
      cases hdecode
  · intro hheld Payload cipher made delegate typeName nonce payload plaintext body contentType
      hcipher hnonce hplaintext hmade hbody
    obtain ⟨plaintext', sealed, hplaintext', hsealed, rfl⟩ := encode_ok_iff.mp hbody
    obtain rfl := Except.ok.inj (hplaintext.symm.trans hplaintext')
    apply decode_of_genuine hcipher
    exact ⟨_, writer.current, nonce, hheld, hmade, sealed, hsealed, hnonce, rfl⟩

end read

/-! ## Through all the changes -/

variable {first : EncryptionKey} {rest : List EncryptionKey} {changes : List Change}

/-- A key that has been written with stays on the ring. -/
theorem Steady.held (h : Steady first rest changes) {early late : List Change}
    (hearly : early <+: late) (hlate : late <+: changes) :
    (Keyring.after first rest late).keys.get? (Keyring.after first rest early).current.id =
      some (Keyring.after first rest early).current := by
  induction late using List.reverseRecOn with
  | nil =>
      rw [List.prefix_nil.mp hearly]
      exact Keyring.get?_current _
  | append_singleton before c ih =>
      rcases List.prefix_concat_iff.mp hearly with rfl | hbefore
      · exact Keyring.get?_current _
      · have hheld := ih hbefore ((List.prefix_append before [c]).trans hlate)
        obtain ⟨later, hchanges⟩ := hlate
        rw [List.append_assoc] at hchanges
        rw [Keyring.after_append]
        cases c with
        | use id => rw [Keyring.keys_use, hheld]
        | add key =>
            by_cases hid : (Keyring.after first rest early).current.id = key.id
            · have hcurrent := (Keyring.after first rest early).current_id.symm.trans hid
              have hkept := h.kept before key later hchanges.symm early hbefore hcurrent
              rw [hid, hkept] at hheld
              rw [hid, ← hheld]
              exact Keyring.get?_add_self
            · rw [← hheld]
              exact Keyring.get?_add_ne hid

theorem Steady.added (h : Steady first rest changes) {before later : List Change}
    {key : EncryptionKey} (hchanges : changes = before ++ .add key :: later) :
    ((Keyring.after first rest before).add key).current =
      (Keyring.after first rest before).current := by
  apply Keyring.current_eq
  by_cases hid : (Keyring.after first rest before).currentId = key.id
  · have hkept := h.kept before key later hchanges before List.prefix_rfl hid
    have hcurrent := (Keyring.after first rest before).get?_currentId
    rw [hid, hkept] at hcurrent
    rw [show ((Keyring.after first rest before).add key).currentId = key.id from hid, ← hcurrent]
    exact Keyring.get?_add_self
  · rw [← (Keyring.after first rest before).get?_currentId]
    exact Keyring.get?_add_ne hid

theorem NeverLoses.steady (h : NeverLoses first rest changes) : Steady first rest changes where
  start := by
    have hcurrent := (Keyring.new first rest).get?_currentId
    rw [h.start, Keyring.get?_new] at hcurrent
    exact hcurrent
  kept := by
    intro before key later hchanges early hearly hid
    have hprefix : before <+: changes := hchanges ▸ List.prefix_append before _
    have hadded : before ++ [.add key] <+: changes := ⟨later, by simp [hchanges]⟩
    have hbefore := stillReads_iff.mp (h.read early before hearly hprefix)
    have hafter := stillReads_iff.mp
      (h.read early (before ++ [.add key]) (hearly.trans (List.prefix_append before _)) hadded)
    rw [Keyring.current_id, hid] at hbefore hafter
    rw [Keyring.after_append] at hafter
    have hsame := Keyring.get?_add_self.symm.trans hafter
    rw [hbefore, hsame]

/-- Rotation loses no message exactly when no key that has been written with is
replaced by another one of its name. -/
theorem rotation_never_loses_iff (first : EncryptionKey) (rest : List EncryptionKey)
    (changes : List Change) : NeverLoses first rest changes ↔ Steady first rest changes := by
  refine ⟨NeverLoses.steady, fun h ↦ ?_⟩
  constructor
  case start =>
    apply Keyring.current_eq
    rw [Keyring.get?_new]
    exact h.start
  case added => exact fun before key later hchanges ↦ h.added hchanges
  case used =>
    intro before id later _
    rw [Keyring.after_append]
    exact Keyring.use_spec _ id
  case read => exact fun early late hearly hlate ↦ stillReads_iff.mpr (h.held hearly hlate)

/-- Another key by the name of the example's. -/
def otherKey : EncryptionKey := { exampleKey with key := List.replicate 16 1, sized := by decide }

/-- A second key under the name of the first one: it is what is written with from
then on, and what was written before cannot be read. -/
theorem rotation_replaces :
    ¬NeverLoses exampleKey [] [.add otherKey] ∧
      ((Keyring.new exampleKey []).add otherKey).current.key = List.replicate 16 1 ∧
      ¬StillReads (Keyring.new exampleKey []) ((Keyring.new exampleKey []).add otherKey) := by
  have hnew : (Keyring.new exampleKey []).current = exampleKey := Keyring.current_eq (by rfl)
  have hadded : ((Keyring.new exampleKey []).add otherKey).current = otherKey :=
    Keyring.current_eq (by rfl)
  have hne : otherKey ≠ exampleKey := fun h ↦ absurd (congrArg EncryptionKey.key h) (by decide)
  have hlost : ¬StillReads (Keyring.new exampleKey []) ((Keyring.new exampleKey []).add otherKey) := by
    rw [stillReads_iff, hnew]
    intro hheld
    have hother : ((Keyring.new exampleKey []).add otherKey).keys.get? exampleKey.id =
        some otherKey := rfl
    exact hne (Option.some.inj (hother.symm.trans hheld))
  refine ⟨fun h ↦ hlost ?_, by rw [hadded]; rfl, hlost⟩
  exact h.read [] [.add otherKey] (List.nil_prefix) List.prefix_rfl

end Encrypted

end AcemqAmqp
