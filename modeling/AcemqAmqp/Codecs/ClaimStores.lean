import AcemqAmqp.Codecs.ClaimCheck
import AcemqAmqp.Foundations.Dict

/-!
# The stores a claim check is redeemed from

One keeps the payloads in a dictionary and the other as the files of one
directory.  A key arrives in a message, so it is any text at all: the
dictionary is asked for it as it is, and the directory only for what could be
the name of a file in it.
-/

namespace AcemqAmqp

open Interaction Program

namespace ClaimCheck

/-- A `PurePosixPath`: its root, and the names below it. -/
structure Path where
  root : String
  parts : List String
  deriving DecidableEq

namespace Path

/-- The slashes a path begins with.  Two mean a root of their own, and more mean one. -/
def rootOf (text : List Char) : String :=
  match text.takeWhile (· = '/') with
  | [] => ""
  | ['/', '/'] => "//"
  | _ => "/"

/-- `PurePosixPath(text)`. -/
def parse (text : String) : Path where
  root := rootOf text.toList
  parts := ((text.toList.splitOn '/').map String.ofList).filter fun name ↦ name ≠ "" ∧ name ≠ "."

/-- `directory / segment`. -/
def join (directory : Path) (segment : String) : Path :=
  if (parse segment).root = "" then ⟨directory.root, directory.parts ++ (parse segment).parts⟩
  else parse segment

/-- A path that names an entry of the directory itself. -/
def EntryOf (directory path : Path) : Prop :=
  ∃ name : String, path = ⟨directory.root, directory.parts ++ [name]⟩ ∧
    name ≠ "" ∧ name ≠ "." ∧ name ≠ ".." ∧ '/' ∉ name.toList

end Path

/-- What an `OSError` is looked at for. -/
structure OsError where
  fileNotFound : Bool
  text : String

/-- What the stores ask of the machine they run on.  Unlinking is with `missing_ok`. -/
inductive HostCall
  | uuid4
  | mkstemp (stem suffix : String) (directory : Path)
  | write (path : Path) (content : Bytes)
  | replace (source target : Path)
  | unlink (path : Path)
  | readBytes (path : Path)

abbrev Host : Interface where
  Act := HostCall
  Ans
    | .uuid4 => String
    | .mkstemp .. => Except OsError Path
    | .write .. => Except OsError Unit
    | .replace .. => Except OsError Unit
    | .unlink _ => Except OsError Unit
    | .readBytes _ => Except OsError Bytes

/-- The path whose content is asked for, or whose entry is removed. -/
def HostCall.opened : HostCall → Option Path
  | .readBytes path => some path
  | .unlink path => some path
  | _ => none

/-- No I/O failure: a file that is not there is not one. -/
def NoIoFailure : Assumption Host
  | .uuid4, _ => True
  | .mkstemp .., answer => answer.isOk
  | .write .., answer => answer.isOk
  | .replace .., answer => answer.isOk
  | .unlink _, answer => answer.isOk
  | .readBytes _, answer => ∀ failure, answer = .error failure → failure.fileNotFound

structure InMemoryClaimCheckStore where
  contents : Dict String Bytes

namespace InMemoryClaimCheckStore

variable (store : InMemoryClaimCheckStore)

def put (content : Bytes) : Program Host Failure (String × InMemoryClaimCheckStore) :=
  ask .uuid4 fun key : String ↦ ret (key, ⟨store.contents.set key content⟩)

def get (key : String) : Option Bytes := store.contents.get? key

end InMemoryClaimCheckStore

structure FilesystemClaimCheckStore where
  directory : Path

namespace FilesystemClaimCheckStore

variable (store : FilesystemClaimCheckStore)

/-- `_SAFE_KEY.fullmatch(key)`. -/
def safeKey (key : String) : Bool :=
  match key.toList with
  | [] => false
  | c :: rest => c.isAlphanum && rest.length ≤ 127 &&
      rest.all fun c ↦ c.isAlphanum || c = '.' || c = '_' || c = '-'

/-- What a key the store cannot have issued is refused with. -/
def notIssued (key : String) : Failure := aceMQError <|
  "acemq: " ++ reprText key ++ " is not a key this store issued. A key becomes a path " ++
    "segment, so one arriving from a message is checked rather than trusted."

/-- `_path_for`. -/
def pathFor (key : String) : Except Failure Path :=
  if ¬safeKey key then .error (notIssued key) else .ok (store.directory.join key)

/-- What the caller hears of an `OSError`. -/
def couldNot (verb key : String) (failure : OsError) : Failure := aceMQError <|
  "acemq: could not " ++ verb ++ " the claim-check payload " ++ key ++ ": " ++ failure.text

def put (content : Bytes) : Program Host Failure String :=
  ask .uuid4 fun key : String ↦
    let failing (failure : OsError) : Program Host Failure String := raise (couldNot "write" key failure)
    ask (.mkstemp key ".partial" store.directory) fun
      | .error failure => failing failure
      | .ok staging =>
          -- The staging file goes whichever step failed, and its own failure is then the one heard of.
          let discard (failure : OsError) : Program Host Failure String :=
            ask (.unlink staging) fun
              | .error failure' => failing failure'
              | .ok () => failing failure
          ask (.write staging content) fun
            | .error failure => discard failure
            | .ok () => ask (.replace staging (store.directory.join key)) fun
                | .error failure => discard failure
                | .ok () => ret key

def get (key : String) : Program Host Failure (Option Bytes) :=
  (ofExcept (store.pathFor key)).bind fun path ↦
    ask (.readBytes path) fun
      | .ok content => ret (some content)
      | .error failure => if failure.fileNotFound then ret none else raise (couldNot "read" key failure)

def delete (key : String) : Program Host Failure Unit :=
  (ofExcept (store.pathFor key)).bind fun path ↦
    ask (.unlink path) fun
      | .ok () => ret ()
      | .error failure => raise (couldNot "delete" key failure)

end FilesystemClaimCheckStore

/-- The two stores the library ships. -/
inductive ShippedStore
  | inMemory (store : InMemoryClaimCheckStore)
  | filesystem (store : FilesystemClaimCheckStore)

namespace ShippedStore

/-- What a store does with a call of the codec.  What it raises is the answer. -/
def handle : ShippedStore → (q : StoreCall) → Program Host Failure (Store.Ans q × ShippedStore)
  | inMemory store, .put content =>
      (store.put content).bind fun r ↦ ret ((.ok r.1 : Except Failure String), inMemory r.2)
  | inMemory store, .get key => ret ((.ok (store.get key) : Except Failure (Option Bytes)), inMemory store)
  | filesystem store, .put content => (store.put content).attempt.bind fun r ↦ ret (r, filesystem store)
  | filesystem store, .get key => (store.get key).attempt.bind fun r ↦ ret (r, filesystem store)

/-- Whether a store could have issued a key. -/
def couldIssue : ShippedStore → String → Bool
  | inMemory _, _ => true
  | filesystem _, key => FilesystemClaimCheckStore.safeKey key

/-- In a run `t`, the store has handed `content` over for `key`. -/
def Held (t : List (Event Host)) (key : String) (content : Bytes) : ShippedStore → Prop
  | inMemory store => store.get key = some content
  | filesystem store => (⟨.readBytes (store.directory.join key), .ok content⟩ : Event Host) ∈ t

/-- The files a store may open: those of its own directory, if it has one. -/
def Encloses (path : Path) : ShippedStore → Prop
  | inMemory _ => False
  | filesystem store => store.directory.EntryOf path

end ShippedStore

/-! ## Keys as names of files -/

namespace FilesystemClaimCheckStore

variable {store : FilesystemClaimCheckStore} {key : String} {path : Path}

theorem slash_notMem_of_safeKey (h : safeKey key = true) : '/' ∉ key.toList := by
  unfold safeKey at h
  split at h
  · cases h
  · rename_i c rest heq
    simp only [Bool.and_eq_true, List.all_eq_true] at h
    rw [heq, List.mem_cons]
    rintro (rfl | hmem)
    · exact absurd h.1.1 (by decide)
    · exact absurd (h.2 '/' hmem) (by decide)

/-- A key begins with a letter or a digit, so it is no name with a meaning of its own. -/
theorem ne_of_safeKey {name : String} (h : safeKey key = true) (hname : safeKey name = false) :
    key ≠ name := by
  rintro rfl
  rw [h] at hname
  cases hname

theorem join_safeKey (directory : Path) (h : safeKey key = true) :
    directory.join key = ⟨directory.root, directory.parts ++ [key]⟩ := by
  have hslash := slash_notMem_of_safeKey h
  have hparts : key.toList.splitOn '/' = [key.toList] :=
    List.splitOnP_eq_singleton fun c hc ↦ beq_eq_false_iff_ne.mpr fun heq ↦ hslash (heq ▸ hc)
  have hparse : Path.parse key = ⟨"", [key]⟩ := by
    rw [Path.parse, hparts]
    have hroot : key.toList.takeWhile (· = '/') = [] := by
      cases hlist : key.toList with
      | nil => rfl
      | cons c rest =>
          have hc : c ≠ '/' := by
            rintro rfl
            exact hslash (hlist ▸ List.mem_cons_self)
          exact List.takeWhile_cons_of_neg (by simpa using hc)
    rw [Path.rootOf, hroot]
    have hempty : key ≠ "" := ne_of_safeKey h rfl
    have hdot : key ≠ "." := ne_of_safeKey h (by decide)
    simp [hempty, hdot]
  rw [Path.join, hparse]
  rfl

/-- What a key is made a path of is an entry of the directory. -/
theorem entryOf_pathFor (h : store.pathFor key = .ok path) : store.directory.EntryOf path := by
  unfold pathFor at h
  split at h
  · cases h
  · rename_i hsafe
    have hsafe : safeKey key = true := by simpa using hsafe
    obtain rfl := Except.ok.inj h
    exact ⟨key, join_safeKey _ hsafe, ne_of_safeKey hsafe rfl, ne_of_safeKey hsafe (by decide),
      ne_of_safeKey hsafe (by decide), slash_notMem_of_safeKey hsafe⟩

/-- What opens nothing but what a key is made a path of opens entries of the directory only. -/
theorem opens_entries {α : Type} {f : Path → Program Host Failure α}
    (hf : ∀ path, (f path).Always (Anything Host) fun t _ ↦ ∀ e ∈ t, e.1.opened = some path) :
    ((ofExcept (store.pathFor key)).bind f).Always (Anything Host) fun t _ ↦
      ∀ e ∈ t, ∀ path, e.1.opened = some path → store.directory.EntryOf path := by
  rw [always_bind, always_ofExcept]
  cases hpath : store.pathFor key with
  | error raised => exact nofun
  | ok path =>
      refine (hf path).mono ?_
      intro t x ht e he path' hopened
      obtain rfl := Option.some.inj ((ht e he).symm.trans hopened)
      exact entryOf_pathFor hpath

theorem get_opens (store : FilesystemClaimCheckStore) (key : String) :
    (store.get key).Always (Anything Host) fun t _ ↦
      ∀ e ∈ t, ∀ path, e.1.opened = some path → store.directory.EntryOf path := by
  apply opens_entries
  rintro path (failure | content) -
  · by_cases habsent : failure.fileNotFound
    · simp [habsent, HostCall.opened]
    · simp [habsent, HostCall.opened]
  · simp [HostCall.opened]

/-- A key the store cannot have issued is refused before anything is opened. -/
theorem get_unsafe (h : safeKey key = false) : store.get key = raise (notIssued key) := by
  rw [get, pathFor, if_pos (by simp [h])]
  rfl

/-- Without an I/O failure, a key the store could have issued is looked up. -/
theorem get_safe (store : FilesystemClaimCheckStore) (h : safeKey key = true) :
    (store.get key).Always NoIoFailure fun t x ↦ ∃ found, x = .ok found ∧ ∀ content,
      found = some content →
        (⟨.readBytes (store.directory.join key), .ok content⟩ : Event Host) ∈ t := by
  rw [get, pathFor, if_neg (by simp [h])]
  rintro (failure | content) hfine
  · have habsent : failure.fileNotFound = true := hfine failure rfl
    simp [habsent]
  · exact ⟨some content, rfl, by simp⟩

end FilesystemClaimCheckStore

/-! ## Decoding over a shipped store -/

theorem frame_drop {body : Bytes} (h : isFramed body = true) :
    ∃ kind, (kind = inline ∨ kind = checked) ∧ body = frame kind (body.drop headerBytes) := by
  obtain ⟨-, hmagic, hversion, hkind⟩ := of_decide_eq_true h
  match body, hmagic, hversion, hkind with
  | a :: b :: c :: rest, hmagic, hversion, hkind =>
      obtain rfl := Option.some.inj hmagic
      obtain rfl := Option.some.inj hversion
      refine ⟨c, ?_, rfl⟩
      exact hkind.imp Option.some.inj Option.some.inj

section decoding

variable {Payload : Type} (undecodable : Bytes → String) (codec : ClaimCheckCodec Payload)
  (body : Bytes) (contentType : Option String)

/-- The ways a decoding can go, with what it asks of the store. -/
inductive Decoding : List (Event Store) → Except Failure Payload → Prop
  | bare : isFramed body = false → Decoding [] (codec.delegate.decode body contentType)
  | inline (rest : Bytes) : body = frame inline rest → Decoding [] (codec.delegate.decode rest contentType)
  | undecodable (rest : Bytes) : body = frame checked rest → decodeUtf8 rest = none →
      Decoding [] (.error (unicodeDecodeError (undecodable rest)))
  | failed (key : String) (raised : Failure) : body = frame checked (encodeUtf8 key) →
      Decoding [⟨.get key, .error raised⟩] (.error raised)
  | absent (key : String) (text : String) : body = frame checked (encodeUtf8 key) →
      Decoding [⟨.get key, .ok none⟩] (.error (fatalError text))
  | held (key : String) (content : Bytes) : body = frame checked (encodeUtf8 key) →
      Decoding [⟨.get key, .ok (some content)⟩] (codec.delegate.decode content contentType)

theorem decode_decoding : (decode undecodable codec body contentType).Always (Anything Store)
    (Decoding undecodable codec body contentType) := by
  by_cases hframed : isFramed body = true
  · obtain ⟨kind, rfl | rfl, hbody⟩ := frame_drop hframed
    · rw [hbody, decode_inline, always_ofExcept]
      exact .inline _ rfl
    · generalize body.drop headerBytes = rest at hbody
      subst hbody
      rw [decode, if_neg (by simp)]
      simp only [frame_two, drop_frame, Option.some.injEq, inline_ne_checked.symm, if_false]
      cases hkey : decodeUtf8 rest with
      | none => exact .undecodable rest rfl hkey
      | some key =>
          obtain rfl := decodeUtf8_eq_some_iff.mp hkey
          simp only [always_bind, always_call]
          rintro (raised | _ | content) -
          · exact .failed key raised rfl
          · exact .absent key _ rfl
          · simp only [id, onEnd_ok, always_ofExcept]
            exact .held key content rfl
  · rw [decode_bare (by simpa using hframed), always_ofExcept]
    exact .bare (by simpa using hframed)

end decoding

namespace ShippedStore

variable {store : ShippedStore} {key : String}

/-- A store answers: what it raises is an answer too. -/
theorem handle_answers (A : Assumption Host) (store : ShippedStore) (q : StoreCall) :
    (store.handle q).Always A fun _ y ↦ ∃ r, y = .ok r := by
  cases store with
  | inMemory store =>
      cases q with
      | put content => exact fun key _ ↦ ⟨_, rfl⟩
      | get key => exact ⟨_, rfl⟩
  | filesystem store =>
      cases q with
      | put content =>
          rw [handle, always_bind, always_attempt, always_iff_runs]
          exact fun t x _ ↦ ⟨_, rfl⟩
      | get key =>
          rw [handle, always_bind, always_attempt, always_iff_runs]
          exact fun t x _ ↦ ⟨_, rfl⟩

theorem handle_get_opens (store : ShippedStore) (key : String) :
    (store.handle (.get key)).Always (Anything Host) fun t _ ↦
      ∀ e ∈ t, ∀ path, e.1.opened = some path → store.Encloses path := by
  cases store with
  | inMemory store => exact nofun
  | filesystem store =>
      rw [handle, always_bind, always_attempt]
      refine (store.get_opens key).mono ?_
      intro t x ht
      rw [onEnd_ok, always_ret, List.append_nil]
      exact ht

/-- Without an I/O failure, a store answers a key it could have issued with what it holds. -/
theorem handle_get (h : store.couldIssue key = true) :
    (store.handle (.get key)).Always NoIoFailure fun t y ↦ ∃ found,
      y = .ok ((.ok found : Except Failure (Option Bytes)), store) ∧
        ∀ content, found = some content → store.Held t key content := by
  cases store with
  | inMemory store => exact ⟨store.get key, rfl, fun content hfound ↦ hfound⟩
  | filesystem store =>
      rw [handle, always_bind, always_attempt]
      refine (store.get_safe h).mono ?_
      rintro t x ⟨found, rfl, hheld⟩
      rw [onEnd_ok, always_ret, List.append_nil]
      exact ⟨found, rfl, hheld⟩

end ShippedStore

/-- What a delegate may do: return, or raise `FatalError`. -/
def OnlyFatal {Payload : Type} (delegate : Codec Payload) : Prop :=
  ∀ body contentType raised, delegate.decode body contentType = .error raised → raised.isFatal = true

/-- The bytes of the delegate's that a body carries, given what the store handed over in `t`. -/
inductive Carries (store : ShippedStore) (t : List (Event Host)) : Bytes → Bytes → Prop
  | bare {body : Bytes} : isFramed body = false → Carries store t body body
  | inline (rest : Bytes) : Carries store t (frame inline rest) rest
  | held (key : String) (content : Bytes) : store.Held t key content →
      Carries store t (frame checked (encodeUtf8 key)) content

/-- A body is read as codecs promise it: whatever the delegate, decoding gives its value
or raises `FatalError`, the two questions about the body raise nothing, and no file is
opened but of the store's own. -/
structure ReadAsContracted (undecodable : Bytes → String) (store : ShippedStore) (body : Bytes) :
    Prop where
  decoded : ∀ (Payload : Type) (codec : ClaimCheckCodec Payload), OnlyFatal codec.delegate →
    ∀ (contentType : Option String) (t : List (Event Host)) (y : Except Failure (Payload × ShippedStore)),
      Runs NoIoFailure ((decode undecodable codec body contentType).through ShippedStore.handle store) t y →
        onEnd y (fun r ↦ ∃ content, Carries store t body content ∧
          codec.delegate.decode content contentType = .ok r.1) fun raised ↦ raised.isFatal = true
  keyRead : ∃ key, claimKeyOf undecodable body = .ok key
  asked : ∃ answer, isClaimCheck undecodable body = .ok answer
  enclosed : ∀ (Payload : Type) (codec : ClaimCheckCodec Payload) (contentType : Option String)
    (t : List (Event Host)) (y : Except Failure (Payload × ShippedStore)),
      Runs (Anything Host) ((decode undecodable codec body contentType).through ShippedStore.handle store) t y →
        ∀ e ∈ t, ∀ path, e.1.opened = some path → store.Encloses path

/-- A body that, if it is a claim check, names a key its store could have issued. -/
def NamesIssuable (store : ShippedStore) (body : Bytes) : Prop :=
  ∀ rest, body = frame checked rest → ∃ key, decodeUtf8 rest = some key ∧ store.couldIssue key = true

section contract

variable {undecodable : Bytes → String} {store : ShippedStore} {body : Bytes}

/-- Decoding asks the store for one key at most, and the store opens its own files only. -/
theorem decode_encloses {Payload : Type} (codec : ClaimCheckCodec Payload) (contentType : Option String) :
    ((decode undecodable codec body contentType).through ShippedStore.handle store).Always (Anything Host)
      fun t _ ↦ ∀ e ∈ t, ∀ path, e.1.opened = some path → store.Encloses path := by
  rw [always_iff_runs]
  intro t y hrun
  obtain ⟨u, x, s', hruns, hbehind, -⟩ := hrun.of_through (ShippedStore.handle_answers _)
  have redeemed {key : String} {answer : Except Failure (Option Bytes)}
      (hbehind : Behind (I := Store) ShippedStore.handle (Anything Host) store [⟨.get key, answer⟩] t s') :
      ∀ e ∈ t, ∀ path, e.1.opened = some path → store.Encloses path := by
    obtain ⟨v, w, between, rfl, hget, rfl, rfl⟩ := hbehind
    rw [List.append_nil]
    exact always_iff_runs.mp (store.handle_get_opens key) v _ hget
  cases always_iff_runs.mp (decode_decoding undecodable codec body contentType) u x hruns with
  | bare _ => exact hbehind.1 ▸ nofun
  | inline _ _ => exact hbehind.1 ▸ nofun
  | undecodable _ _ _ => exact hbehind.1 ▸ nofun
  | failed key _ _ => exact redeemed hbehind
  | absent key _ _ => exact redeemed hbehind
  | held key _ _ => exact redeemed hbehind

theorem onEnd_delegate {Payload : Type} {delegate : Codec Payload} (h : OnlyFatal delegate)
    {t : List (Event Host)} {content : Bytes} (hcarries : Carries store t body content)
    (contentType : Option String) (s : ShippedStore) :
    onEnd ((delegate.decode content contentType).map fun a ↦ (a, s)) (fun r ↦ ∃ content,
      Carries store t body content ∧ delegate.decode content contentType = .ok r.1)
      fun raised ↦ raised.isFatal = true := by
  cases hdecode : delegate.decode content contentType with
  | error raised => exact h _ _ _ hdecode
  | ok value => exact ⟨content, hcarries, hdecode⟩

/-- A body that names a key its store could have issued is the delegate's to refuse. -/
theorem decode_contracted (h : NamesIssuable store body) {Payload : Type} (codec : ClaimCheckCodec Payload)
    (hdelegate : OnlyFatal codec.delegate) (contentType : Option String) :
    ((decode undecodable codec body contentType).through ShippedStore.handle store).Always NoIoFailure
      fun t y ↦ onEnd y (fun r ↦ ∃ content, Carries store t body content ∧
        codec.delegate.decode content contentType = .ok r.1) fun raised ↦ raised.isFatal = true := by
  rw [always_iff_runs]
  intro t y hrun
  obtain ⟨u, x, s', hruns, hbehind, rfl⟩ := hrun.of_through (ShippedStore.handle_answers _)
  have redeemed {key : String} {answer : Except Failure (Option Bytes)}
      (hbody : body = frame checked (encodeUtf8 key))
      (hbehind : Behind (I := Store) ShippedStore.handle NoIoFailure store [⟨.get key, answer⟩] t s') :
      ∃ found, answer = .ok found ∧ ∀ content, found = some content → store.Held t key content := by
    obtain ⟨key', hkey, hissue⟩ := h _ hbody
    obtain rfl := Option.some.inj ((decodeUtf8_encodeUtf8 key).symm.trans hkey)
    obtain ⟨v, w, between, rfl, hget, rfl, rfl⟩ := hbehind
    obtain ⟨found, hfound, hheld⟩ := always_iff_runs.mp (ShippedStore.handle_get hissue) v _ hget
    rw [List.append_nil]
    exact ⟨found, (Prod.mk.inj (Except.ok.inj hfound)).1, hheld⟩
  cases always_iff_runs.mp (decode_decoding undecodable codec body contentType) u x hruns with
  | bare hbare => exact onEnd_delegate hdelegate (.bare hbare) contentType s'
  | inline rest hbody =>
      subst hbody
      exact onEnd_delegate hdelegate (.inline rest) contentType s'
  | undecodable rest hbody hnone =>
      obtain ⟨key, hkey, -⟩ := h rest hbody
      rw [hnone] at hkey
      cases hkey
  | failed key raised hbody =>
      obtain ⟨found, hfound, -⟩ := redeemed hbody hbehind
      cases hfound
  | absent key text hbody => rfl
  | held key content hbody =>
      obtain ⟨found, hfound, hheld⟩ := redeemed hbody hbehind
      obtain rfl := Except.ok.inj hfound
      subst hbody
      exact onEnd_delegate hdelegate (.held key content (hheld content rfl)) contentType s'

theorem claimKeyOf_undecodable {rest : Bytes} (h : decodeUtf8 rest = none) :
    claimKeyOf undecodable (frame checked rest) = .error (unicodeDecodeError (undecodable rest)) := by
  simp [claimKeyOf, h]

/-- The key of a claim check can be read off its body exactly when it is UTF-8. -/
theorem claimKeyOf_ok_iff : (∃ key, claimKeyOf undecodable body = .ok key) ↔
    ∀ rest, body = frame checked rest → ∃ key, decodeUtf8 rest = some key := by
  constructor
  · rintro ⟨found, hfound⟩ rest rfl
    cases hkey : decodeUtf8 rest with
    | some key => exact ⟨key, rfl⟩
    | none =>
        rw [claimKeyOf_undecodable hkey] at hfound
        cases hfound
  · intro h
    by_cases hframed : isFramed body = true
    · obtain ⟨kind, rfl | rfl, hbody⟩ := frame_drop hframed
      · rw [hbody]
        exact ⟨none, claimKeyOf_inline _⟩
      · obtain ⟨key, hkey⟩ := h _ hbody
        rw [hbody, decodeUtf8_eq_some_iff.mp hkey]
        exact ⟨some key, claimKeyOf_checked key⟩
    · exact ⟨none, by simp [claimKeyOf, hframed]⟩

/-- A key the directory cannot have issued is refused with an exception that is not fatal. -/
theorem decode_notIssued {Payload : Type} (codec : ClaimCheckCodec Payload) (contentType : Option String)
    {key : String} (h : store.couldIssue key = false) :
    (decode undecodable codec (frame checked (encodeUtf8 key)) contentType).through
      ShippedStore.handle store = raise (FilesystemClaimCheckStore.notIssued key) := by
  cases store with
  | inMemory store => cases h
  | filesystem store =>
      rw [decode, if_neg (by simp)]
      simp only [frame_two, drop_frame, decodeUtf8_encodeUtf8, Option.some.injEq, inline_ne_checked.symm,
        if_false, call, ask_bind, through, ShippedStore.handle, store.get_unsafe h, attempt, ret_bind, id,
        raise_bind]

/-- A body is read as codecs promise it, unless it is a claim check whose key is not UTF-8
or, over a directory, is no key of that directory's. -/
theorem readAsContracted_iff (undecodable : Bytes → String) (store : ShippedStore) (body : Bytes) :
    ReadAsContracted undecodable store body ↔ NamesIssuable store body := by
  constructor
  · intro hcontract rest hbody
    obtain ⟨key, hkey⟩ := claimKeyOf_ok_iff.mp hcontract.keyRead rest hbody
    refine ⟨key, hkey, ?_⟩
    by_contra hissue
    rw [decodeUtf8_eq_some_iff.mp hkey] at hbody
    have hread := hcontract.decoded Bytes ⟨bytesCodec, 0⟩ nofun none []
      (.error (FilesystemClaimCheckStore.notIssued key))
    rw [hbody, decode_notIssued _ _ (by simpa using hissue)] at hread
    cases hread (.raise _)
  · intro hnames
    have hkey : ∃ key, claimKeyOf undecodable body = .ok key := claimKeyOf_ok_iff.mpr fun rest hbody ↦
      let ⟨key, hkey, _⟩ := hnames rest hbody
      ⟨key, hkey⟩
    refine ⟨?_, hkey, ?_, ?_⟩
    · intro Payload codec hdelegate contentType
      exact always_iff_runs.mp (decode_contracted hnames codec hdelegate contentType)
    · obtain ⟨key, hkey⟩ := hkey
      exact ⟨key.isSome, by rw [isClaimCheck, hkey]; rfl⟩
    · intro Payload codec contentType
      exact always_iff_runs.mp (decode_encloses codec contentType)

/-- The body `AC 01 01 FF` over an empty dictionary, and the key `../../etc/passwd` over a
directory: the one raises `UnicodeDecodeError` and the other `AceMQError`. -/
theorem readAsContracted_fails : ¬ReadAsContracted (fun _ ↦ "") (.inMemory ⟨∅⟩) [0xAC, 0x01, 0x01, 0xFF] ∧
    ¬ReadAsContracted (fun _ ↦ "") (.filesystem ⟨⟨"/", ["mnt", "payloads"]⟩⟩)
      (frame checked (encodeUtf8 "../../etc/passwd")) := by
  constructor
  · intro hcontract
    obtain ⟨key, hkey⟩ := hcontract.keyRead
    rw [show ([0xAC, 0x01, 0x01, 0xFF] : Bytes) = frame checked [0xFF] from rfl,
      claimKeyOf_undecodable (by decide)] at hkey
    cases hkey
  · intro hcontract
    have hread := hcontract.decoded Bytes ⟨bytesCodec, 0⟩ nofun none []
      (.error (FilesystemClaimCheckStore.notIssued "../../etc/passwd"))
    rw [decode_notIssued _ _ (by decide)] at hread
    cases hread (.raise _)

end contract

end ClaimCheck

end AcemqAmqp
