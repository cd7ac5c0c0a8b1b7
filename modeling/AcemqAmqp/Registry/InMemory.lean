import AcemqAmqp.Core.Failure
import AcemqAmqp.Foundations.Dict
import AcemqAmqp.Foundations.Ledger

/-!
# The schema registry of one process

A registry is a ledger of the definitions of each subject, told apart by their
fingerprints: the identifier of a schema counts all of them, its version those of
its subject.
-/

namespace AcemqAmqp

namespace Registry

structure SchemaDefinition where
  id : ℕ
  subject : String
  version : ℕ
  format : String
  definition : String
  fingerprint : String
  registeredAt : Instant
  deriving DecidableEq

/-- What `register` is called with. -/
structure Registration where
  subject : String
  format : String
  definition : String
  deriving DecidableEq

/-- `register` takes it. -/
def Registration.Sound (r : Registration) : Prop := r.subject ≠ "" ∧ r.definition ≠ ""

instance (r : Registration) : Decidable r.Sound := inferInstanceAs (Decidable (_ ∧ _))

def Registration.key (fingerprint : String → String) (r : Registration) : String × String :=
  (r.subject, fingerprint r.definition)

def nothingToRegister : Failure := valueError "acemq: a schema needs a subject and a definition"

structure InMemorySchemaRegistry where
  byId : Dict ℕ SchemaDefinition
  bySubject : Dict String (List SchemaDefinition)
  byFingerprint : Dict (String × String) SchemaDefinition
  nextId : ℕ

namespace InMemorySchemaRegistry

def empty : InMemorySchemaRegistry := ⟨∅, ∅, ∅, 1⟩

def versions (m : InMemorySchemaRegistry) (subject : String) : List SchemaDefinition :=
  (m.bySubject.get? subject).getD []

/-- A schema is put into every dictionary. -/
def keep (m : InMemorySchemaRegistry) (schema : SchemaDefinition) : InMemorySchemaRegistry where
  byId := m.byId.set schema.id schema
  bySubject := m.bySubject.set schema.subject (m.versions schema.subject ++ [schema])
  byFingerprint := m.byFingerprint.set (schema.subject, schema.fingerprint) schema
  nextId := m.nextId + 1

variable (fingerprint : String → String)

/-- `register`, at the instant `now`. -/
def register (m : InMemorySchemaRegistry) (r : Registration) (now : Instant) :
    Except Failure SchemaDefinition × InMemorySchemaRegistry :=
  if r.Sound then
    let printOf := fingerprint r.definition
    match m.byFingerprint.get? (r.subject, printOf) with
    | some already => (.ok already, m)
    | none =>
        let schema : SchemaDefinition :=
          { id := m.nextId
            subject := r.subject
            version := (m.versions r.subject).length + 1
            format := r.format
            definition := r.definition
            fingerprint := printOf
            registeredAt := now }
        (.ok schema, m.keep schema)
  else (.error nothingToRegister, m)

/-- What calls that come one after the other return. -/
def answers (m : InMemorySchemaRegistry) : List (Registration × Instant) → List (Except Failure SchemaDefinition)
  | [] => []
  | (r, now) :: rest => (m.register fingerprint r now).1 :: (m.register fingerprint r now).2.answers rest

/-- The registry keeps the ledger `l`. -/
structure Agrees (m : InMemorySchemaRegistry) (l : Ledger (String × String)) : Prop where
  next : m.nextId = l.entries.length + 1
  mem : ∀ key, key ∈ m.byFingerprint ↔ key ∈ l.entries
  numbers : ∀ key schema, m.byFingerprint.get? key = some schema →
    schema.id = l.identifier key ∧ schema.version = l.version Prod.fst key
  sizes : ∀ subject, (m.versions subject).length = l.size Prod.fst subject

theorem agrees_empty : Agrees empty Ledger.empty where
  next := rfl
  mem key := by simp [empty, Ledger.empty, Dict.mem_iff_get?]
  numbers key schema h := by simp [empty] at h
  sizes subject := by simp [empty, versions, Ledger.empty, Ledger.size]

variable {m : InMemorySchemaRegistry} {l : Ledger (String × String)} {r : Registration}

theorem versions_keep (schema : SchemaDefinition) (subject : String) : (m.keep schema).versions subject =
    if subject = schema.subject then m.versions subject ++ [schema] else m.versions subject := by
  unfold keep versions
  rw [Dict.get?_set]
  split
  · rename_i hsame
    rw [hsame]
    rfl
  · rfl

theorem Agrees.keep {schema : SchemaDefinition} (h : Agrees m l)
    (hnew : (schema.subject, schema.fingerprint) ∉ l.entries) (hid : schema.id = m.nextId)
    (hversion : schema.version = (m.versions schema.subject).length + 1) :
    Agrees (m.keep schema) (l.enter (schema.subject, schema.fingerprint)) where
  next := by
    rw [Ledger.entries_enter hnew, List.length_append, List.length_singleton, ← h.next]
    rfl
  mem key := by
    rw [Ledger.mem_enter, ← h.mem key, or_comm]
    exact Dict.mem_set
  numbers key known hknown := by
    have hget : (if key = (schema.subject, schema.fingerprint) then some schema else m.byFingerprint.get? key) =
        some known := Dict.get?_set.symm.trans hknown
    split at hget
    · rename_i hkey
      obtain rfl := Option.some.inj hget
      rw [hkey, Ledger.identifier_enter_self hnew, Ledger.version_enter_self hnew, hid, h.next, hversion, h.sizes]
      exact ⟨rfl, rfl⟩
    · have hmem := (h.mem key).mp (Dict.mem_iff_get?.mpr ⟨known, hget⟩)
      rw [Ledger.identifier_enter_of_mem hmem, Ledger.version_enter_of_mem hmem]
      exact h.numbers key known hget
  sizes subject := by
    rw [versions_keep, Ledger.size_enter hnew, ← h.sizes subject]
    by_cases hsubject : subject = schema.subject
    · simp [hsubject]
    · simp [hsubject, Ne.symm hsubject]

/-- Registering enters the schema into the ledger, and answers with its numbers. -/
theorem Agrees.register (h : Agrees m l) (hsound : r.Sound) (now : Instant) :
    Agrees (m.register fingerprint r now).2 (l.enter (r.key fingerprint)) ∧
    ∃ schema, (m.register fingerprint r now).1 = .ok schema ∧
      schema.id = (l.enter (r.key fingerprint)).identifier (r.key fingerprint) ∧
      schema.version = (l.enter (r.key fingerprint)).version Prod.fst (r.key fingerprint) := by
  rw [InMemorySchemaRegistry.register, if_pos hsound]
  dsimp only
  split
  · rename_i already hknown
    have hmem := (h.mem (r.key fingerprint)).mp (Dict.mem_iff_get?.mpr ⟨already, hknown⟩)
    rw [Ledger.enter_of_mem hmem]
    exact ⟨h, already, rfl, h.numbers _ _ hknown⟩
  · rename_i hknown
    have hnew : r.key fingerprint ∉ l.entries := fun hmem ↦
      Dict.get?_eq_none_iff.mp hknown ((h.mem _).mpr hmem)
    refine ⟨h.keep hnew rfl rfl, _, rfl, ?_, ?_⟩
    · exact h.next.trans (Ledger.identifier_enter_self hnew).symm
    · exact (congrArg (· + 1) (h.sizes r.subject)).trans (Ledger.version_enter_self hnew).symm

/-- Calls that come one after the other are answered with the numbers of the ledger they make. -/
theorem Agrees.answers {calls : List (Registration × Instant)} (h : Agrees m l)
    (hsound : ∀ call ∈ calls, call.1.Sound) :
    List.Forall₂ (fun call answer ↦ ∃ schema, answer = .ok schema ∧
        schema.id = (l.enterAll (calls.map fun c ↦ c.1.key fingerprint)).identifier (call.1.key fingerprint) ∧
        schema.version =
          (l.enterAll (calls.map fun c ↦ c.1.key fingerprint)).version Prod.fst (call.1.key fingerprint))
      calls (m.answers fingerprint calls) := by
  induction calls generalizing m l with
  | nil => exact .nil
  | cons call calls ih =>
      obtain ⟨hfirst, hrest⟩ := List.forall_mem_cons.mp hsound
      obtain ⟨hagrees, schema, hanswer, hid, hversion⟩ := h.register fingerprint hfirst call.2
      have hmem : call.1.key fingerprint ∈ (l.enter (call.1.key fingerprint)).entries :=
        Ledger.mem_enter.mpr (.inr rfl)
      refine .cons ⟨schema, hanswer, ?_, ?_⟩ (ih hagrees hrest)
      · exact hid.trans (Ledger.identifier_enterAll hmem).symm
      · exact hversion.trans (Ledger.version_enterAll hmem).symm

end InMemorySchemaRegistry

end Registry

end AcemqAmqp
