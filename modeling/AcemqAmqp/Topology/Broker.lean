import AcemqAmqp.Foundations.Dict
import AcemqAmqp.Wire.Value

/-!
# What a broker has been told

Exchanges, queues and bindings are declared by name.  Declaring a name again
changes nothing when the settings are the same, and is refused with
`PRECONDITION_FAILED` when they are not.
-/

namespace AcemqAmqp

structure ExchangeSpec where
  kind : String
  durable : Bool
  autoDelete : Bool
  args : Dict String Value

structure QueueSpec where
  durable : Bool
  autoDelete : Bool
  exclusive : Bool
  args : Dict String Value

/-- Messages matching a routing key going from an exchange to a queue. -/
structure Binding where
  queue : String
  exchange : String
  routingKey : String
  deriving DecidableEq

/-- `declare_exchange`, `declare_queue` and `bind`. -/
inductive Declaration
  | exchange (name : String) (spec : ExchangeSpec)
  | queue (name : String) (spec : QueueSpec)
  | bind (binding : Binding)

def Declaration.exchange? : Declaration → Option (String × ExchangeSpec)
  | .exchange name spec => some (name, spec)
  | _ => none

def Declaration.queue? : Declaration → Option (String × QueueSpec)
  | .queue name spec => some (name, spec)
  | _ => none

def Declaration.binding? : Declaration → Option Binding
  | .bind binding => some binding
  | _ => none

structure Broker where
  exchanges : Dict String ExchangeSpec
  queues : Dict String QueueSpec
  bindings : List Binding

namespace Broker

def empty : Broker := ⟨∅, ∅, []⟩

/-- What the broker has afterwards.  A name that is taken keeps its settings. -/
def declare (b : Broker) : Declaration → Broker
  | .exchange name spec => { b with exchanges := b.exchanges.setDefault name spec }
  | .queue name spec => { b with queues := b.queues.setDefault name spec }
  | .bind binding =>
      { b with bindings := if binding ∈ b.bindings then b.bindings else b.bindings ++ [binding] }

/-- `PRECONDITION_FAILED`: the name is taken, with other settings. -/
def Refuses (b : Broker) : Declaration → Prop
  | .exchange name spec => ∃ taken, b.exchanges.get? name = some taken ∧ taken ≠ spec
  | .queue name spec => ∃ taken, b.queues.get? name = some taken ∧ taken ≠ spec
  | .bind _ => False

/-- Some queue gets a message: the queue it names, on the default exchange, or
one that is bound on its routing key to a direct one. -/
def Routes (b : Broker) (exchange routingKey : String) : Prop :=
  if exchange = "" then routingKey ∈ b.queues
  else ∃ binding ∈ b.bindings, binding.exchange = exchange ∧ binding.routingKey = routingKey

instance (b : Broker) (exchange routingKey : String) : Decidable (b.Routes exchange routingKey) :=
  inferInstanceAs (Decidable (if exchange = "" then routingKey ∈ b.queues
    else ∃ binding ∈ b.bindings, binding.exchange = exchange ∧ binding.routingKey = routingKey))

/-- Every declaration goes through, one after the other. -/
def Accepts : Broker → List Declaration → Prop
  | _, [] => True
  | b, d :: rest => ¬b.Refuses d ∧ (b.declare d).Accepts rest

/-- Any two declarations of one name are the same declaration. -/
structure Consistent (ds : List Declaration) : Prop where
  exchanges : ∀ name spec spec', .exchange name spec ∈ ds → .exchange name spec' ∈ ds → spec = spec'
  queues : ∀ name spec spec', .queue name spec ∈ ds → .queue name spec' ∈ ds → spec = spec'

variable {b : Broker} {ds : List Declaration}

/-- Declarations taken from lists that name nothing twice are consistent. -/
theorem consistent_of_nodup {exchanges : List (String × ExchangeSpec)}
    {queues : List (String × QueueSpec)} (hexchanges : (exchanges.map Prod.fst).Nodup)
    (hqueues : (queues.map Prod.fst).Nodup)
    (hfrom : ds.filterMap Declaration.exchange? ⊆ exchanges)
    (hfrom' : ds.filterMap Declaration.queue? ⊆ queues) : Consistent ds := by
  constructor
  case exchanges =>
    intro name spec spec' h h'
    have hmem : (name, spec) ∈ exchanges := hfrom (List.mem_filterMap.mpr ⟨_, h, rfl⟩)
    have hmem' : (name, spec') ∈ exchanges := hfrom (List.mem_filterMap.mpr ⟨_, h', rfl⟩)
    exact congrArg Prod.snd (List.inj_on_of_nodup_map hexchanges hmem hmem' rfl)
  case queues =>
    intro name spec spec' h h'
    have hmem : (name, spec) ∈ queues := hfrom' (List.mem_filterMap.mpr ⟨_, h, rfl⟩)
    have hmem' : (name, spec') ∈ queues := hfrom' (List.mem_filterMap.mpr ⟨_, h', rfl⟩)
    exact congrArg Prod.snd (List.inj_on_of_nodup_map hqueues hmem hmem' rfl)

theorem get?_queues_foldl {name : String} : (ds.foldl declare b).queues.get? name =
    (b.queues.get? name).or ((ds.filterMap Declaration.queue?).lookup name) := by
  induction ds generalizing b with
  | nil => simp
  | cons d ds ih =>
      rw [List.foldl_cons, ih]
      cases d with
      | exchange n spec => rfl
      | bind binding => rfl
      | queue n spec =>
          simp only [declare, Dict.get?_setDefault, Declaration.queue?, List.filterMap_cons,
            List.lookup_cons]
          by_cases hn : name = n
          · subst hn
            cases b.queues.get? name <;> simp
          · have hbeq : (name == n) = false := by simpa using hn
            simp [hn, hbeq]

theorem get?_exchanges_foldl {name : String} : (ds.foldl declare b).exchanges.get? name =
    (b.exchanges.get? name).or ((ds.filterMap Declaration.exchange?).lookup name) := by
  induction ds generalizing b with
  | nil => simp
  | cons d ds ih =>
      rw [List.foldl_cons, ih]
      cases d with
      | queue n spec => rfl
      | bind binding => rfl
      | exchange n spec =>
          simp only [declare, Dict.get?_setDefault, Declaration.exchange?, List.filterMap_cons,
            List.lookup_cons]
          by_cases hn : name = n
          · subst hn
            cases b.exchanges.get? name <;> simp
          · have hbeq : (name == n) = false := by simpa using hn
            simp [hn, hbeq]

theorem mem_bindings_foldl {binding : Binding} : binding ∈ (ds.foldl declare b).bindings ↔
    binding ∈ b.bindings ∨ binding ∈ ds.filterMap Declaration.binding? := by
  induction ds generalizing b with
  | nil => simp
  | cons d ds ih =>
      rw [List.foldl_cons, ih]
      cases d with
      | exchange n spec => rfl
      | queue n spec => rfl
      | bind other =>
          simp only [declare, Declaration.binding?, List.filterMap_cons, List.mem_cons]
          split
          · constructor
            · rintro (h | h)
              · exact .inl h
              · exact .inr (.inr h)
            · rintro (h | rfl | h)
              · exact .inl h
              · exact .inl ‹_›
              · exact .inr h
          · simp [or_assoc]

/-- What a broker has is among some declarations. -/
structure Within (b : Broker) (all : List Declaration) : Prop where
  exchanges : ∀ name spec, b.exchanges.get? name = some spec → .exchange name spec ∈ all
  queues : ∀ name spec, b.queues.get? name = some spec → .queue name spec ∈ all

theorem Within.declare {all : List Declaration} (h : b.Within all) {d : Declaration} (hd : d ∈ all) :
    (b.declare d).Within all := by
  cases d with
  | bind binding => exact ⟨h.exchanges, h.queues⟩
  | exchange name spec =>
      refine ⟨fun n s hget ↦ ?_, h.queues⟩
      rw [Broker.declare, Dict.get?_setDefault] at hget
      split at hget
      · subst n
        cases htaken : b.exchanges.get? name with
        | none =>
            obtain rfl : spec = s := by simpa [htaken] using hget
            exact hd
        | some taken =>
            obtain rfl : taken = s := by simpa [htaken] using hget
            exact h.exchanges _ _ htaken
      · exact h.exchanges n s hget
  | queue name spec =>
      refine ⟨h.exchanges, fun n s hget ↦ ?_⟩
      rw [Broker.declare, Dict.get?_setDefault] at hget
      split at hget
      · subst n
        cases htaken : b.queues.get? name with
        | none =>
            obtain rfl : spec = s := by simpa [htaken] using hget
            exact hd
        | some taken =>
            obtain rfl : taken = s := by simpa [htaken] using hget
            exact h.queues _ _ htaken
      · exact h.queues n s hget

/-- Consistent declarations go through in any order, as often as they are made. -/
theorem Within.accepts {all : List Declaration} (hall : Consistent all) (hb : b.Within all)
    (hds : ∀ d ∈ ds, d ∈ all) : b.Accepts ds := by
  induction ds generalizing b with
  | nil => trivial
  | cons d ds ih =>
      rw [List.forall_mem_cons] at hds
      refine ⟨?_, ih (hb.declare hds.1) hds.2⟩
      cases d with
      | bind binding => exact not_false
      | exchange name spec =>
          rintro ⟨taken, htaken, hne⟩
          exact hne (hall.exchanges name _ _ (hb.exchanges _ _ htaken) hds.1)
      | queue name spec =>
          rintro ⟨taken, htaken, hne⟩
          exact hne (hall.queues name _ _ (hb.queues _ _ htaken) hds.1)

theorem within_empty (all : List Declaration) : empty.Within all :=
  ⟨fun _ _ h ↦ (nomatch h), fun _ _ h ↦ (nomatch h)⟩

end Broker

end AcemqAmqp
