import AcemqAmqp.Core.Schedule
import AcemqAmqp.Core.Transport
import AcemqAmqp.Topology.Broker

/-!
# Describing what a service needs of a broker

`Topology` with the two builders that add to it, what `validate` refuses, and
the declarations `apply` makes, in their order.
-/

namespace AcemqAmqp

open Binary64

/-! ## Arguments -/

def deadLetterExchangeArg : String := "x-dead-letter-exchange"
def deadLetterRoutingKeyArg : String := "x-dead-letter-routing-key"
def messageTtlArg : String := "x-message-ttl"
def queueTypeArg : String := "x-queue-type"
def quorumQueueType : String := "quorum"

def retryExchange : String := "acemq.retry"
def deadLetterExchange : String := "acemq.dlx"

/-- `_MANAGED_EXCHANGE`. -/
def managedExchangeSpec : ExchangeSpec := ⟨"direct", true, false, ∅⟩

/-- `int(delay.total_seconds() * 1000)`. -/
def timeToLive (delay : Duration) : ℤ := truncate (binary64 (binary64 (delay / 1000000) * 1000))

/-- `rung_args`. -/
def rungArgs (source : String) (delay : Duration) : Dict String Value :=
  .ofList [(messageTtlArg, .int (timeToLive delay)), (deadLetterExchangeArg, .text retryExchange),
    (deadLetterRoutingKeyArg, .text source)]

structure Topology where
  exchanges : List (String × ExchangeSpec)
  queues : List (String × QueueSpec)
  bindings : List Binding

namespace Topology

def empty : Topology := ⟨[], [], []⟩

/-- `exchange`. -/
def exchange (t : Topology) (name kind : String) (durable autoDelete : Bool)
    (args : Dict String Value) : Except Failure Topology :=
  if name = "" then .error (valueError "acemq: an exchange needs a name")
  else if kind = "" then .error <| valueError <|
    "acemq: exchange " ++ reprText name ++ " needs a kind (direct, topic, fanout)"
  else .ok { t with exchanges := t.exchanges ++ [(name, ⟨kind, durable, autoDelete, args⟩)] }

/-- `binding`. -/
def binding (t : Topology) (queue exchange routingKey : String) : Topology :=
  { t with bindings := t.bindings ++ [⟨queue, exchange, routingKey⟩] }

/-- `_managed_exchange`: one that is already named keeps its settings. -/
def managedExchange (t : Topology) (name : String) : Topology :=
  if t.exchanges.any (·.1 = name) then t
  else { t with exchanges := t.exchanges ++ [(name, managedExchangeSpec)] }

/-! ## Queues -/

/-- The keyword arguments of `queue`, with their defaults. -/
structure QueueOptions where
  durable : Bool := true
  autoDelete : Bool := false
  exclusive : Bool := false
  quorum : Option Bool := none
  deadLetter : Bool := false
  retry : Option RetryPolicy := none
  args : Dict String Value := ∅

def reprBool (b : Bool) : String := if b then "True" else "False"

/-- `_queue_type`: what to declare a queue as, or nothing for a classic one. -/
def queueType (name : String) (o : QueueOptions) : Except Failure (Option String) :=
  let written := match o.args.get? queueTypeArg with
    | some .null => none
    | value => value
  let perConnection := o.exclusive || o.autoDelete || !o.durable
  match written, o.quorum with
  | some value, some quorum => .error <| valueError <|
      "acemq: queue " ++ reprText name ++ " sets " ++ queueTypeArg ++ "=" ++ value.repr ++
        " and also passes quorum=" ++ reprBool quorum ++ "; pick one"
  | some value, none => .ok (some value.str)
  | none, none => .ok (if perConnection then none else some quorumQueueType)
  | none, some false => .ok none
  | none, some true =>
      if perConnection then
        let refused := (if o.exclusive then ["exclusive"] else []) ++
          (if o.autoDelete then ["auto_delete"] else []) ++
          (if o.durable then [] else ["durable=False"])
        .error <| valueError <| "acemq: queue " ++ reprText name ++ " asks for quorum=True and also " ++
          ", ".intercalate refused ++ "; a quorum queue belongs to the broker rather than to a " ++
          "connection, so it can be none of those"
      else .ok (some quorumQueueType)

/-- The arguments a queue is declared with, or why it cannot be. -/
def queueArguments (name : String) (o : QueueOptions) : Except Failure (Dict String Value) := do
  if name = "" then throw (valueError "acemq: a queue needs a name")
  let kind ← queueType name o
  let arguments := match kind with
    | some k => o.args.set queueTypeArg (.text k)
    | none => o.args
  if o.deadLetter then
    let conflicting := [deadLetterExchangeArg, deadLetterRoutingKeyArg].filter (· ∈ arguments)
    if conflicting ≠ [] then
      throw <| valueError <| "acemq: queue " ++ reprText name ++
        " asks for dead_letter=True and also sets " ++ ", ".intercalate conflicting ++ "; pick one"
    return (arguments.set deadLetterExchangeArg (.text deadLetterExchange)).set
      deadLetterRoutingKeyArg (.text (deadLetterQueue name))
  else return arguments

/-- The queues that catch what a queue cannot handle, each bound on its own name. -/
def wireDeadLetters (t : Topology) (name : String) (durable : Bool) : Topology :=
  let t := t.managedExchange deadLetterExchange
  let targets := [deadLetterQueue name, parkedQueue name]
  { t with
    queues := t.queues ++ targets.map fun target ↦ (target, ⟨durable, false, false, ∅⟩)
    bindings := t.bindings ++ targets.map fun target ↦ ⟨target, deadLetterExchange, target⟩ }

/-- One queue for each rung, and the binding that brings a message home. -/
def wireRungs (t : Topology) (name : String) (durable : Bool) (rungs : List Duration) : Topology :=
  let t := t.managedExchange retryExchange
  { t with
    queues := t.queues ++ rungs.map fun rung ↦
      (retryQueue name rung, ⟨durable, false, false, rungArgs name rung⟩)
    bindings := t.bindings ++ [⟨name, retryExchange, name⟩] }

/-- `queue`.  The schedule is computed last, when the rest has been added. -/
def queue (t : Topology) (name : String) (o : QueueOptions) : Except Failure Unit × Topology :=
  match queueArguments name o with
  | .error e => (.error e, t)
  | .ok arguments =>
      let t := { t with
        queues := t.queues ++ [(name, ⟨o.durable, o.autoDelete, o.exclusive, arguments⟩)] }
      let t := if o.deadLetter then t.wireDeadLetters name o.durable else t
      match o.retry with
      | none => (.ok (), t)
      | some policy =>
          match policy.brokerRungs with
          | .error e => (.error e, t)
          | .ok rungs => (.ok (), if rungs = [] then t else t.wireRungs name o.durable rungs)

/-! ## Validating and applying -/

/-- The first name that was there before. -/
def repeated (seen : List String) : List String → Option String
  | [] => none
  | name :: rest => if name ∈ seen then some name else repeated (name :: seen) rest

/-- What is wrong with a binding. -/
def bindingFault (t : Topology) (b : Binding) : Option String :=
  let named := "acemq: binding " ++ b.exchange ++ " -> " ++ b.queue ++ " (" ++ b.routingKey ++ ")"
  if b.queue ∉ t.queues.map Prod.fst then
    some (named ++ " names queue " ++ reprText b.queue ++ ", which this topology does not declare")
  else if b.exchange = "" then
    some (named ++ " names the default exchange, which cannot be bound to")
  else if b.exchange ∉ t.exchanges.map Prod.fst then
    some (named ++ " names exchange " ++ reprText b.exchange ++
      ", which this topology does not declare")
  else none

/-- `validate`. -/
def validate (t : Topology) : Except Failure Unit :=
  match repeated [] (t.queues.map Prod.fst) with
  | some name => .error (valueError ("acemq: the topology declares queue " ++ reprText name ++ " twice"))
  | none =>
      match repeated [] (t.exchanges.map Prod.fst) with
      | some name =>
          .error (valueError ("acemq: the topology declares exchange " ++ reprText name ++ " twice"))
      | none =>
          match t.bindings.findSome? t.bindingFault with
          | some fault => .error (valueError fault)
          | none => .ok ()

/-- `apply`: exchanges, then queues, then the bindings between them. -/
def apply (t : Topology) : Except Failure (List Declaration) := do
  t.validate
  return t.exchanges.map (fun e ↦ .exchange e.1 e.2) ++ t.queues.map (fun q ↦ .queue q.1 q.2) ++
    t.bindings.map .bind

theorem repeated_eq_none_iff {seen names : List String} :
    repeated seen names = none ↔ names.Nodup ∧ ∀ name ∈ names, name ∉ seen := by
  induction names generalizing seen with
  | nil => simp [repeated]
  | cons name rest ih =>
      by_cases hname : name ∈ seen
      · simp [repeated, hname]
      · rw [repeated, if_neg hname, ih, List.nodup_cons, List.forall_mem_cons]
        simp only [List.mem_cons, not_or]
        constructor
        · rintro ⟨hrest, hseen⟩
          exact ⟨⟨fun hmem ↦ (hseen name hmem).1 rfl, hrest⟩, hname, fun n hn ↦ (hseen n hn).2⟩
        · rintro ⟨⟨hnot, hrest⟩, -, hseen⟩
          exact ⟨hrest, fun n hn ↦ ⟨fun heq ↦ hnot (heq ▸ hn), hseen n hn⟩⟩

/-- A topology that says everything once, and binds only what it declares. -/
structure Sound (t : Topology) : Prop where
  queues : (t.queues.map Prod.fst).Nodup
  exchanges : (t.exchanges.map Prod.fst).Nodup
  bindings : ∀ b ∈ t.bindings, b.queue ∈ t.queues.map Prod.fst ∧ b.exchange ≠ "" ∧
    b.exchange ∈ t.exchanges.map Prod.fst

theorem bindingFault_eq_none_iff {t : Topology} {b : Binding} : t.bindingFault b = none ↔
    b.queue ∈ t.queues.map Prod.fst ∧ b.exchange ≠ "" ∧ b.exchange ∈ t.exchanges.map Prod.fst := by
  unfold bindingFault
  split_ifs <;> simp_all

theorem validate_ok_iff {t : Topology} : t.validate = .ok () ↔ t.Sound := by
  have hbindings : t.bindings.findSome? t.bindingFault = none ↔ ∀ b ∈ t.bindings,
      b.queue ∈ t.queues.map Prod.fst ∧ b.exchange ≠ "" ∧ b.exchange ∈ t.exchanges.map Prod.fst := by
    rw [List.findSome?_eq_none_iff]
    exact forall₂_congr fun b _ ↦ bindingFault_eq_none_iff
  unfold validate
  constructor
  · intro h
    split at h
    · cases h
    · rename_i hqueues
      split at h
      · cases h
      · rename_i hexchanges
        split at h
        · cases h
        · rename_i hnone
          exact ⟨(repeated_eq_none_iff.mp hqueues).1, (repeated_eq_none_iff.mp hexchanges).1,
            hbindings.mp hnone⟩
  · rintro ⟨hqueues, hexchanges, hall⟩
    rw [repeated_eq_none_iff.mpr ⟨hqueues, fun _ _ ↦ List.not_mem_nil⟩,
      repeated_eq_none_iff.mpr ⟨hexchanges, fun _ _ ↦ List.not_mem_nil⟩, hbindings.mpr hall]

end Topology

end AcemqAmqp
