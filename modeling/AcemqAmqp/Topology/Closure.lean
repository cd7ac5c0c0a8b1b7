import AcemqAmqp.Topology.Agreement

/-!
# The failure wiring of a topology is closed

Whatever calls a topology was built by, a dead-letter pair on one of its queues
is matched by a binding that the same topology declares, and the queues that
catch what others cannot handle pass nothing on.
-/

namespace AcemqAmqp

namespace Topology

open Fallible

/-! ## What a topology is built by -/

inductive Call
  | queue (name : String) (options : QueueOptions)
  | exchange (name kind : String) (durable autoDelete : Bool) (args : Dict String Value)

/-- The topology after a call, which may have raised. -/
def Call.on (t : Topology) : Call → Topology
  | .queue name options => (t.queue name options).2
  | .exchange name kind durable autoDelete args =>
      match t.exchange name kind durable autoDelete args with
      | .ok t => t
      | .error _ => t

/-- No dead-letter argument is written by hand, and no exchange of the library's own is named. -/
def Call.Managed : Call → Prop
  | .queue _ options => deadLetterExchangeArg ∉ options.args ∧ deadLetterRoutingKeyArg ∉ options.args
  | .exchange name _ _ _ _ => name ≠ retryExchange ∧ name ≠ deadLetterExchange

def build (calls : List Call) : Topology := calls.foldl Call.on empty

/-- It passes nothing on. -/
def Silent (spec : QueueSpec) : Prop := deadLetterExchangeArg ∉ spec.args ∧ deadLetterRoutingKeyArg ∉ spec.args

/-- What it passes on goes to the queue `target`, by a binding on a direct exchange, and
nowhere else. -/
def Leads (t : Topology) (spec : QueueSpec) (target : String) : Prop :=
  ∃ exchange key, spec.args.get? deadLetterExchangeArg = some (.text exchange) ∧
    spec.args.get? deadLetterRoutingKeyArg = some (.text key) ∧
    (∃ declared, (exchange, declared) ∈ t.exchanges ∧ declared.kind = "direct") ∧
    ⟨target, exchange, key⟩ ∈ t.bindings ∧ target ∈ t.queues.map Prod.fst ∧
    ∀ b ∈ t.bindings, b.exchange = exchange → b.routingKey = key → b.queue = target

/-! ## The invariant -/

/-- Every binding brings the messages for a declared queue to it under its own name, and every
dead-letter pair has its binding. -/
structure Wired (t : Topology) : Prop where
  bindings : ∀ b ∈ t.bindings, b.routingKey = b.queue ∧ b.queue ∈ t.queues.map Prod.fst ∧
    (b.exchange, managedExchangeSpec) ∈ t.exchanges
  queues : ∀ q ∈ t.queues, Silent q.2 ∨ ∃ exchange target,
    q.2.args.get? deadLetterExchangeArg = some (.text exchange) ∧
      q.2.args.get? deadLetterRoutingKeyArg = some (.text target) ∧ ⟨target, exchange, target⟩ ∈ t.bindings
  exchanges : ∀ e ∈ t.exchanges, e.1 = retryExchange ∨ e.1 = deadLetterExchange → e.2 = managedExchangeSpec

section wired

variable {t : Topology} {name : String}

theorem Wired.leads {spec : QueueSpec} {exchange target : String} (h : t.Wired)
    (hexchange : spec.args.get? deadLetterExchangeArg = some (.text exchange))
    (htarget : spec.args.get? deadLetterRoutingKeyArg = some (.text target))
    (hbinding : ⟨target, exchange, target⟩ ∈ t.bindings) : t.Leads spec target := by
  obtain ⟨-, hqueue, hdeclared⟩ := h.bindings _ hbinding
  refine ⟨exchange, target, hexchange, htarget, ⟨_, hdeclared, rfl⟩, hbinding, hqueue, fun b hb _ hkey ↦ ?_⟩
  rw [← (h.bindings b hb).1, hkey]

theorem wired_empty : empty.Wired := ⟨nofun, nofun, nofun⟩

theorem queues_managedExchange (t : Topology) (name : String) :
    (t.managedExchange name).queues = t.queues ∧ (t.managedExchange name).bindings = t.bindings := by
  rw [managedExchange]
  split <;> exact ⟨rfl, rfl⟩

/-- One of the library's own exchanges, as the library declares it. -/
theorem Wired.managedExchange (h : t.Wired) (hname : name = retryExchange ∨ name = deadLetterExchange) :
    (t.managedExchange name).Wired ∧ (name, managedExchangeSpec) ∈ (t.managedExchange name).exchanges := by
  rw [Topology.managedExchange]
  split
  · rename_i hany
    obtain ⟨e, he, hen⟩ := List.any_eq_true.mp hany
    have hen : e.1 = name := of_decide_eq_true hen
    have hspec := h.exchanges e he (hen ▸ hname)
    exact ⟨h, by rw [← hen, ← hspec]; exact he⟩
  · refine ⟨⟨fun b hb ↦ ?_, h.queues, fun e he hown ↦ ?_⟩, List.mem_append_right _ List.mem_cons_self⟩
    · obtain ⟨hkey, hqueue, hexchange⟩ := h.bindings b hb
      exact ⟨hkey, hqueue, List.mem_append_left _ hexchange⟩
    · rcases List.mem_append.mp he with he | he
      · exact h.exchanges e he hown
      · rw [List.mem_singleton.mp he]

/-- Queues, with the bindings that their pairs need. -/
theorem Wired.add {queues : List (String × QueueSpec)} {bindings : List Binding} (h : t.Wired)
    (hbindings : ∀ b ∈ bindings, b.routingKey = b.queue ∧ b.queue ∈ (t.queues ++ queues).map Prod.fst ∧
      (b.exchange, managedExchangeSpec) ∈ t.exchanges)
    (hqueues : ∀ q ∈ queues, Silent q.2 ∨ ∃ exchange target,
      q.2.args.get? deadLetterExchangeArg = some (.text exchange) ∧
        q.2.args.get? deadLetterRoutingKeyArg = some (.text target) ∧
        ⟨target, exchange, target⟩ ∈ t.bindings ++ bindings) :
    { t with queues := t.queues ++ queues, bindings := t.bindings ++ bindings }.Wired where
  bindings b hb := by
    rcases List.mem_append.mp hb with hb | hb
    · obtain ⟨hkey, hqueue, hexchange⟩ := h.bindings b hb
      refine ⟨hkey, ?_, hexchange⟩
      rw [List.map_append]
      exact List.mem_append_left _ hqueue
    · exact hbindings b hb
  queues q hq := by
    rcases List.mem_append.mp hq with hq | hq
    · rcases h.queues q hq with hsilent | ⟨exchange, target, hexchange, htarget, hbinding⟩
      · exact .inl hsilent
      · exact .inr ⟨exchange, target, hexchange, htarget, List.mem_append_left _ hbinding⟩
    · exact hqueues q hq
  exchanges := h.exchanges

theorem asked_or_not {α : Type} {dead conflicting : Prop} [Decidable dead] [Decidable conflicting] {failure : Failure}
    {wired base answer : α}
    (h : (if dead then if conflicting then (do throw failure; pure wired) else pure wired else pure base :
      Except Failure α) = .ok answer) : dead ∧ answer = wired ∨ ¬dead ∧ answer = base := by
  by_cases hdead : dead
  · rw [if_pos hdead] at h
    by_cases hconflicting : conflicting
    · rw [if_pos hconflicting] at h
      cases h
    · rw [if_neg hconflicting] at h
      exact .inl ⟨hdead, (Except.ok.inj h).symm⟩
  · rw [if_neg hdead] at h
    exact .inr ⟨hdead, (Except.ok.inj h).symm⟩

/-- What a queue is declared with is what was written, but for its type and its pair. -/
theorem queueArguments_ok {o : QueueOptions} {arguments : Dict String Value}
    (h : queueArguments name o = .ok arguments) : ∃ base : Dict String Value,
      (∀ arg, arg ≠ queueTypeArg → base.get? arg = o.args.get? arg) ∧
        (o.deadLetter = true ∧ arguments = (base.set deadLetterExchangeArg (.text deadLetterExchange)).set
            deadLetterRoutingKeyArg (.text (deadLetterQueue name)) ∨
          ¬o.deadLetter = true ∧ arguments = base) := by
  rw [queueArguments] at h
  split at h
  · cases h
  · obtain ⟨kind, -, h⟩ := bind_ok_iff.mp h
    cases kind with
    | none => exact ⟨o.args, fun _ _ ↦ rfl, asked_or_not h⟩
    | some k => exact ⟨o.args.set queueTypeArg (.text k), fun _ harg ↦ Dict.get?_set_ne harg, asked_or_not h⟩

/-- A queue is declared with a dead-letter pair exactly when it is asked to be. -/
theorem queueArguments_pair {o : QueueOptions} {arguments : Dict String Value}
    (h : queueArguments name o = .ok arguments)
    (hown : deadLetterExchangeArg ∉ o.args ∧ deadLetterRoutingKeyArg ∉ o.args) :
    o.deadLetter = true ∧ arguments.get? deadLetterExchangeArg = some (.text deadLetterExchange) ∧
        arguments.get? deadLetterRoutingKeyArg = some (.text (deadLetterQueue name)) ∨
      o.deadLetter = false ∧ deadLetterExchangeArg ∉ arguments ∧ deadLetterRoutingKeyArg ∉ arguments := by
  obtain ⟨base, hbase, ⟨hdead, rfl⟩ | ⟨hdead, rfl⟩⟩ := queueArguments_ok h
  · exact .inl ⟨hdead, (Dict.get?_set_ne (by decide)).trans Dict.get?_set_self, Dict.get?_set_self⟩
  · have hnot (arg : String) (harg : arg ≠ queueTypeArg) (hwritten : arg ∉ o.args) : arg ∉ arguments := by
      rw [← Dict.get?_eq_none_iff] at hwritten ⊢
      rwa [hbase arg harg]
    exact .inr ⟨by simpa using hdead, hnot _ (by decide) hown.1, hnot _ (by decide) hown.2⟩

/-- A source without dead letters. -/
theorem Wired.source (h : t.Wired) {q : String × QueueSpec} (hq : Silent q.2) :
    { t with queues := t.queues ++ [q] }.Wired := by
  have hadd := @Wired.add t [q] [] h nofun fun q' hq' ↦ .inl (List.mem_singleton.mp hq' ▸ hq)
  rwa [List.append_nil] at hadd

theorem wireDeadLetters_source (t : Topology) (q : String × QueueSpec) (name : String) (durable : Bool) :
    { t with queues := t.queues ++ [q] }.wireDeadLetters name durable =
      { t.managedExchange deadLetterExchange with
        queues := (t.managedExchange deadLetterExchange).queues ++ q ::
          [deadLetterQueue name, parkedQueue name].map fun target ↦ (target, ⟨durable, false, false, ∅⟩)
        bindings := (t.managedExchange deadLetterExchange).bindings ++
          [deadLetterQueue name, parkedQueue name].map fun target ↦ ⟨target, deadLetterExchange, target⟩ } := by
  rw [wireDeadLetters, managedExchange, managedExchange]
  split <;> simp

/-- A source with dead letters, and the two queues behind it. -/
theorem Wired.deadLetters (h : t.Wired) {q : String × QueueSpec} (durable : Bool)
    (hexchange : q.2.args.get? deadLetterExchangeArg = some (.text deadLetterExchange))
    (hkey : q.2.args.get? deadLetterRoutingKeyArg = some (.text (deadLetterQueue name))) :
    ({ t with queues := t.queues ++ [q] }.wireDeadLetters name durable).Wired := by
  obtain ⟨hwired, hdeclared⟩ := h.managedExchange (.inr rfl : deadLetterExchange = retryExchange ∨ _)
  rw [wireDeadLetters_source]
  refine hwired.add ?_ ?_
  · intro b hb
    obtain ⟨target, htarget, rfl⟩ := List.mem_map.mp hb
    refine ⟨rfl, ?_, hdeclared⟩
    rw [List.map_append]
    refine List.mem_append_right _ (List.mem_cons_of_mem _ ?_)
    exact List.mem_map.mpr ⟨_, List.mem_map_of_mem htarget, rfl⟩
  · intro q' hq'
    rcases List.mem_cons.mp hq' with rfl | hq'
    · refine .inr ⟨deadLetterExchange, deadLetterQueue name, hexchange, hkey, List.mem_append_right _ ?_⟩
      exact List.mem_cons_self
    · obtain ⟨target, -, rfl⟩ := List.mem_map.mp hq'
      exact .inl ⟨List.not_mem_nil, List.not_mem_nil⟩

theorem items_rungArgs (name : String) (rung : Duration) : (rungArgs name rung).items =
    [(messageTtlArg, .int (timeToLive rung)), (deadLetterExchangeArg, .text retryExchange),
      (deadLetterRoutingKeyArg, .text name)] := by
  have hnames : [messageTtlArg, deadLetterExchangeArg, deadLetterRoutingKeyArg].Nodup := by decide
  exact Dict.items_ofList hnames

theorem rungArgs_pair (name : String) (rung : Duration) :
    (rungArgs name rung).get? deadLetterExchangeArg = some (.text retryExchange) ∧
      (rungArgs name rung).get? deadLetterRoutingKeyArg = some (.text name) := by
  rw [← Dict.mem_items_iff, ← Dict.mem_items_iff, items_rungArgs]
  simp

/-- The rungs of a queue, and the binding that brings their messages home. -/
theorem Wired.rungs (h : t.Wired) (hname : name ∈ t.queues.map Prod.fst) (durable : Bool) (rungs : List Duration) :
    (t.wireRungs name durable rungs).Wired := by
  obtain ⟨hwired, hexchange⟩ := h.managedExchange (.inl rfl : retryExchange = retryExchange ∨ _)
  obtain ⟨hqueues, -⟩ := queues_managedExchange t retryExchange
  refine hwired.add ?_ ?_
  · intro b hb
    obtain rfl := List.mem_singleton.mp hb
    refine ⟨rfl, ?_, hexchange⟩
    rw [List.map_append, hqueues]
    exact List.mem_append_left _ hname
  · intro q hq
    obtain ⟨rung, -, rfl⟩ := List.mem_map.mp hq
    obtain ⟨hpair, hkey⟩ := rungArgs_pair name rung
    exact .inr ⟨retryExchange, name, hpair, hkey, List.mem_append_right _ List.mem_cons_self⟩

/-! ## One call -/

/-- The queue a call is about, as it is declared. -/
def source (name : String) (o : QueueOptions) (arguments : Dict String Value) : String × QueueSpec :=
  (name, ⟨o.durable, o.autoDelete, o.exclusive, arguments⟩)

/-- A topology with a source, and with the queues behind it when it is asked for them. -/
def sourced (t : Topology) (name : String) (o : QueueOptions) (arguments : Dict String Value) : Topology :=
  if o.deadLetter then
    { t with queues := t.queues ++ [source name o arguments] }.wireDeadLetters name o.durable
  else { t with queues := t.queues ++ [source name o arguments] }

theorem queue_of_arguments {o : QueueOptions} {arguments : Dict String Value}
    (h : queueArguments name o = .ok arguments) : (t.queue name o).2 =
      match longWaits o.retry with
      | .error _ => t.sourced name o arguments
      | .ok rungs => if rungs = [] then t.sourced name o arguments
          else (t.sourced name o arguments).wireRungs name o.durable rungs := by
  rw [queue, h]
  dsimp only
  cases o.retry with
  | none => rfl
  | some policy =>
      rw [longWaits]
      dsimp only
      cases policy.brokerRungs with
      | error e => rfl
      | ok rungs => rfl

theorem mem_sourced (t : Topology) (name : String) (o : QueueOptions) (arguments : Dict String Value) :
    source name o arguments ∈ (t.sourced name o arguments).queues := by
  rw [sourced]
  split
  · rw [wireDeadLetters_source]
    exact List.mem_append_right _ List.mem_cons_self
  · exact List.mem_append_right _ List.mem_cons_self

theorem Wired.sourced (h : t.Wired) {o : QueueOptions} {arguments : Dict String Value}
    (harguments : queueArguments name o = .ok arguments)
    (hown : deadLetterExchangeArg ∉ o.args ∧ deadLetterRoutingKeyArg ∉ o.args) :
    (t.sourced name o arguments).Wired := by
  rw [Topology.sourced]
  rcases queueArguments_pair harguments hown with ⟨hdead, hexchange, hkey⟩ | ⟨hdead, hsilent⟩
  · rw [if_pos hdead]
    exact h.deadLetters o.durable hexchange hkey
  · rw [hdead]
    exact h.source hsilent

theorem Wired.queue (h : t.Wired) {o : QueueOptions}
    (hown : deadLetterExchangeArg ∉ o.args ∧ deadLetterRoutingKeyArg ∉ o.args) : (t.queue name o).2.Wired := by
  cases harguments : queueArguments name o with
  | error e =>
      rw [Topology.queue, harguments]
      exact h
  | ok arguments =>
      have hsourced := h.sourced harguments hown
      rw [queue_of_arguments harguments]
      split
      · exact hsourced
      · split
        · exact hsourced
        · exact hsourced.rungs (List.mem_map_of_mem (mem_sourced t name o arguments)) _ _

/-- What one call preserves. -/
theorem Wired.on {call : Call} (h : t.Wired) (hown : call.Managed) : (call.on t).Wired := by
  cases call with
  | queue name options => exact h.queue hown
  | exchange name kind durable autoDelete args =>
      rw [Call.on, exchange]
      split
      · rename_i t' hok
        split at hok
        · cases hok
        · split at hok
          · cases hok
          · obtain rfl := Except.ok.inj hok
            refine ⟨fun b hb ↦ ?_, h.queues, fun e he hname ↦ ?_⟩
            · obtain ⟨hkey, hqueue, hexchange⟩ := h.bindings b hb
              exact ⟨hkey, hqueue, List.mem_append_left _ hexchange⟩
            · rcases List.mem_append.mp he with he | he
              · exact h.exchanges e he hname
              · rw [List.mem_singleton.mp he] at hname
                rcases hname with hname | hname
                · exact absurd hname hown.1
                · exact absurd hname hown.2
      · exact h

/-- What any calls preserve. -/
theorem Wired.foldl {calls : List Call} (h : t.Wired) (hown : ∀ call ∈ calls, call.Managed) :
    (calls.foldl Call.on t).Wired := by
  induction calls generalizing t with
  | nil => exact h
  | cons call calls ih =>
      rw [List.forall_mem_cons] at hown
      exact ih (h.on hown.1) hown.2

/-! ## What a call leaves -/

/-- The queues that a call declares are there. -/
structure Declares (t : Topology) (name : String) (o : QueueOptions) (arguments : Dict String Value) : Prop where
  source : source name o arguments ∈ t.queues
  caught : o.deadLetter = true → ∀ target ∈ [deadLetterQueue name, parkedQueue name],
    (target, ⟨o.durable, false, false, ∅⟩) ∈ t.queues
  rungs : ∀ rungs, longWaits o.retry = .ok rungs → ∀ rung ∈ rungs,
    (retryQueue name rung, ⟨o.durable, false, false, rungArgs name rung⟩) ∈ t.queues

theorem queues_wireRungs (t : Topology) (name : String) (durable : Bool) (rungs : List Duration) :
    (t.wireRungs name durable rungs).queues = t.queues ++ rungs.map fun rung ↦
      (retryQueue name rung, ⟨durable, false, false, rungArgs name rung⟩) := by
  rw [wireRungs]
  exact congrArg (· ++ _) (queues_managedExchange t retryExchange).1

theorem queues_sourced (t : Topology) (name : String) (o : QueueOptions) (arguments : Dict String Value) :
    (t.sourced name o arguments).queues = t.queues ++ source name o arguments ::
      if o.deadLetter then [deadLetterQueue name, parkedQueue name].map fun target ↦
        (target, ⟨o.durable, false, false, ∅⟩) else [] := by
  rw [sourced]
  split
  · rw [wireDeadLetters_source, (queues_managedExchange t deadLetterExchange).1]
  · rfl

theorem queues_queue {o : QueueOptions} {arguments : Dict String Value} (h : queueArguments name o = .ok arguments) :
    ∃ rungs : List Duration, (∀ waits, longWaits o.retry = .ok waits → waits = rungs) ∧
      (t.queue name o).2.queues = (t.sourced name o arguments).queues ++ rungs.map fun rung ↦
        (retryQueue name rung, ⟨o.durable, false, false, rungArgs name rung⟩) := by
  rw [queue_of_arguments h]
  cases longWaits o.retry with
  | error e => exact ⟨[], nofun, (List.append_nil _).symm⟩
  | ok rungs =>
      refine ⟨rungs, fun waits hwaits ↦ (Except.ok.inj hwaits).symm, ?_⟩
      dsimp only
      split
      · rename_i hnil
        rw [hnil]
        exact (List.append_nil _).symm
      · exact queues_wireRungs _ _ _ _

theorem declares_queue {o : QueueOptions} {arguments : Dict String Value} (h : queueArguments name o = .ok arguments) :
    (t.queue name o).2.Declares name o arguments := by
  obtain ⟨rungs, hrungs, hqueues⟩ := @queues_queue t name o arguments h
  have hsourced := queues_sourced t name o arguments
  refine ⟨?_, fun hdead target htarget ↦ ?_, fun waits hwaits rung hrung ↦ ?_⟩
  · rw [hqueues]
    exact List.mem_append_left _ (mem_sourced t name o arguments)
  · rw [hqueues, hsourced, if_pos hdead]
    refine List.mem_append_left _ (List.mem_append_right _ (List.mem_cons_of_mem _ ?_))
    exact List.mem_map_of_mem htarget
  · rw [hqueues, ← hrungs waits hwaits]
    exact List.mem_append_right _ (List.mem_map_of_mem hrung)

theorem queues_subset_on (t : Topology) (call : Call) : t.queues ⊆ (call.on t).queues := by
  cases call with
  | queue name options =>
      cases harguments : queueArguments name options with
      | error e =>
          rw [Call.on, queue, harguments]
          exact List.Subset.refl _
      | ok arguments =>
          obtain ⟨rungs, -, hqueues⟩ := @queues_queue t name options arguments harguments
          rw [Call.on, hqueues, queues_sourced, List.append_assoc]
          exact List.subset_append_left _ _
  | exchange name kind durable autoDelete args =>
      rw [Call.on, exchange]
      split
      · rename_i hok
        split at hok
        · cases hok
        · split at hok
          · cases hok
          · obtain rfl := Except.ok.inj hok
            exact List.Subset.refl _
      · exact List.Subset.refl _

theorem queues_subset_foldl (t : Topology) (calls : List Call) : t.queues ⊆ (calls.foldl Call.on t).queues := by
  induction calls generalizing t with
  | nil => exact List.Subset.refl _
  | cons call calls ih => exact List.Subset.trans (queues_subset_on t call) (ih _)

theorem declares_build {calls : List Call} {o : QueueOptions} {arguments : Dict String Value}
    (hcall : .queue name o ∈ calls) (h : queueArguments name o = .ok arguments) :
    (build calls).Declares name o arguments := by
  obtain ⟨before, after, rfl⟩ := List.append_of_mem hcall
  have hdeclares := @declares_queue (before.foldl Call.on empty) name o arguments h
  have hsubset := queues_subset_foldl ((before.foldl Call.on empty).queue name o).2 after
  have hbuild : build (before ++ .queue name o :: after) =
      after.foldl Call.on ((before.foldl Call.on empty).queue name o).2 := by
    rw [build, List.foldl_append]
    rfl
  rw [hbuild]
  exact ⟨hsubset hdeclares.source, fun hdead target htarget ↦ hsubset (hdeclares.caught hdead target htarget),
    fun waits hwaits rung hrung ↦ hsubset (hdeclares.rungs waits hwaits rung hrung)⟩

theorem Wired.leads_of_pair {q : String × QueueSpec} {exchange target : String} (h : t.Wired) (hq : q ∈ t.queues)
    (hexchange : q.2.args.get? deadLetterExchangeArg = some (.text exchange))
    (hkey : q.2.args.get? deadLetterRoutingKeyArg = some (.text target)) : t.Leads q.2 target := by
  rcases h.queues q hq with hsilent | ⟨exchange', target', hexchange', hkey', hbinding⟩
  · exact absurd (Dict.mem_iff_get?.mpr ⟨_, hexchange⟩) hsilent.1
  · obtain rfl := Value.text.inj (Option.some.inj (hkey.symm.trans hkey'))
    exact h.leads hexchange' hkey' hbinding

end wired

/-! ## Any topology -/

/-- Everything of one kind comes before a first thing of another. -/
theorem subset_before {α : Type} {early late before after : List α} {b : α}
    (h : early ++ late = before ++ b :: after) (hb : b ∉ early) : early ⊆ before := by
  rcases List.append_eq_append_iff.mp h with ⟨rest, rfl, -⟩ | ⟨rest, rfl, hrest⟩
  · exact List.subset_append_left _ _
  · cases rest with
    | nil => simp
    | cons first rest =>
        obtain rfl := List.head_eq_of_cons_eq hrest
        exact absurd (List.mem_append_right _ List.mem_cons_self) hb

/-- Each exchange and each queue is declared once, and before every binding that names it. -/
structure InOrder (t : Topology) (ds : List Declaration) : Prop where
  exchanges : ds.filterMap Declaration.exchange? = t.exchanges ∧ (t.exchanges.map Prod.fst).Nodup
  queues : ds.filterMap Declaration.queue? = t.queues ∧ (t.queues.map Prod.fst).Nodup
  bindings : ds.filterMap Declaration.binding? = t.bindings
  before : ∀ earlier b later, ds = earlier ++ .bind b :: later →
    (∃ spec, .exchange b.exchange spec ∈ earlier) ∧ ∃ spec, .queue b.queue spec ∈ earlier

theorem inOrder_apply {t : Topology} {ds : List Declaration} (h : t.apply = .ok ds) : t.InOrder ds := by
  have hsound := sound_of_apply h
  obtain ⟨hexchanges, hqueues, hbindings⟩ := apply_parts h
  refine ⟨⟨hexchanges, hsound.exchanges⟩, ⟨hqueues, hsound.queues⟩, hbindings, fun earlier b later hsplit ↦ ?_⟩
  obtain ⟨_, -, happly⟩ := bind_ok_iff.mp h
  have hds := Except.ok.inj happly
  rw [hsplit] at hds
  have hsubset := subset_before hds (by simp)
  have hb : b ∈ t.bindings := by
    rw [← hbindings, hsplit]
    simp [Declaration.binding?]
  obtain ⟨hqueue, -, hexchange⟩ := hsound.bindings b hb
  obtain ⟨e, he, hname⟩ := List.mem_map.mp hexchange
  obtain ⟨q, hq, hname'⟩ := List.mem_map.mp hqueue
  refine ⟨⟨e.2, hsubset (List.mem_append_left _ ?_)⟩, ⟨q.2, hsubset (List.mem_append_right _ ?_)⟩⟩
  · exact List.mem_map.mpr ⟨e, he, by rw [hname]⟩
  · exact List.mem_map.mpr ⟨q, hq, by rw [hname']⟩

/-- What a topology promises whoever relies on its failure wiring. -/
structure Closed (calls : List Call) (t : Topology) : Prop where
  /-- Whatever a queue passes on arrives at a declared queue. -/
  pairs : ∀ q ∈ t.queues, Silent q.2 ∨ ∃ target, t.Leads q.2 target
  /-- A queue that is asked to dead-letter does so to its own `.dlq`. -/
  sources : ∀ name o arguments, .queue name o ∈ calls → queueArguments name o = .ok arguments →
    o.deadLetter = true → ∃ spec, (name, spec) ∈ t.queues ∧ t.Leads spec (deadLetterQueue name)
  /-- A rung brings its messages back to the queue it was declared for. -/
  rungs : ∀ name o arguments rungs, .queue name o ∈ calls → queueArguments name o = .ok arguments →
    longWaits o.retry = .ok rungs → ∀ rung ∈ rungs,
      ∃ spec, (retryQueue name rung, spec) ∈ t.queues ∧ t.Leads spec name
  /-- The queues that are declared to catch what it cannot handle pass nothing on. -/
  ends : ∀ name o arguments, .queue name o ∈ calls → queueArguments name o = .ok arguments →
    o.deadLetter = true → ∀ q ∈ t.queues, q.1 = deadLetterQueue name ∨ q.1 = parkedQueue name → Silent q.2
  order : ∃ ds, t.apply = .ok ds ∧ t.InOrder ds

/-- Whatever calls a topology was built by, its failure wiring is closed when it is valid, and
nothing is declared when it is not. -/
theorem build_closed {calls : List Call} (hown : ∀ call ∈ calls, call.Managed) :
    ((build calls).validate = .ok () → Closed calls (build calls)) ∧
      ∀ failure, (build calls).validate = .error failure → (build calls).apply = .error failure := by
  have hwired : (build calls).Wired := wired_empty.foldl hown
  refine ⟨fun hvalid ↦ ?_, fun failure hinvalid ↦ by rw [apply, hinvalid]; rfl⟩
  have hsound := validate_ok_iff.mp hvalid
  refine ⟨fun q hq ↦ ?_, fun name o arguments hcall harguments hdead ↦ ?_,
    fun name o arguments rungs hcall harguments hwaits rung hrung ↦ ?_,
    fun name o arguments hcall harguments hdead q hq hname ↦ ?_, ?_⟩
  · rcases hwired.queues q hq with hsilent | ⟨exchange, target, hexchange, hkey, hbinding⟩
    · exact .inl hsilent
    · exact .inr ⟨target, hwired.leads hexchange hkey hbinding⟩
  · have hsource := (declares_build hcall harguments).source
    rcases queueArguments_pair harguments (hown _ hcall) with ⟨-, hexchange, hkey⟩ | ⟨hnot, -⟩
    · exact ⟨_, hsource, hwired.leads_of_pair hsource hexchange hkey⟩
    · cases hdead.symm.trans hnot
  · have hqueue := (declares_build hcall harguments).rungs rungs hwaits rung hrung
    obtain ⟨hexchange, hkey⟩ := rungArgs_pair name rung
    exact ⟨_, hqueue, hwired.leads_of_pair hqueue hexchange hkey⟩
  · have hcaught := (declares_build hcall harguments).caught hdead q.1 (by simpa using hname)
    have hsame := List.inj_on_of_nodup_map hsound.queues hq hcaught rfl
    rw [hsame]
    exact ⟨List.not_mem_nil, List.not_mem_nil⟩
  · obtain ⟨ds, happly⟩ := apply_of_sound hsound
    exact ⟨ds, happly, inOrder_apply happly⟩

theorem managed_of_empty {name : String} {o : QueueOptions} (h : o.args = ∅) : (Call.queue name o).Managed := by
  rw [Call.Managed, h]
  exact ⟨List.not_mem_nil, List.not_mem_nil⟩

/-- A queue with its dead letters and three rungs, and an exchange. -/
def ordersCalls : List Call :=
  [.queue "orders" { deadLetter := true, retry := some ⟨4, 45000000, 2, 0, 0, 0, defaultBrokerWaitThreshold⟩ },
    .exchange "orders-events" "topic" true false ∅]

theorem build_closed_orders : Closed ordersCalls (build ordersCalls) := by
  have hown : ∀ call ∈ ordersCalls, call.Managed := by
    rw [ordersCalls, List.forall_mem_cons, List.forall_mem_cons]
    exact ⟨managed_of_empty rfl, ⟨by decide, by decide⟩, List.forall_mem_nil _⟩
  have hqueues : ((build ordersCalls).queues.map Prod.fst).Nodup := by decide +kernel
  have hexchanges : ((build ordersCalls).exchanges.map Prod.fst).Nodup := by decide +kernel
  have hbindings : (build ordersCalls).bindings.all fun b ↦ b.queue ∈ (build ordersCalls).queues.map Prod.fst ∧
      b.exchange ≠ "" ∧ b.exchange ∈ (build ordersCalls).exchanges.map Prod.fst := by decide +kernel
  refine (build_closed hown).1 (validate_ok_iff.mpr ⟨hqueues, hexchanges, fun b hb ↦ ?_⟩)
  exact of_decide_eq_true (List.all_eq_true.mp hbindings b hb)

/-- A queue that is named like the dead-letter queue of another one, and dead-letters. -/
theorem dlq_passes_on :
    let calls : List Call := [.queue "orders" {}, .queue "orders.dlq" { deadLetter := true }]
    (∀ call ∈ calls, call.Managed) ∧ (build calls).validate = .ok () ∧
      ∃ spec, (deadLetterQueue "orders", spec) ∈ (build calls).queues ∧ ¬Silent spec := by
  intro calls
  refine ⟨?_, rfl, ⟨true, false, false, sourceArguments "orders.dlq"⟩, ?_, ?_⟩
  · rw [List.forall_mem_cons, List.forall_mem_cons]
    exact ⟨managed_of_empty rfl, managed_of_empty rfl, List.forall_mem_nil _⟩
  · exact List.mem_cons_of_mem _ List.mem_cons_self
  · exact fun hsilent ↦ hsilent.1 (by decide)

end Topology

end AcemqAmqp
