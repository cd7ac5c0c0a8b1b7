import AcemqAmqp.Topology.Description

/-!
# Where failures go

`declare_where_failures_go` declares what a consumer needs when it fails.  A
rung is named after a wait in whole seconds, the first wait to reach a name owns
it, and its time-to-live is that wait's.
-/

namespace AcemqAmqp

open Binary64

/-! ## Declaring -/

def declareDeadLetters (queue : String) : List Declaration :=
  [.exchange deadLetterExchange managedExchangeSpec,
    .queue (deadLetterQueue queue) ⟨true, false, false, ∅⟩,
    .bind ⟨deadLetterQueue queue, deadLetterExchange, deadLetterQueue queue⟩,
    .queue (parkedQueue queue) ⟨true, false, false, ∅⟩,
    .bind ⟨parkedQueue queue, deadLetterExchange, parkedQueue queue⟩]

/-- The wait that owns each name. -/
def rungsByName (queue : String) (delays : List Duration) : Dict String Duration :=
  delays.foldl (fun rungs delay ↦ rungs.setDefault (retryQueue queue delay) delay) ∅

def declareRungs (queue : String) (rungs : Dict String Duration) : List Declaration :=
  if rungs.items = [] then []
  else .exchange retryExchange managedExchangeSpec ::
    rungs.items.map (fun rung ↦ .queue rung.1 ⟨true, false, false, rungArgs queue rung.2⟩) ++
      [.bind ⟨queue, retryExchange, queue⟩]

/-- The waits a policy needs a rung for, when there is one. -/
def longWaits : Option RetryPolicy → Except Failure (List Duration)
  | none => .ok []
  | some policy => policy.brokerRungs

/-- `declare_where_failures_go`: what it declares, and how it ends.  The rungs
are computed when the dead letters have been declared. -/
def declareWhereFailuresGo (queue : String) (retry : Option RetryPolicy) :
    List Declaration × Except Failure Unit :=
  match longWaits retry with
  | .error e => (declareDeadLetters queue, .error e)
  | .ok delays => (declareDeadLetters queue ++ declareRungs queue (rungsByName queue delays), .ok ())

section parts

variable {queue : String} {table : Dict String Duration}

theorem queues_declareDeadLetters : (declareDeadLetters queue).filterMap Declaration.queue? =
    [(deadLetterQueue queue, ⟨true, false, false, ∅⟩),
      (parkedQueue queue, ⟨true, false, false, ∅⟩)] := rfl

theorem exchanges_declareDeadLetters : (declareDeadLetters queue).filterMap Declaration.exchange? =
    [(deadLetterExchange, managedExchangeSpec)] := rfl

theorem bindings_declareDeadLetters : (declareDeadLetters queue).filterMap Declaration.binding? =
    [⟨deadLetterQueue queue, deadLetterExchange, deadLetterQueue queue⟩,
      ⟨parkedQueue queue, deadLetterExchange, parkedQueue queue⟩] := rfl

theorem filterMap_rungs_of_queue {β : Type} {f : Declaration → Option β}
    (h : ∀ name spec, f (.queue name spec) = none) (items : List (String × Duration)) :
    (items.map fun rung ↦ Declaration.queue rung.1
      ⟨true, false, false, rungArgs queue rung.2⟩).filterMap f = [] := by
  rw [List.filterMap_eq_nil_iff]
  intro d hd
  obtain ⟨rung, -, rfl⟩ := List.mem_map.mp hd
  exact h _ _

theorem queues_declareRungs : (declareRungs queue table).filterMap Declaration.queue? =
    table.items.map fun rung ↦ (rung.1, ⟨true, false, false, rungArgs queue rung.2⟩) := by
  unfold declareRungs
  split
  · simp_all
  · simp [List.filterMap_cons, List.filterMap_append, List.filterMap_map, Declaration.queue?,
      Function.comp_def]

theorem exchanges_declareRungs : (declareRungs queue table).filterMap Declaration.exchange? =
    if table.items = [] then [] else [(retryExchange, managedExchangeSpec)] := by
  unfold declareRungs
  split
  · rfl
  · rw [List.cons_append, List.filterMap_cons, List.filterMap_append,
      filterMap_rungs_of_queue fun _ _ ↦ rfl]
    rfl

theorem bindings_declareRungs : (declareRungs queue table).filterMap Declaration.binding? =
    if table.items = [] then [] else [⟨queue, retryExchange, queue⟩] := by
  unfold declareRungs
  split
  · rfl
  · rw [List.cons_append, List.filterMap_cons, List.filterMap_append,
      filterMap_rungs_of_queue fun _ _ ↦ rfl]
    rfl

end parts

/-! ## The wait that owns a name -/

section rungs

variable {queue name : String} {delays : List Duration} {d r : Duration}

theorem get?_foldl_rungs {rungs : Dict String Duration} :
    (delays.foldl (fun rungs delay ↦ rungs.setDefault (retryQueue queue delay) delay)
      rungs).get? name =
    (rungs.get? name).or (delays.find? fun delay ↦ retryQueue queue delay = name) := by
  induction delays generalizing rungs with
  | nil => simp
  | cons delay delays ih =>
      rw [List.foldl_cons, ih, Dict.get?_setDefault, List.find?_cons]
      by_cases hname : name = retryQueue queue delay
      · subst hname
        cases rungs.get? (retryQueue queue delay) <;> simp
      · simp [hname, Ne.symm hname]

theorem get?_rungsByName : (rungsByName queue delays).get? (retryQueue queue d) =
    delays.find? fun delay ↦ short delay = short d := by
  rw [rungsByName, get?_foldl_rungs, Dict.get?_empty, Option.none_or]
  simp only [retryQueue_inj]

/-- Where no two waits share a name, each wait owns its own. -/
theorem items_rungsByName (queue : String) (h : (delays.map short).Nodup) :
    (rungsByName queue delays).items =
      delays.map fun delay ↦ (retryQueue queue delay, delay) := by
  have hfold : ∀ (delays : List Duration) (rungs : Dict String Duration),
      (delays.map short).Nodup → (∀ delay ∈ delays, retryQueue queue delay ∉ rungs) →
      (delays.foldl (fun rungs delay ↦ rungs.setDefault (retryQueue queue delay) delay)
        rungs).items = rungs.items ++ delays.map fun delay ↦ (retryQueue queue delay, delay) := by
    intro delays
    induction delays with
    | nil => simp
    | cons delay delays ih =>
        intro rungs hnodup hfresh
        rw [List.map_cons, List.nodup_cons] at hnodup
        rw [List.forall_mem_cons] at hfresh
        have hset : rungs.setDefault (retryQueue queue delay) delay =
            rungs.set (retryQueue queue delay) delay := if_neg hfresh.1
        rw [List.foldl_cons, hset, ih _ hnodup.2, Dict.items_set_of_notMem hfresh.1]
        · simp
        · intro other hother
          rw [Dict.mem_set, not_or, retryQueue_inj]
          exact ⟨fun hshort ↦ hnodup.1 (hshort ▸ List.mem_map_of_mem hother), hfresh.2 other hother⟩
  have hitems := hfold delays ∅ h fun delay _ ↦ Dict.get?_eq_none_iff.mp Dict.get?_empty
  rwa [Dict.items_empty, List.nil_append] at hitems

end rungs

/-! ## How long a long wait is -/

/-- A queue that holds a message for `delay` and then sends it home. -/
structure Holds (b : Broker) (queue rung : String) (delay : Duration) : Prop where
  lasts : ∃ spec, b.queues.get? rung = some spec ∧
    spec.args.get? messageTtlArg = some (.int (delay / 1000)) ∧
    spec.args.get? deadLetterExchangeArg = some (.text retryExchange) ∧
    spec.args.get? deadLetterRoutingKeyArg = some (.text queue)
  exchange : b.exchanges.get? retryExchange = some managedExchangeSpec
  bound : ⟨queue, retryExchange, queue⟩ ∈ b.bindings

/-- A wait the policy sends to the broker, on some attempt. -/
def RetryPolicy.SendsToBroker (p : RetryPolicy) (d : Duration) : Prop :=
  ∃ attempt age draw, 1 ≤ attempt ∧ p.nextWait attempt age draw = .ok (some ⟨d, true⟩)

theorem RetryPolicy.SendsToBroker.mem_brokerRungs {p : RetryPolicy} {d : Duration}
    {rungs : List Duration} (h : p.SendsToBroker d) (hrungs : p.brokerRungs = .ok rungs) :
    d ∈ rungs := by
  obtain ⟨attempt, age, draw, hone, hwait⟩ := h
  obtain ⟨hlast, hbroker⟩ := nextWait_some hwait
  obtain ⟨l, hl, -⟩ := Fallible.bind_ok_iff.mp hrungs
  obtain ⟨d', hd', hdelay⟩ := unjittered_mem hl hone hlast
  obtain rfl : d = d' := by
    have hunjittered := nextWait_inBroker hwait rfl
    rwa [hdelay, Except.ok.injEq, eq_comm] at hunjittered
  exact (RetryPolicy.mem_brokerRungs hl hrungs).mpr ⟨hd', hbroker rfl⟩

theorem RetryPolicy.pos_of_mem_brokerRungs (p : RetryPolicy) {d : Duration} {rungs : List Duration}
    (hrungs : p.brokerRungs = .ok rungs) (h : d ∈ rungs) : 0 < d := by
  obtain ⟨l, hl, -⟩ := Fallible.bind_ok_iff.mp hrungs
  have hlong := ((RetryPolicy.mem_brokerRungs hl hrungs).mp h).2
  simp only [waitsInBroker, Bool.decide_and, Bool.and_eq_true, decide_eq_true_eq] at hlong
  exact hlong.2.1

/-- The float that `rung_args` truncates for `r` lies in the millisecond of `d`. -/
def SameMillisecond (r d : Duration) : Prop :=
  ((d / 1000 : ℤ) : ℚ) ≤ binary64 (binary64 (r / 1000000) * 1000) ∧
    binary64 (binary64 (r / 1000000) * 1000) < ((d / 1000 : ℤ) : ℚ) + 1

theorem timeToLive_eq_iff {r d : Duration} (hr : 0 ≤ r) :
    timeToLive r = d / 1000 ↔ SameMillisecond r d := by
  have hnonneg : 0 ≤ binary64 (binary64 (r / 1000000) * 1000) := by
    refine binary64_nonneg (mul_nonneg (binary64_nonneg ?_) (by norm_num))
    exact div_nonneg (by exact_mod_cast hr) (by norm_num)
  rw [timeToLive, truncate, if_pos hnonneg, Int.floor_eq_iff, SameMillisecond]

section broker

variable {queue : String} {p : RetryPolicy} {rungs : List Duration}

theorem declareWhereFailuresGo_of_rungs (h : p.brokerRungs = .ok rungs) :
    declareWhereFailuresGo queue (some p) =
      (declareDeadLetters queue ++ declareRungs queue (rungsByName queue rungs), .ok ()) := by
  rw [declareWhereFailuresGo, longWaits, h]

variable {d r : Duration}

/-- A wait's queue is the queue of the wait that owns its name. -/
theorem get?_queues_rung (queue : String)
    (howner : rungs.find? (fun delay ↦ short delay = short d) = some r) :
    ((declareDeadLetters queue ++ declareRungs queue (rungsByName queue rungs)).foldl
      Broker.declare Broker.empty).queues.get? (retryQueue queue d) =
      some ⟨true, false, false, rungArgs queue r⟩ := by
  have hlookup : (rungsByName queue rungs).items.lookup (retryQueue queue d) = some r :=
    get?_rungsByName.trans howner
  rw [Broker.get?_queues_foldl, List.filterMap_append, queues_declareDeadLetters,
    queues_declareRungs, List.cons_append, List.cons_append, List.nil_append, List.lookup_cons,
    List.lookup_cons, beq_false_of_ne retryQueue_ne_deadLetterQueue,
    beq_false_of_ne retryQueue_ne_parkedQueue,
    Dict.lookup_map_snd fun r ↦ (⟨true, false, false, rungArgs queue r⟩ : QueueSpec), hlookup]
  rfl

/-- A wait with a rung is held for the time of the wait that owns the rung's name. -/
theorem holds_iff (hr : 0 ≤ r)
    (howner : rungs.find? (fun delay ↦ short delay = short d) = some r) :
    Holds ((declareDeadLetters queue ++ declareRungs queue (rungsByName queue rungs)).foldl
      Broker.declare Broker.empty) queue (retryQueue queue d) d ↔ SameMillisecond r d := by
  have hspec := get?_queues_rung queue howner
  have hmem : (retryQueue queue d, r) ∈ (rungsByName queue rungs).items :=
    Dict.mem_items_iff.mpr (get?_rungsByName.trans howner)
  have hsome : (rungsByName queue rungs).items ≠ [] := List.ne_nil_of_mem hmem
  rw [← timeToLive_eq_iff hr]
  constructor
  · rintro ⟨⟨spec, hget, hlasts, -⟩, -⟩
    obtain rfl : _ = spec := Option.some.inj (hspec.symm.trans hget)
    exact Value.int.inj (Option.some.inj hlasts)
  · intro hlasts
    constructor
    case lasts => exact ⟨_, hspec, congrArg (fun n ↦ some (Value.int n)) hlasts, rfl, rfl⟩
    case exchange =>
      rw [Broker.get?_exchanges_foldl, List.filterMap_append, exchanges_declareDeadLetters,
        exchanges_declareRungs, if_neg hsome]
      rfl
    case bound =>
      rw [Broker.mem_bindings_foldl, List.filterMap_append, bindings_declareRungs, if_neg hsome]
      exact .inr (List.mem_append_right _ (List.mem_singleton_self _))

/-- After the declaration every long wait has a queue that holds a message for
as long as the policy says. -/
def KeepsLongWaits (queue : String) (p : RetryPolicy) : Prop :=
  ∀ declared, declareWhereFailuresGo queue (some p) = (declared, .ok ()) → ∀ d, p.SendsToBroker d →
    Holds (declared.foldl Broker.declare Broker.empty) queue (retryQueue queue d) d

/-- A long wait lasts as long as the policy says exactly when the first rung of
its name does, read as a float. -/
theorem keepsLongWaits_iff (queue : String) (p : RetryPolicy) : KeepsLongWaits queue p ↔
    ∀ rungs, p.brokerRungs = .ok rungs → ∀ d, p.SendsToBroker d → ∀ r,
      rungs.find? (fun delay ↦ short delay = short d) = some r → SameMillisecond r d := by
  constructor
  · intro h rungs hrungs d hd r howner
    have hr := p.pos_of_mem_brokerRungs hrungs (List.mem_of_find?_eq_some howner)
    exact (holds_iff hr.le howner).mp (h _ (declareWhereFailuresGo_of_rungs hrungs) d hd)
  · intro h declared hdeclared d hd
    cases hrungs : p.brokerRungs with
    | error e => simp [declareWhereFailuresGo, longWaits, hrungs] at hdeclared
    | ok rungs =>
        rw [declareWhereFailuresGo_of_rungs hrungs] at hdeclared
        obtain rfl := congrArg Prod.fst hdeclared
        obtain ⟨r, howner⟩ : ∃ r, rungs.find? (fun delay ↦ short delay = short d) = some r := by
          rw [← Option.isSome_iff_exists, List.find?_isSome]
          exact ⟨d, hd.mem_brokerRungs hrungs, by simp⟩
        have hr := p.pos_of_mem_brokerRungs hrungs (List.mem_of_find?_eq_some howner)
        exact (holds_iff hr.le howner).mpr (h rungs hrungs d hd r howner)

end broker

/-- Waits of 30.4 and 30.875 seconds have one name, and the longer one is as
long as the shorter. -/
theorem not_keepsLongWaits_of_one_name :
    let p : RetryPolicy := ⟨3, 30400000, 65 / 64, 0, 0, 0, defaultBrokerWaitThreshold⟩
    p.nextWait 2 0 0 = .ok (some ⟨30875000, true⟩) ∧
      p.brokerRungs = .ok [30400000, 30875000] ∧ short 30875000 = short 30400000 ∧
      ((declareWhereFailuresGo "orders" (some p)).1.foldl Broker.declare Broker.empty).queues.get?
        (retryQueue "orders" 30875000) = some ⟨true, false, false, rungArgs "orders" 30400000⟩ ∧
      ¬KeepsLongWaits "orders" p := by
  intro p
  have hwait : p.nextWait 2 0 0 = .ok (some ⟨30875000, true⟩) := by decide +kernel
  have hrungs : p.brokerRungs = .ok [30400000, 30875000] := by decide +kernel
  have hname : short 30875000 = short 30400000 := by decide +kernel
  have howner : [30400000, 30875000].find? (fun delay ↦ short delay = short 30875000) =
      some 30400000 := by
    rw [List.find?_cons_of_pos (by simp [hname])]
  refine ⟨hwait, hrungs, hname, ?_, fun h ↦ ?_⟩
  · rw [declareWhereFailuresGo_of_rungs hrungs]
    exact get?_queues_rung _ howner
  · have hsends : p.SendsToBroker 30875000 := ⟨2, 0, 0, by decide, hwait⟩
    have hlasts := (holds_iff (by decide) howner).mp
      (h _ (declareWhereFailuresGo_of_rungs hrungs) _ hsends)
    rw [← timeToLive_eq_iff (by decide)] at hlasts
    exact absurd hlasts (by decide +kernel)

end AcemqAmqp
