import AcemqAmqp.Topology.Failures

/-!
# A topology and a consumer declare the same queues

The topology lists one queue for each wait, and refuses a name it lists twice.
The consumer keeps the first wait of each name.  They agree where no two waits
have one name.
-/

namespace AcemqAmqp

/-- The failure queues of a queue, as two callers declare them. -/
structure SameFailures (name : String) (described declared : List Declaration) : Prop where
  exchanges : described.filterMap Declaration.exchange? = declared.filterMap Declaration.exchange?
  queues : (described.filterMap Declaration.queue?).filter (fun q ↦ q.1 ≠ name) =
    declared.filterMap Declaration.queue?
  bindings : described.filterMap Declaration.binding? = declared.filterMap Declaration.binding?
  describedFirst : Broker.empty.Accepts (described ++ declared)
  declaredFirst : Broker.empty.Accepts (declared ++ described)

namespace Topology

/-- `dead_letter=True, retry=retry`. -/
def failureOptions (retry : Option RetryPolicy) : QueueOptions :=
  { deadLetter := true, retry }

/-- What a queue is declared with when its dead letters are described too. -/
def sourceArguments (name : String) : Dict String Value :=
  ((Dict.set ∅ queueTypeArg (.text quorumQueueType)).set deadLetterExchangeArg
    (.text deadLetterExchange)).set deadLetterRoutingKeyArg (.text (deadLetterQueue name))

/-- A queue with its dead letters and one queue for each wait. -/
def described (name : String) (delays : List Duration) : Topology where
  exchanges := (deadLetterExchange, managedExchangeSpec) ::
    if delays = [] then [] else [(retryExchange, managedExchangeSpec)]
  queues := (name, ⟨true, false, false, sourceArguments name⟩) ::
    (deadLetterQueue name, ⟨true, false, false, ∅⟩) ::
    (parkedQueue name, ⟨true, false, false, ∅⟩) ::
    delays.map fun delay ↦ (retryQueue name delay, ⟨true, false, false, rungArgs name delay⟩)
  bindings := [⟨deadLetterQueue name, deadLetterExchange, deadLetterQueue name⟩,
      ⟨parkedQueue name, deadLetterExchange, parkedQueue name⟩] ++
    if delays = [] then [] else [⟨name, retryExchange, name⟩]

section described

variable {name : String} {retry : Option RetryPolicy} {delays : List Duration}

theorem queueArguments_failures (hname : name ≠ "") :
    queueArguments name (failureOptions retry) = .ok (sourceArguments name) := by
  simp only [queueArguments, if_neg hname]
  rfl

theorem wireRungs_described (hdelays : delays ≠ []) :
    (described name []).wireRungs name true delays = described name delays := by
  simp only [wireRungs, managedExchange, described, hdelays, if_false]
  rfl

theorem queue_failures (hname : name ≠ "") (hdelays : longWaits retry = .ok delays) :
    empty.queue name (failureOptions retry) = (.ok (), described name delays) := by
  unfold queue
  rw [queueArguments_failures hname]
  cases retry with
  | none =>
      obtain rfl := Except.ok.inj hdelays
      rfl
  | some policy =>
      have hrungs : policy.brokerRungs = .ok delays := hdelays
      by_cases hnil : delays = []
      · subst hnil
        simp only [failureOptions, hrungs]
        rfl
      · simp only [failureOptions, hrungs, if_neg hnil]
        exact congrArg (Prod.mk _) (wireRungs_described hnil)

/-- The topology is one that can be applied when each wait has its own name. -/
theorem sound_described_iff (name : String) :
    (described name delays).Sound ↔ (delays.map short).Nodup := by
  have hnames : (described name delays).queues.map Prod.fst =
      name :: deadLetterQueue name :: parkedQueue name :: delays.map (retryQueue name) := by
    simp [described]
  have hrungs : (delays.map (retryQueue name)).Nodup ↔ (delays.map short).Nodup := by
    simp only [List.Nodup, List.pairwise_map, ne_eq, retryQueue_inj]
  constructor
  · intro h
    have hqueues := h.queues
    rw [hnames] at hqueues
    exact hrungs.mp hqueues.of_cons.of_cons.of_cons
  · intro h
    constructor
    case queues =>
      rw [hnames]
      simp only [List.nodup_cons, List.mem_cons, List.mem_map, not_or, not_exists, not_and]
      exact ⟨⟨deadLetterQueue_ne_self.symm, parkedQueue_ne_self.symm,
          fun delay _ ↦ retryQueue_ne_self⟩,
        ⟨(parkedQueue_ne_deadLetterQueue name).symm, fun delay _ ↦ retryQueue_ne_deadLetterQueue⟩,
        fun delay _ ↦ retryQueue_ne_parkedQueue, hrungs.mpr h⟩
    case exchanges =>
      simp only [described]
      split <;> decide
    case bindings =>
      rw [hnames]
      simp only [described]
      split
      · simp [deadLetterExchange]
      · simp [deadLetterExchange, retryExchange]

/-- What is declared for a topology is what it lists. -/
theorem apply_parts {t : Topology} {ds : List Declaration} (h : t.apply = .ok ds) :
    ds.filterMap Declaration.exchange? = t.exchanges ∧
      ds.filterMap Declaration.queue? = t.queues ∧
      ds.filterMap Declaration.binding? = t.bindings := by
  obtain ⟨_, -, h⟩ := Fallible.bind_ok_iff.mp h
  obtain rfl := Except.ok.inj h
  simp [List.filterMap_append, List.filterMap_map, Function.comp_def, Declaration.exchange?,
    Declaration.queue?, Declaration.binding?]

theorem apply_of_sound {t : Topology} (h : t.Sound) : ∃ ds, t.apply = .ok ds :=
  ⟨_, Fallible.bind_ok_iff.mpr ⟨(), validate_ok_iff.mpr h, rfl⟩⟩

theorem sound_of_apply {t : Topology} {ds : List Declaration} (h : t.apply = .ok ds) : t.Sound := by
  obtain ⟨_, hvalid, -⟩ := Fallible.bind_ok_iff.mp h
  exact validate_ok_iff.mp hvalid

/-- What the consumer declares is what the topology lists, but for the source. -/
theorem declared_parts (name : String) (hdelays : longWaits retry = .ok delays)
    (hnames : (delays.map short).Nodup) :
    ∃ declared, declareWhereFailuresGo name retry = (declared, .ok ()) ∧
      declared.filterMap Declaration.exchange? = (described name delays).exchanges ∧
      declared.filterMap Declaration.queue? = (described name delays).queues.tail ∧
      declared.filterMap Declaration.binding? = (described name delays).bindings := by
  have hitems := items_rungsByName name hnames
  refine ⟨_, by rw [declareWhereFailuresGo, hdelays], ?_, ?_, ?_⟩
  · rw [List.filterMap_append, exchanges_declareDeadLetters, exchanges_declareRungs, hitems]
    simp [described]
  · rw [List.filterMap_append, queues_declareDeadLetters, queues_declareRungs, hitems]
    simp [described]
  · rw [List.filterMap_append, bindings_declareDeadLetters, bindings_declareRungs, hitems]
    simp [described]

theorem sameFailures_described {ds declared : List Declaration}
    (hds : (described name delays).apply = .ok ds)
    (hexchanges : declared.filterMap Declaration.exchange? = (described name delays).exchanges)
    (hqueues : declared.filterMap Declaration.queue? = (described name delays).queues.tail)
    (hbindings : declared.filterMap Declaration.binding? = (described name delays).bindings) :
    SameFailures name ds declared := by
  have hsound := sound_of_apply hds
  obtain ⟨hexchanges', hqueues', hbindings'⟩ := apply_parts hds
  have hconsistent : Broker.Consistent (ds ++ declared) := by
    apply Broker.consistent_of_nodup hsound.exchanges hsound.queues
    · rw [List.filterMap_append, hexchanges, hexchanges']
      exact List.append_subset.mpr ⟨List.Subset.refl _, List.Subset.refl _⟩
    · rw [List.filterMap_append, hqueues, hqueues']
      exact List.append_subset.mpr ⟨List.Subset.refl _, List.tail_subset _⟩
  constructor
  case exchanges => rw [hexchanges, hexchanges']
  case bindings => rw [hbindings, hbindings']
  case describedFirst =>
    exact (Broker.within_empty _).accepts hconsistent fun d hd ↦ hd
  case declaredFirst =>
    exact (Broker.within_empty _).accepts hconsistent fun d hd ↦ by
      rwa [List.mem_append, or_comm, ← List.mem_append]
  case queues =>
    rw [hqueues, hqueues']
    have hothers : ∀ q ∈ (described name delays).queues.tail, q.1 ≠ name := by
      intro q hq heq
      have hnotMem := (List.nodup_cons.mp hsound.queues).1
      exact hnotMem (List.mem_map.mpr ⟨q, hq, heq⟩)
    have hsource : (described name delays).queues =
        (name, ⟨true, false, false, sourceArguments name⟩) ::
          (described name delays).queues.tail := rfl
    rw [hsource, List.filter_cons_of_neg (by simp), List.tail_cons, List.filter_eq_self]
    exact fun q hq ↦ decide_eq_true (hothers q hq)

end described

/-- `Topology().queue(name, dead_letter=True, retry=retry)` validates, and
declares the failure queues that `declare_where_failures_go` does. -/
def DeclaresTheSame (name : String) (retry : Option RetryPolicy) : Prop :=
  ∃ t ds declared, empty.queue name (failureOptions retry) = (.ok (), t) ∧ t.apply = .ok ds ∧
    declareWhereFailuresGo name retry = (declared, .ok ()) ∧ SameFailures name ds declared

/-- A topology and a consumer agree exactly when no two long waits have one name. -/
theorem declaresTheSame_iff {name : String} {retry : Option RetryPolicy} {delays : List Duration}
    (hname : name ≠ "") (hdelays : longWaits retry = .ok delays) :
    DeclaresTheSame name retry ↔ (delays.map short).Nodup := by
  constructor
  · rintro ⟨t, ds, declared, hqueue, happly, -⟩
    rw [queue_failures hname hdelays] at hqueue
    obtain rfl := congrArg Prod.snd hqueue
    exact (sound_described_iff name).mp (sound_of_apply happly)
  · intro hnames
    obtain ⟨ds, happly⟩ := apply_of_sound ((sound_described_iff name).mpr hnames)
    obtain ⟨declared, hdeclared, hexchanges, hqueues, hbindings⟩ :=
      declared_parts name hdelays hnames
    exact ⟨_, ds, declared, queue_failures hname hdelays, happly, hdeclared,
      sameFailures_described happly hexchanges hqueues hbindings⟩

/-- Three waits of 45 seconds, 90 and 180 have three names. -/
theorem declaresTheSame_exponential :
    DeclaresTheSame "orders" (some ⟨4, 45000000, 2, 0, 0, 0, defaultBrokerWaitThreshold⟩) := by
  have hdelays : longWaits (some ⟨4, 45000000, 2, 0, 0, 0, defaultBrokerWaitThreshold⟩) =
      .ok [45000000, 90000000, 180000000] := by decide +kernel
  exact (declaresTheSame_iff (by decide) hdelays).mpr (by decide +kernel)

/-- The topology for waits of 30.4 and 30.875 seconds lists one name twice. -/
theorem not_declaresTheSame_of_one_name :
    let p : RetryPolicy := ⟨3, 30400000, 65 / 64, 0, 0, 0, defaultBrokerWaitThreshold⟩
    longWaits (some p) = .ok [30400000, 30875000] ∧ ¬DeclaresTheSame "orders" (some p) := by
  intro p
  have hdelays : longWaits (some p) = .ok [30400000, 30875000] := by decide +kernel
  refine ⟨hdelays, ?_⟩
  rintro ⟨t, ds, declared, hqueue, happly, -⟩
  rw [queue_failures (by decide) hdelays] at hqueue
  obtain rfl := congrArg Prod.snd hqueue
  exact absurd ((sound_described_iff "orders").mp (sound_of_apply happly)) (by decide +kernel)

end Topology

end AcemqAmqp
