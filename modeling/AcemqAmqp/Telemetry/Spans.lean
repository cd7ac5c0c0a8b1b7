import AcemqAmqp.Telemetry.Tracing

/-!
# A process span ends once, with what was done

While the chain runs, every span it has started is open and has its listener in
the context; being told closes each of them.  So a delivery that is settled
leaves no span open and ends none twice, and its spans say how it was settled.
-/

namespace AcemqAmqp

namespace Tracing

open Interaction Program Consumer

variable {Payload : Type} {S : Interface} {carrier : ℕ → Dict String String}

/-! ## One span -/

/-- Started, and nothing has been said of how it ended. -/
structure Span.Open (span : Span) : Prop where
  ends : span.ends = 0
  events : span.events = []

/-- Ended, and as the settlement has it. -/
structure Span.Settled (span : Span) (queue : String) (envelope : Envelope) (settlement : Settlement) : Prop where
  ends : span.ends = 1
  events : span.events = settlementEvents queue envelope settlement
  outcome : span.attributes.get? attrOutcome = some (.text settlement.outcome.word)

/-- Neither an event nor the end. -/
def Write.Provisional : Write → Prop
  | .addEvent _ _ | .finish => False
  | _ => True

theorem Span.unended_of_ends {span written : Span} (h : span.ends = 0) : span.unended written = written := if_pos h

theorem Span.Open.write {span : Span} {w : Write} (h : span.Open) (hw : w.Provisional) : (span.write w).Open := by
  cases w with
  | addEvent | finish => exact hw.elim
  | setAttribute | setStatus | recordException =>
      rw [Span.write, Span.unended_of_ends h.ends]
      exact ⟨h.ends, h.events⟩

theorem Span.Open.writes {span : Span} {ws : List Write} (h : span.Open) (hws : ∀ w ∈ ws, w.Provisional) :
    (ws.foldl Span.write span).Open := by
  induction ws generalizing span with
  | nil => exact h
  | cons w rest ih =>
      obtain ⟨hw, hrest⟩ := List.forall_mem_cons.mp hws
      exact ih (h.write hw) hrest

theorem provisional_outcome (word : String) : ∀ w ∈ outcome word, w.Provisional := by
  unfold outcome
  split <;> simp [Write.Provisional]

theorem provisional_noted (answer : Except Failure Decision) : ∀ w ∈ noted answer, w.Provisional := by
  rcases answer with failure | (ack | typeName)
  · refine fun w hw ↦ (List.mem_append.mp hw).elim (provisional_outcome _ w) fun hfailed ↦ ?_
    obtain rfl | hstatus := List.mem_cons.mp hfailed
    · trivial
    · obtain rfl := List.mem_singleton.mp hstatus
      trivial
  · refine fun w hw ↦ (List.mem_append.mp hw).elim (provisional_outcome _ w) fun hexception ↦ ?_
    obtain ⟨failure, -, rfl⟩ := List.mem_map.mp hexception
    trivial
  · exact fun w hw ↦ absurd hw List.not_mem_nil

theorem writes_events {span : Span} (hends : span.ends = 0) (events : List (String × Attributes)) :
    (events.map fun event ↦ Write.addEvent event.1 event.2).foldl Span.write span =
      { span with events := span.events ++ events } := by
  induction events generalizing span with
  | nil => exact congrArg (fun events ↦ { span with events := events }) (List.append_nil _).symm
  | cons event rest ih =>
      rw [List.map_cons, List.foldl_cons, Span.write, Span.unended_of_ends hends]
      refine (@ih { span with events := span.events ++ [event] } hends).trans ?_
      rw [List.append_assoc, List.singleton_append]

/-- What the listener writes closes an open span. -/
theorem Span.Open.settled {span : Span} (h : span.Open) (queue : String) (envelope : Envelope)
    (settlement : Settlement) :
    ((settledWrites queue envelope settlement).foldl Span.write span).Settled queue envelope settlement := by
  rw [settledWrites, List.foldl_append, List.foldl_append, writes_events h.ends, h.events, List.nil_append]
  unfold Tracing.outcome
  constructor <;> split <;> simp [Span.write, Span.unended, h.ends, Dict.get?_set_self]

/-! ## Writing on the table -/

theorem follows_writeAll {ε : Type} {A : Assumption Tracer} {span : ℕ} {ws : List Write}
    {t : List (Event Tracer)} {x : Except ε Unit} {spans spans' : List Span} (hrun : Runs A (writeAll span ws) t x)
    (hfollows : Follows (keep carrier) spans t spans') :
    x = .ok () ∧ spans' = spans.modify span fun row ↦ ws.foldl Span.write row := by
  induction ws generalizing t spans with
  | nil =>
      cases hrun
      obtain rfl := hfollows
      exact ⟨rfl, (List.modify_id span spans).symm⟩
  | cons w rest ih =>
      cases hrun with
      | ask _ hrest =>
          obtain ⟨hx, rfl⟩ := ih hrest hfollows.2
          refine ⟨hx, ?_⟩
          apply List.ext_getElem?
          intro i
          simp only [keep, List.getElem?_modify]
          cases spans[i]? with
          | none => rfl
          | some row => by_cases hi : span = i <;> simp [hi]

/-! ## Who is going to end them -/

/-- Does not concern the tracer. -/
def Elsewhere (q : (Tracer.sum S).Act) : Prop := ∃ q', q = .inr q'

theorem inners_elsewhere {ε α : Type} {A : Assumption (Tracer.sum S)} {p : Program (Tracer.sum S) ε α}
    {t : List (Event (Tracer.sum S))} {x : Except ε α} (hp : p.Asks (Anything _) fun _ q ↦ Elsewhere q)
    (hrun : Runs A p t x) : inners t = [] := by
  refine List.filterMap_eq_nil_iff.mpr fun event hevent ↦ ?_
  obtain ⟨q', hq'⟩ := always_iff_runs.mp hp.always t x (hrun.mono fun _ _ _ ↦ trivial) event hevent
  obtain ⟨q, r⟩ := event
  subst hq'
  rfl

/-- The listeners that end spans, in this order, and others that let them alone. -/
inductive Recorders : Listeners Payload (Tracer.sum S) → List ℕ → Prop
  | nil : Recorders [] []
  | recorder {span : ℕ} {listeners : Listeners Payload (Tracer.sum S)} {spans : List ℕ} :
      Recorders listeners spans → Recorders (settlementRecorder span :: listeners) (span :: spans)
  | other {listener : SettlementListener Payload (Tracer.sum S)} {listeners : Listeners Payload (Tracer.sum S)}
      {spans : List ℕ} : (∀ context settlement, (listener context settlement).Asks (Anything _) fun _ q ↦ Elsewhere q) →
      Recorders listeners spans → Recorders (listener :: listeners) spans

theorem Recorders.append {listeners listeners' : Listeners Payload (Tracer.sum S)} {spans spans' : List ℕ}
    (h : Recorders listeners spans) (h' : Recorders listeners' spans') :
    Recorders (listeners ++ listeners') (spans ++ spans') := by
  induction h with
  | nil => exact h'
  | recorder _ ih => exact .recorder ih
  | other hother _ ih => exact .other hother ih

/-- Nothing is raised by writing. -/
theorem rescue_writeAll {ε : Type} (span : ℕ) (ws : List Write) (h : ε → Program (Tracer.sum S) ε Unit) :
    (aside (writeAll span ws) : Program (Tracer.sum S) ε Unit).rescue h = aside (writeAll span ws) := by
  induction ws with
  | nil => rfl
  | cons w rest ih => exact congrArg (ask _) (funext fun _ ↦ ih)

theorem settled_recorders {listeners : Listeners Payload (Tracer.sum S)} {ids : List ℕ} (h : Recorders listeners ids)
    (hnodup : ids.Nodup) {A : Assumption (Tracer.sum S)} {context : ConsumeContext Payload} {settlement : Settlement}
    {t : List (Event (Tracer.sum S))} {x : Except Failure Unit} {spans spans' : List Span}
    (hopen : ∀ i ∈ ids, ∀ span, spans[i]? = some span → span.Open)
    (hrun : Runs A (settled context settlement listeners) t x)
    (hfollows : Follows (keep carrier) spans (inners t) spans') (i : ℕ) :
    (i ∉ ids → spans'[i]? = spans[i]?) ∧ (i ∈ ids → ∀ span, spans'[i]? = some span →
      span.Settled context.queue context.envelope settlement ∨ span.Open ∧ ∃ failure, x = .error failure) := by
  induction h generalizing spans t with
  | nil =>
      cases hrun
      obtain rfl := hfollows
      exact ⟨fun _ ↦ rfl, fun hi ↦ absurd hi List.not_mem_nil⟩
  | @recorder span listeners ids _ ih =>
      obtain ⟨hfresh, hrest⟩ := List.nodup_cons.mp hnodup
      rw [settled, settlementRecorder, rescue_writeAll, runs_bind] at hrun
      obtain ⟨e, -, hwrites⟩ | ⟨t₁, t₂, _, rfl, hwrites, htold⟩ := hrun
      · cases (follows_writeAll (runs_aside hwrites).1 hfollows).1
      rw [inners_append, follows_append] at hfollows
      obtain ⟨between, hbetween, hfollows⟩ := hfollows
      obtain ⟨-, rfl⟩ := follows_writeAll (runs_aside hwrites).1 hbetween
      have hother : ∀ j, j ≠ span → (spans.modify span fun row ↦
          (settledWrites context.queue context.envelope settlement).foldl Span.write row)[j]? = spans[j]? := by
        intro j hj
        rw [List.getElem?_modify]
        simp [hj.symm]
      have hopen' : ∀ j ∈ ids, ∀ row, (spans.modify span fun row ↦
          (settledWrites context.queue context.envelope settlement).foldl Span.write row)[j]? = some row →
            row.Open := by
        intro j hj row hrow
        rw [hother j fun h ↦ hfresh (h ▸ hj)] at hrow
        exact hopen j (List.mem_cons_of_mem _ hj) row hrow
      obtain ⟨houtside, hinside⟩ := ih hrest hopen' htold hfollows
      refine ⟨fun hi ↦ ?_, fun hi row hrow ↦ ?_⟩
      · rw [List.mem_cons, not_or] at hi
        rw [houtside hi.2, hother i hi.1]
      · obtain rfl | hi := List.mem_cons.mp hi
        · rw [houtside hfresh, List.getElem?_modify] at hrow
          obtain ⟨opened, hopened, rfl⟩ := Option.map_eq_some_iff.mp hrow
          rw [if_pos rfl]
          exact .inl ((hopen _ List.mem_cons_self opened hopened).settled _ _ _)
        · exact hinside hi row hrow
  | @other listener listeners ids hother _ ih =>
      rw [settled, runs_bind] at hrun
      have hquiet : ∀ {t₁ : List (Event (Tracer.sum S))} {y : Except Failure Unit},
          Runs A ((listener context settlement).rescue fun failure ↦
            if failure.isException then .ret () else .raise failure) t₁ y → inners t₁ = [] := by
        refine inners_elsewhere (Asks.rescue (hother _ _) fun failure ↦ ?_)
        split <;> trivial
      obtain ⟨e, rfl, hlistener⟩ | ⟨t₁, t₂, _, rfl, hlistener, htold⟩ := hrun
      · rw [hquiet hlistener] at hfollows
        obtain rfl := hfollows
        exact ⟨fun _ ↦ rfl, fun hi span hspan ↦ .inr ⟨hopen i hi span hspan, e, rfl⟩⟩
      · rw [inners_append, hquiet hlistener] at hfollows
        exact ih hnodup hopen htold hfollows

/-! ## While the chain runs -/

/-- What the tracer was asked, and what it answered. -/
def tracings (u : List (Event (Inside Payload (Tracer.sum S)))) : List (Event Tracer) := inners (outers u)

theorem tracings_append (u u' : List (Event (Inside Payload (Tracer.sum S)))) :
    tracings (u ++ u') = tracings u ++ tracings u' := by
  rw [tracings, outers_append, inners_append]
  rfl

/-- The spans since `base` are open, and there is a listener for each. -/
structure Opened (base spans : List Span) (listeners : Listeners Payload (Tracer.sum S)) : Prop where
  kept : base <+: spans
  opened : ∀ i, base.length ≤ i → ∀ span, spans[i]? = some span → span.Open
  told : Recorders listeners (List.range' base.length (spans.length - base.length))

theorem opened_nil (base : List Span) : Opened base base ([] : Listeners Payload (Tracer.sum S)) where
  kept := List.prefix_rfl
  opened := by
    intro i hi span hspan
    rw [List.getElem?_eq_none hi] at hspan
    cases hspan
  told := by
    rw [Nat.sub_self]
    exact .nil

theorem Opened.modify {base spans : List Span} {listeners : Listeners Payload (Tracer.sum S)}
    (h : Opened base spans listeners) {i : ℕ} (hi : base.length ≤ i) {f : Span → Span}
    (hf : ∀ span, span.Open → (f span).Open) : Opened base (spans.modify i f) listeners where
  kept := by
    rw [List.prefix_iff_getElem?]
    intro j hj
    rw [List.getElem?_modify, List.prefix_iff_getElem?.mp h.kept j hj]
    simp [show i ≠ j by omega]
  opened := by
    intro j hj span hspan
    rw [List.getElem?_modify] at hspan
    obtain ⟨before, hbefore, rfl⟩ := Option.map_eq_some_iff.mp hspan
    have hopen := h.opened j hj before hbefore
    split
    · exact hf before hopen
    · exact hopen
  told := by
    rw [List.length_modify]
    exact h.told

/-- A span is started and its listener registered. -/
theorem Opened.start {base spans : List Span} {listeners : Listeners Payload (Tracer.sum S)}
    (h : Opened base spans listeners) {span : Span} (hspan : span.Open) :
    Opened base (spans ++ [span]) (listeners ++ [settlementRecorder spans.length]) where
  kept := h.kept.trans (List.prefix_append _ _)
  opened := by
    intro i hi row hrow
    rw [List.getElem?_append] at hrow
    split at hrow
    · exact h.opened i hi row hrow
    · obtain rfl := List.mem_singleton.mp (List.mem_of_getElem? hrow)
      exact hspan
  told := by
    have hlength := h.kept.length_le
    have hlast : spans.length = base.length + 1 * (spans.length - base.length) := by omega
    rw [List.length_append, List.length_singleton, Nat.sub_add_comm hlength, List.range'_concat, ← hlast]
    exact h.told.append (.recorder .nil)

theorem Opened.other {base spans : List Span} {listeners : Listeners Payload (Tracer.sum S)}
    (h : Opened base spans listeners) {listener : SettlementListener Payload (Tracer.sum S)}
    (hother : ∀ context settlement, (listener context settlement).Asks (Anything _) fun _ q ↦ Elsewhere q) :
    Opened base spans (listeners ++ [listener]) where
  kept := h.kept
  opened := h.opened
  told := by
    rw [← List.append_nil (List.range' _ _)]
    exact h.told.append (.other hother .nil)

/-- Whatever has been opened before, it is still, and so is what is new. -/
def Grows (carrier : ℕ → Dict String String) (listeners : Listeners Payload (Tracer.sum S))
    (u : List (Event (Inside Payload (Tracer.sum S)))) (listeners' : Listeners Payload (Tracer.sum S)) : Prop :=
  ∀ base spans spans', Opened base spans listeners → Follows (keep carrier) spans (tracings u) spans' →
    Opened base spans' listeners' ∧ spans.length ≤ spans'.length

theorem grows_refl (listeners : Listeners Payload (Tracer.sum S)) : Grows carrier listeners [] listeners := by
  intro base spans spans' hopened hfollows
  obtain rfl := hfollows
  exact ⟨hopened, le_rfl⟩

theorem Grows.trans {listeners between listeners' : Listeners Payload (Tracer.sum S)}
    {u u' : List (Event (Inside Payload (Tracer.sum S)))} (h : Grows carrier listeners u between)
    (h' : Grows carrier between u' listeners') : Grows carrier listeners (u ++ u') listeners' := by
  intro base spans spans' hopened hfollows
  rw [tracings_append, follows_append] at hfollows
  obtain ⟨middle, hfirst, hsecond⟩ := hfollows
  obtain ⟨hmiddle, hle⟩ := h base spans middle hopened hfirst
  obtain ⟨hlast, hle'⟩ := h' base middle spans' hmiddle hsecond
  exact ⟨hlast, hle.trans hle'⟩

/-- The rest of a chain, as far as spans go. -/
def KeepsSpans (carrier : ℕ → Dict String String) (rest : Rest Payload (Tracer.sum S)) : Prop :=
  ∀ context listeners u handled listeners',
    Runs (Anything _) (rest context listeners) u (.ok (handled, listeners')) → Grows carrier listeners u listeners'

/-- What the interceptor asks the tracer, in order, around the rest of the chain. -/
theorem exists_traced {rest : Rest Payload (Tracer.sum S)} {reports : Bool} {system : String}
    {context : ConsumeContext Payload} {listeners listeners' : Listeners Payload (Tracer.sum S)}
    {u : List (Event (Inside Payload (Tracer.sum S)))} {handled : Handled Payload}
    (hrun : Runs (Anything _) (consumeStep reports (consumeInterceptor system) rest context listeners) u
      (.ok (handled, listeners'))) {spans spans' : List Span}
    (hfollows : Follows (keep carrier) spans (tracings u) spans') :
    ∃ (span : Span) (answer : Handled Payload) (between : List (Event (Inside Payload (Tracer.sum S))))
      (rested : List Span), span.Open ∧
      Runs (Anything _) (rest context (whenSettled reports (settlementRecorder spans.length) listeners).2) between
        (.ok (answer, listeners')) ∧
      Follows (keep carrier) (spans ++ [span]) (tracings between) rested ∧
      spans' = rested.modify spans.length fun row ↦ (wayOut reports answer.2).foldl Span.write row := by
  rw [consumeStep_traced, runs_bind] at hrun
  obtain ⟨impossible, -⟩ | ⟨t₁, t, span, rfl, hstart, hrun⟩ := hrun
  · exact impossible.elim
  obtain ⟨impossible, -⟩ | ⟨t₂, t, answered, rfl, hrest, hrun⟩ := runs_bind.mp hrun
  · exact impossible.elim
  obtain ⟨impossible, -⟩ | ⟨t₃, t, _, rfl, hwrites, hret⟩ := runs_bind.mp hrun
  · exact impossible.elim
  cases hret
  rw [tracings_append, follows_append, List.append_nil, tracings_append] at hfollows
  obtain ⟨started, hstarted, hfollows⟩ := hfollows
  obtain ⟨rested, hrested, hwritten⟩ := follows_append.mp hfollows
  have hasked : tracings t₁ = [⟨startProcess system context, span⟩] := by
    have hperform := (runs_aside (outers_of_beside hstart).1).1
    change Runs _ _ (tracings t₁) _ at hperform
    generalize tracings t₁ = asked at hperform
    cases hperform with
    | ask _ hret =>
        cases hret
        rfl
  rw [hasked] at hstarted
  obtain ⟨hspan, hstarted⟩ := hstarted
  change spans.length = span at hspan
  obtain rfl := hspan
  obtain rfl := hstarted
  obtain ⟨-, rfl⟩ := follows_writeAll (runs_aside (outers_of_beside hwrites).1).1 hwritten
  exact ⟨_, answered.1, t₂, rested, ⟨rfl, rfl⟩, hrest, hrested, rfl⟩

theorem KeepsSpans.traced {rest : Rest Payload (Tracer.sum S)} (h : KeepsSpans carrier rest) (system : String) :
    KeepsSpans carrier (consumeStep true (consumeInterceptor system) rest) := by
  intro context listeners u handled listeners' hrun base spans spans' hopened hfollows
  obtain ⟨span, answer, between, rested, hspan, hrest, hrested, rfl⟩ := exists_traced hrun hfollows
  obtain ⟨hnow, hle⟩ := h _ _ _ _ _ hrest base _ rested (hopened.start hspan) hrested
  rw [List.length_append, List.length_singleton] at hle
  refine ⟨hnow.modify hopened.kept.length_le fun row hrow ↦ hrow.writes ?_, ?_⟩
  · rw [wayOut, if_pos rfl, List.append_nil]
    exact provisional_noted _
  · rw [List.length_modify]
    omega

/-- An interceptor that has nothing to do with the tracer, and none of whose listeners has. -/
def Untraced (interceptor : Interceptor Payload (Tracer.sum S)) : Prop :=
  ∀ context, (interceptor context).Asks (Anything _) fun _ q ↦ match q with
    | .handle _ => True
    | .whenSettled listener =>
        ∀ context settlement, (listener context settlement).Asks (Anything _) fun _ q ↦ Elsewhere q
    | .other q => Elsewhere q

theorem KeepsSpans.untraced {rest : Rest Payload (Tracer.sum S)} (h : KeepsSpans carrier rest)
    {interceptor : Interceptor Payload (Tracer.sum S)} (huntraced : Untraced interceptor) :
    KeepsSpans carrier (consumeStep true interceptor rest) := by
  intro context listeners u handled listeners' hrun
  refine Runs.through_keeps grows_refl Grows.trans ?_ (huntraced context) hrun
  intro q listeners u r listeners' hq hanswer
  cases q with
  | handle context => exact h _ _ _ _ _ hanswer
  | whenSettled listener =>
      cases hanswer
      intro base spans spans' hopened hfollows
      obtain rfl := hfollows
      exact ⟨hopened.other hq, le_rfl⟩
  | other q =>
      obtain ⟨q', rfl⟩ := hq
      cases hanswer with
      | ask _ hret =>
          cases hret
          exact grows_refl listeners

theorem keepsSpans_runHandler (wrap : Message Payload → Except Failure Decision → Except Failure Decision) :
    KeepsSpans carrier (unheard (runHandler wrap) : Rest Payload (Tracer.sum S)) := by
  intro context listeners u handled listeners' hrun
  cases hrun with
  | ask _ hret =>
      cases hret
      exact grows_refl listeners

/-- Any number of interceptors, the tracing one among them any number of times. -/
theorem keepsSpans_chain {system : String} {interceptors : List (Interceptor Payload (Tracer.sum S))}
    (hinterceptors : ∀ interceptor ∈ interceptors, interceptor = consumeInterceptor system ∨ Untraced interceptor)
    {handle : Rest Payload (Tracer.sum S)} (hhandle : KeepsSpans carrier handle) :
    KeepsSpans carrier (interceptedChain true interceptors handle) := by
  induction interceptors with
  | nil => exact hhandle
  | cons interceptor rest ih =>
      obtain ⟨hfirst, hrest⟩ := List.forall_mem_cons.mp hinterceptors
      obtain rfl | huntraced := hfirst
      · exact (ih hrest).traced system
      · exact (ih hrest).untraced huntraced

/-! ## Once the delivery is decided about -/

theorem exists_own {base spans : List Span} {P : Span → Prop} (hkept : base <+: spans)
    (hP : ∀ i, base.length ≤ i → ∀ span, spans[i]? = some span → P span) :
    ∃ own, spans = base ++ own ∧ ∀ span ∈ own, P span := by
  obtain ⟨own, rfl⟩ := hkept
  refine ⟨own, rfl, fun span hspan ↦ ?_⟩
  obtain ⟨i, hi⟩ := List.mem_iff_getElem?.mp hspan
  apply hP (base.length + i) (Nat.le_add_right _ _)
  rw [List.getElem?_append_right (Nat.le_add_right _ _), Nat.add_sub_cancel_left]
  exact hi

theorem Opened.settled {base spans spans' : List Span} {listeners : Listeners Payload (Tracer.sum S)}
    (h : Opened base spans listeners) {A : Assumption (Tracer.sum S)} {context : ConsumeContext Payload}
    {settlement : Settlement} {t : List (Event (Tracer.sum S))} {x : Except Failure Unit}
    (hrun : Runs A (Consumer.settled context settlement listeners) t x)
    (hfollows : Follows (keep carrier) spans (inners t) spans') :
    base <+: spans' ∧ ∀ i, base.length ≤ i → ∀ span, spans'[i]? = some span →
      span.Settled context.queue context.envelope settlement ∨ span.Open ∧ ∃ failure, x = .error failure := by
  have hmem (i : ℕ) : i ∈ List.range' base.length (spans.length - base.length) ↔
      base.length ≤ i ∧ i < spans.length := by
    have hle := h.kept.length_le
    rw [List.mem_range'_1]
    omega
  have hrow := settled_recorders h.told (List.nodup_range' ..)
    (fun i hi ↦ h.opened i ((hmem i).mp hi).1) hrun hfollows
  constructor
  · rw [List.prefix_iff_getElem?]
    intro i hi
    rw [(hrow i).1 fun hin ↦ by have := (hmem i).mp hin; omega]
    exact List.prefix_iff_getElem?.mp h.kept i hi
  · intro i hi span hspan
    by_cases hin : i < spans.length
    · exact (hrow i).2 ((hmem i).mpr ⟨hi, hin⟩) span hspan
    · rw [(hrow i).1 fun h ↦ hin ((hmem i).mp h).2, List.getElem?_eq_none (Nat.le_of_not_lt hin)] at hspan
      cases hspan

/-- How the spans of a delivery come out of its handling. -/
inductive Ended (c : Consumer) (d : Delivery) (own : List Span)
    (t : List (Event (Around Payload (Tracer.sum S)))) (x : Except Failure Unit) : Prop
  /-- It was not given to the chain. -/
  | unhandled : own = [] → Ended c d own t x
  /-- What the spans say is what is then done about it. -/
  | carriedOut {before after : List (Event (Around Payload (Tracer.sum S)))} {context : ConsumeContext Payload}
      {settlement : Settlement} {wait : Option Wait} : t = before ++ after → settlements (inners before) = [] →
      Runs (Anything _) (aside (c.carryOut d context.envelope settlement wait)) after x →
      (∀ span ∈ own, span.Settled context.queue context.envelope settlement) → Ended c d own t x
  /-- It is left to the broker. -/
  | cutOff {failure : Failure} : x = .error failure → settlements (inners t) = [] →
      (∀ span ∈ own, span.ends = 0) ∨ failure.isException = false ∧ (∀ span ∈ own, span.ends ≤ 1) →
      Ended c d own t x

theorem Ended.after {c : Consumer} {d : Delivery} {own : List Span}
    {before t : List (Event (Around Payload (Tracer.sum S)))}
    {x : Except Failure Unit} (hbefore : settlements (inners before) = []) (h : Ended c d own t x) :
    Ended c d own (before ++ t) x := by
  have hsettlements (t' : List (Event (Around Payload (Tracer.sum S)))) :
      settlements (inners (before ++ t')) = settlements (inners t') := by
    rw [inners_append, settlements, List.filterMap_append]
    exact (congrArg (· ++ _) hbefore).trans (List.nil_append _)
  cases h with
  | unhandled hown => exact .unhandled hown
  | carriedOut ht hunsettled hcarry hown =>
      subst ht
      exact .carriedOut (List.append_assoc ..).symm ((hsettlements _).trans hunsettled) hcarry hown
  | cutOff hx hunsettled hown => exact .cutOff hx ((hsettlements _).trans hunsettled) hown

section attend

variable {c : Consumer} {d : Delivery} {base spans spans' : List Span}
  {t : List (Event (Around Payload (Tracer.sum S)))} {x : Except Failure Unit}

theorem announce_ended {handled : Handled Payload × Listeners Payload (Tracer.sum S)}
    (hopened : Opened base spans handled.2) (hrun : Runs (Anything _) (c.announce d handled) t x)
    (hfollows : Follows (keep carrier) spans (tracings (outers t)) spans') :
    ∃ own, spans' = base ++ own ∧ Ended c d own t x := by
  rw [announce, runs_bind] at hrun
  obtain ⟨failure, rfl, hdecide⟩ | ⟨t₁, t, decided, rfl, hdecide, hrun⟩ := hrun
  · obtain ⟨hdecided, hnone⟩ := runs_aside hdecide
    rw [hnone] at hfollows
    obtain rfl := hfollows
    obtain ⟨own, rfl, hown⟩ := exists_own hopened.kept hopened.opened
    exact ⟨own, rfl, .cutOff rfl (settlements_decideOn hdecided) (.inl fun span hspan ↦ (hown span hspan).ends)⟩
  obtain ⟨hdecided, hnone⟩ := runs_aside hdecide
  rw [outers_append, hnone, List.nil_append] at hfollows
  obtain ⟨failure, rfl, htold⟩ | ⟨told, after, _, rfl, htold, hcarry⟩ := runs_bind.mp hrun
  · obtain ⟨hbeside, hinners⟩ := outers_of_beside htold
    obtain ⟨hsettled, -⟩ := outers_of_beside hbeside
    obtain ⟨hkept, hrows⟩ := hopened.settled hsettled hfollows
    obtain ⟨own, rfl, hown⟩ := exists_own hkept hrows
    refine ⟨own, rfl, .cutOff rfl ?_ (.inr ⟨settled_raises hsettled, fun span hspan ↦ ?_⟩)⟩
    · rw [inners_append, hinners, List.append_nil]
      exact settlements_decideOn hdecided
    · obtain hdone | ⟨hopen, -⟩ := hown span hspan
      · exact hdone.ends.le
      · exact hopen.ends.le.trans zero_le_one
  · obtain ⟨hbeside, hinners⟩ := outers_of_beside htold
    obtain ⟨hsettled, -⟩ := outers_of_beside hbeside
    rw [outers_append, (runs_aside hcarry).2, List.append_nil] at hfollows
    obtain ⟨hkept, hrows⟩ := hopened.settled hsettled hfollows
    obtain ⟨own, rfl, hown⟩ := exists_own hkept hrows
    refine ⟨own, rfl, .carriedOut (List.append_assoc t₁ told after).symm ?_ hcarry fun span hspan ↦ ?_⟩
    · rw [inners_append, hinners, List.append_nil]
      exact settlements_decideOn hdecided
    · obtain hdone | ⟨-, failure, hfailure⟩ := hown span hspan
      · exact hdone
      · cases hfailure

theorem attend_ended {chain : Rest Payload (Tracer.sum S)} (hchain : KeepsSpans carrier chain) {fresh : String}
    {read : Instant} (hrun : Runs (Anything _) (c.attend chain fresh read d) t x)
    (hfollows : Follows (keep carrier) base (tracings (outers t)) spans') :
    ∃ own, spans' = base ++ own ∧ Ended c d own t x := by
  have hquiet : outers t = [] → ∃ own, spans' = base ++ own ∧ Ended c d own t x := by
    intro hnone
    rw [hnone] at hfollows
    exact ⟨[], hfollows.symm.trans (List.append_nil base).symm, .unhandled rfl⟩
  cases hread : arrive fresh read d with
  | error failure =>
      rw [attend_unreadable hread] at hrun
      cases hrun
      exact hquiet rfl
  | ok envelope =>
      cases hhalted : c.halted with
      | true =>
          rw [attend_halted hhalted hread] at hrun
          exact hquiet (runs_aside hrun).2
      | false =>
          rw [attend_decodes hhalted hread] at hrun
          cases hrun with
          | @ask _ _ decoded t _ hA hrun =>
          cases decoded with
          | error failure =>
              dsimp only at hrun
              split at hrun
              · exact hquiet (runs_aside hrun).2
              · cases hrun
                exact hquiet rfl
          | ok payload =>
              obtain ⟨t₁, t₂, handled, rfl, hbeside, hannounce⟩ := runs_andThen.mp hrun
              obtain ⟨hhandled, hnone⟩ := outers_of_beside hbeside
              change Follows _ base (tracings (outers (t₁ ++ t₂))) _ at hfollows
              rw [outers_append, tracings_append, follows_append] at hfollows
              obtain ⟨spans, hchained, hfollows⟩ := hfollows
              obtain ⟨hopened, -⟩ := hchain _ _ _ _ _ hhandled base base spans (opened_nil base) hchained
              obtain ⟨own, hspans, hended⟩ := announce_ended hopened hannounce hfollows
              have hbefore : settlements (inners (⟨.inl (.decode d.body d.contentType), .ok payload⟩ :: t₁)) = [] := by
                show settlements (inners t₁) = []
                rw [hnone]
                rfl
              exact ⟨own, hspans, hended.after hbefore⟩

end attend

/-- The process spans of a delivery, whichever interceptors there are and whatever they, the handler and
the broker do.  A delivery that is settled has ended each of them once; what they say is what was done. -/
theorem process_spans_end (system : String) {interceptors : List (Interceptor Payload (Tracer.sum S))}
    (hinterceptors : ∀ interceptor ∈ interceptors, interceptor = consumeInterceptor system ∨ Untraced interceptor)
    (wrap : Message Payload → Except Failure Decision → Except Failure Decision) (c : Consumer) (fresh : String)
    (read : Instant) (d : Delivery) {t : List (Event (Around Payload (Tracer.sum S)))} {x : Except Failure Unit}
    (hrun : Runs (Anything _)
      (c.attend (interceptedChain true interceptors (unheard (runHandler wrap))) fresh read d) t x)
    {base spans : List Span} (hfollows : Follows (keep carrier) base (tracings (outers t)) spans) :
    ∃ own, spans = base ++ own ∧ Ended c d own t x ∧
      (settlements (inners t) ≠ [] → ∀ span ∈ own, span.ends = 1) := by
  have hchain := keepsSpans_chain hinterceptors (@keepsSpans_runHandler Payload S carrier wrap)
  obtain ⟨own, hspans, hended⟩ := attend_ended hchain hrun hfollows
  refine ⟨own, hspans, hended, fun hsettled span hspan ↦ ?_⟩
  cases hended with
  | unhandled hown => exact absurd (hown ▸ hspan) List.not_mem_nil
  | carriedOut _ _ _ hown => exact (hown span hspan).ends
  | cutOff _ hunsettled => exact absurd hunsettled hsettled

/-! A consumer of the queue `orders`, its one interceptor the tracing one, and a handler that accepts. -/

abbrev Alone : Interface := ⟨Empty, fun _ ↦ Empty⟩

def orders : Consumer := ⟨⟨5000000, 1000⟩, "orders", fixedRetry 3 0, false⟩

def order : Delivery := ⟨7, [104, 105], none, "orders", "m1", ∅, false, ""⟩

def accepted : List (Event (Around Unit (Tracer.sum Alone))) :=
  let context : ConsumeContext Unit := orders.contextOf order (Envelope.new "m1" "orders" 0) ()
  [⟨.inl (.decode order.body none), .ok ()⟩, ⟨.inr (.inr (.inl (startProcess "rabbitmq" context))), (0 : ℕ)⟩,
    ⟨.inr (.inl context.message), .ok (.ack .accept)⟩,
    ⟨.inr (.inr (.inl (.write 0 (.setAttribute attrOutcome (.text "acked"))))), ()⟩,
    ⟨.inr (.inr (.inl (.write 0 (.setAttribute attrOutcome (.text "acked"))))), ()⟩,
    ⟨.inr (.inr (.inl (.write 0 .finish))), ()⟩, ⟨.inl (.ack 7), .ok ()⟩]

theorem runs_accepted : Runs (Anything _) (orders.attend (interceptedChain true [consumeInterceptor "rabbitmq"]
    (unheard (runHandler fun _ answer ↦ answer))) "" 0 order) accepted (.ok ()) := by
  have hread : arrive "" 0 order = .ok (Envelope.new "m1" "orders" 0) := arrive_empty rfl
  rw [attend_decodes rfl hread]
  refine .ask trivial (.ask trivial (.ask trivial (.ask trivial ?_)))
  exact .ask trivial (.ask trivial (.ask trivial (.ret ())))

/-- Its one span ends. -/
theorem process_spans_end_orders :
    let spans := (tracings (outers accepted)).foldl (fun spans event ↦ (keep (fun _ ↦ ∅) spans event.1).2) []
    spans.length = 1 ∧ settlements (inners accepted) = [.ack 7] ∧
      ∃ own, spans = [] ++ own ∧ Ended orders order own accepted (.ok ()) ∧
        (settlements (inners accepted) ≠ [] → ∀ span ∈ own, span.ends = 1) := by
  intro spans
  have hfollows : Follows (keep fun _ ↦ ∅) [] (tracings (outers accepted)) spans := ⟨rfl, rfl, rfl, rfl, rfl⟩
  refine ⟨rfl, rfl, process_spans_end "rabbitmq" ?_ _ orders "" 0 order runs_accepted hfollows⟩
  exact fun interceptor hmem ↦ .inl (List.mem_singleton.mp hmem)

/-! ## A chain that nobody drives -/

/-- No span is left open, and none that was there is touched. -/
def Leaves (carrier : ℕ → Dict String String) (u : List (Event (Inside Payload (Tracer.sum S)))) : Prop :=
  ∀ spans spans', Follows (keep carrier) spans (tracings u) spans' →
    spans <+: spans' ∧ ∀ i, spans.length ≤ i → ∀ span, spans'[i]? = some span → span.ends = 1

theorem leaves_nil : Leaves carrier ([] : List (Event (Inside Payload (Tracer.sum S)))) := by
  intro spans spans' hfollows
  obtain rfl := hfollows
  exact ⟨List.prefix_rfl, fun i hi span hspan ↦ nomatch (List.getElem?_eq_none hi).symm.trans hspan⟩

theorem Leaves.append {u u' : List (Event (Inside Payload (Tracer.sum S)))} (h : Leaves carrier u)
    (h' : Leaves carrier u') : Leaves carrier (u ++ u') := by
  intro spans spans' hfollows
  rw [tracings_append, follows_append] at hfollows
  obtain ⟨between, hfirst, hsecond⟩ := hfollows
  obtain ⟨hkept, hended⟩ := h spans between hfirst
  obtain ⟨hkept', hended'⟩ := h' between spans' hsecond
  refine ⟨hkept.trans hkept', fun i hi span hspan ↦ ?_⟩
  by_cases hbetween : i < between.length
  · rw [List.prefix_iff_getElem?.mp hkept' i hbetween] at hspan
    exact hended i hi span ((List.getElem?_eq_getElem hbetween).trans hspan)
  · exact hended' i (Nat.le_of_not_lt hbetween) span hspan

/-- Where no settlement is going to be reported, a span ends when its interceptor does. -/
theorem leaves_chain {system : String} {interceptors : List (Interceptor Payload (Tracer.sum S))}
    (hinterceptors : ∀ interceptor ∈ interceptors, interceptor = consumeInterceptor system ∨ Untraced interceptor)
    (wrap : Message Payload → Except Failure Decision → Except Failure Decision)
    {context : ConsumeContext Payload} {listeners listeners' : Listeners Payload (Tracer.sum S)}
    {u : List (Event (Inside Payload (Tracer.sum S)))} {handled : Handled Payload}
    (hrun : Runs (Anything _) (interceptedChain false interceptors (unheard (runHandler wrap)) context listeners) u
      (.ok (handled, listeners'))) : Leaves carrier u := by
  induction interceptors generalizing context listeners u handled listeners' with
  | nil =>
      cases hrun with
      | ask _ hret =>
          cases hret
          exact @leaves_nil Payload S carrier
  | cons interceptor rest ih =>
      obtain ⟨hfirst, hrest⟩ := List.forall_mem_cons.mp hinterceptors
      obtain rfl | huntraced := hfirst
      · intro spans spans' hfollows
        obtain ⟨span, answer, between, rested, hopen, hrun, hrested, rfl⟩ := exists_traced hrun hfollows
        obtain ⟨hkept, hended⟩ := ih hrest hrun _ rested hrested
        rw [List.length_append, List.length_singleton] at hended
        have hown : rested[spans.length]? = some span := by
          rw [List.prefix_iff_getElem?.mp hkept spans.length (by simp)]
          simp
        constructor
        · rw [List.prefix_iff_getElem?]
          intro i hi
          rw [List.getElem?_modify, List.prefix_iff_getElem?.mp ((List.prefix_append _ _).trans hkept) i hi]
          simp [hi.ne']
        · intro i hi row hrow
          rw [List.getElem?_modify] at hrow
          obtain ⟨before, hbefore, rfl⟩ := Option.map_eq_some_iff.mp hrow
          obtain rfl | hlater := hi.eq_or_lt
          · obtain rfl := Option.some.inj (hown.symm.trans hbefore)
            rw [if_pos rfl, wayOut, List.foldl_append]
            exact congrArg (· + 1) (hopen.writes (provisional_noted _)).ends
          · rw [if_neg hlater.ne]
            exact hended i hlater before hbefore
      · refine Runs.through_keeps (R := fun _ u _ ↦ Leaves carrier u) (fun _ ↦ leaves_nil) Leaves.append ?_
          (huntraced context) hrun
        intro q listeners u r listeners' hq hanswer
        cases q with
        | handle context => exact ih hrest hanswer
        | whenSettled listener =>
            cases hanswer
            exact leaves_nil
        | other q =>
            obtain ⟨q', rfl⟩ := hq
            cases hanswer with
            | ask _ hret =>
                cases hret
                exact @leaves_nil Payload S carrier

end Tracing

end AcemqAmqp
