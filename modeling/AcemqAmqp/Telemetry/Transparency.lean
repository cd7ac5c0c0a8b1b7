import AcemqAmqp.Telemetry.Spans

/-!
# What tracing changes

A consumer that is traced does what it does without, with one exception: where
the rest of the chain answers with something that is no `Ack`, the interceptor
looks for its action and raises.  So tracing is an interceptor that insists on
an `Ack`, and otherwise none.
-/

namespace AcemqAmqp

namespace Tracing

open Interaction Program Consumer

variable {Payload : Type} {S : Interface}

/-- What is left of the tracing interceptor when nothing is written down. -/
def insist : Interceptor Payload S := fun context ↦
  .ask (I := Intercepting Payload S) (.handle context) fun handled ↦ .ret (handled.1, handedOn handled.2)

/-- An `Ack`, or an exception. -/
def Acks : Except Failure Decision → Prop
  | .ok (.other _) => False
  | _ => True

theorem handedOn_of_acks {answer : Except Failure Decision} (h : Acks answer) : handedOn answer = answer := by
  rcases answer with failure | (ack | typeName)
  · rfl
  · rfl
  · exact h.elim

/-! ## What is not for the tracer -/

def elsewhere : Event (Tracer.sum S) → Bool
  | ⟨.inl _, _⟩ => false
  | ⟨.inr _, _⟩ => true

def spoken : Event (Inside Payload (Tracer.sum S)) → Bool
  | ⟨.inr (.inl _), _⟩ => false
  | _ => true

def untraced : Event (Around Payload (Tracer.sum S)) → Bool
  | ⟨.inr (.inr (.inl _)), _⟩ => false
  | _ => true

theorem filter_spoken_outward (u : List (Event (Tracer.sum S))) :
    (u.map outward : List (Event (Inside Payload (Tracer.sum S)))).filter spoken =
      (u.filter elsewhere).map outward := by
  rw [List.filter_map]
  refine congrArg _ (List.filter_congr fun event _ ↦ ?_)
  obtain ⟨q | q, r⟩ := event <;> rfl

theorem filter_untraced_outward (u : List (Event (Inside Payload (Tracer.sum S)))) :
    (u.map outward : List (Event (Around Payload (Tracer.sum S)))).filter untraced = (u.filter spoken).map outward := by
  rw [List.filter_map]
  refine congrArg _ (List.filter_congr fun event _ ↦ ?_)
  obtain ⟨q | q | q, r⟩ := event <;> rfl

theorem filter_untraced_inward (u : List (Event (Consumer.Broker Payload))) :
    (u.map inward : List (Event (Around Payload (Tracer.sum S)))).filter untraced = u.map inward := by
  rw [List.filter_eq_self]
  intro event hevent
  obtain ⟨⟨q, r⟩, -, rfl⟩ := List.mem_map.mp hevent
  rfl

theorem filter_elsewhere_inward (u : List (Event Tracer)) :
    (u.map inward : List (Event (Tracer.sum S))).filter elsewhere = [] := by
  rw [List.filter_eq_nil_iff]
  intro event hevent
  obtain ⟨⟨q, r⟩, -, rfl⟩ := List.mem_map.mp hevent
  exact Bool.false_ne_true

theorem filter_elsewhere_eq {ε α : Type} {A : Assumption (Tracer.sum S)} {p : Program (Tracer.sum S) ε α}
    {t : List (Event (Tracer.sum S))} {x : Except ε α} (hp : p.Asks (Anything _) fun _ q ↦ Elsewhere q)
    (hrun : Runs A p t x) : t.filter elsewhere = t := by
  rw [List.filter_eq_self]
  intro event hevent
  obtain ⟨q', hq'⟩ := always_iff_runs.mp hp.always t x (hrun.mono fun _ _ _ ↦ trivial) event hevent
  obtain ⟨q, r⟩ := event
  subst hq'
  rfl

/-- Writing asks nobody else. -/
theorem spoken_of_traced {α : Type} {A : Assumption (Inside Payload (Tracer.sum S))} {p : Program Tracer Empty α}
    {t : List (Event (Inside Payload (Tracer.sum S)))} {x : Except Empty α}
    (hrun : Runs A (beside (aside p)) t x) : t.filter spoken = [] := by
  obtain ⟨u, rfl, hu⟩ := runs_beside_iff.mp hrun
  obtain ⟨v, rfl, -⟩ := runs_aside_iff.mp hu
  rw [filter_spoken_outward, filter_elsewhere_inward, List.map_nil]

/-! ## Listeners with and without those of spans -/

/-- The same listeners, but for those that end spans. -/
inductive Hears : Listeners Payload (Tracer.sum S) → Listeners Payload (Tracer.sum S) → Prop
  | nil : Hears [] []
  | recorder {span : ℕ} {listeners listeners' : Listeners Payload (Tracer.sum S)} :
      Hears listeners listeners' → Hears (settlementRecorder span :: listeners) listeners'
  | other {listener : SettlementListener Payload (Tracer.sum S)}
      {listeners listeners' : Listeners Payload (Tracer.sum S)} :
      (∀ context settlement, (listener context settlement).Asks (Anything _) fun _ q ↦ Elsewhere q) →
      Hears listeners listeners' → Hears (listener :: listeners) (listener :: listeners')

theorem Hears.append {listeners listeners' more more' : Listeners Payload (Tracer.sum S)}
    (h : Hears listeners listeners') (hmore : Hears more more') : Hears (listeners ++ more) (listeners' ++ more') := by
  induction h with
  | nil => exact hmore
  | recorder _ ih => exact .recorder ih
  | other hother _ ih => exact .other hother ih

theorem runs_writeAll_ok {ε : Type} {A : Assumption Tracer} {span : ℕ} {ws : List Write} {t : List (Event Tracer)}
    {x : Except ε Unit} (hrun : Runs A (writeAll span ws) t x) : x = .ok () := by
  induction ws generalizing t with
  | nil =>
      cases hrun
      rfl
  | cons w rest ih =>
      cases hrun with
      | ask _ hrest => exact ih hrest

theorem Hears.settled {listeners listeners' : Listeners Payload (Tracer.sum S)} (h : Hears listeners listeners')
    {A : Assumption (Tracer.sum S)} {context : ConsumeContext Payload} {settlement : Settlement}
    {t : List (Event (Tracer.sum S))} {x : Except Failure Unit}
    (hrun : Runs A (Consumer.settled context settlement listeners) t x) :
    Runs A (Consumer.settled context settlement listeners') (t.filter elsewhere) x := by
  induction h generalizing t with
  | nil =>
      cases hrun
      exact .ret ()
  | recorder _ ih =>
      rw [Consumer.settled, settlementRecorder, rescue_writeAll, runs_bind] at hrun
      obtain ⟨e, -, hwrites⟩ | ⟨t₁, t₂, _, rfl, hwrites, htold⟩ := hrun
      · cases runs_writeAll_ok (runs_aside hwrites).1
      · obtain ⟨u, rfl, -⟩ := runs_aside_iff.mp hwrites
        rw [List.filter_append, filter_elsewhere_inward, List.nil_append]
        exact ih htold
  | @other listener listeners listeners' hother _ ih =>
      have hquiet : ∀ {t₁ : List (Event (Tracer.sum S))} {y : Except Failure Unit},
          Runs A ((listener context settlement).rescue fun failure ↦
            if failure.isException then .ret () else .raise failure) t₁ y → t₁.filter elsewhere = t₁ := by
        refine filter_elsewhere_eq (Asks.rescue (hother _ _) fun failure ↦ ?_)
        split <;> trivial
      rw [Consumer.settled, runs_bind] at hrun
      obtain ⟨e, rfl, hlistener⟩ | ⟨t₁, t₂, _, rfl, hlistener, htold⟩ := hrun
      · rw [hquiet hlistener]
        exact hlistener.bind_error
      · rw [List.filter_append, hquiet hlistener]
        exact hlistener.bind_ok (ih htold)

/-! ## Chains with and without tracing -/

section chain

variable {Q : Except Failure Decision → Prop}
  {wrap : Message Payload → Except Failure Decision → Except Failure Decision}

/-- What the handler comes to. -/
def Handler (Q : Except Failure Decision → Prop)
    (wrap : Message Payload → Except Failure Decision → Except Failure Decision) : Assumption (Inside Payload S)
  | .inl message, outcome => Q (wrap message outcome)
  | .inr _, _ => True

/-- What an interceptor is promised by the rest of its chain. -/
def Promised (Q : Except Failure Decision → Prop) : Assumption (Intercepting Payload S)
  | .handle _, handled => Q handled.2
  | .whenSettled _, _ | .other _, _ => True

/-- An interceptor whose answers are as the rest's are. -/
def Answers (Q : Except Failure Decision → Prop) (interceptor : Interceptor Payload S) : Prop :=
  ∀ context, (interceptor context).Always (Promised Q) fun _ x ↦ onEnd x (fun handled ↦ Q handled.2) fun _ ↦ True

/-- `rest'` does what `rest` does, except for the tracer. -/
def Simulates (Q : Except Failure Decision → Prop)
    (wrap : Message Payload → Except Failure Decision → Except Failure Decision)
    (rest rest' : Rest Payload (Tracer.sum S)) : Prop :=
  ∀ context listeners listeners' u handled after, Hears listeners listeners' →
    Runs (Handler Q wrap) (rest context listeners) u (.ok (handled, after)) →
    Q handled.2 ∧ ∃ after', Hears after after' ∧
      Runs (Handler Q wrap) (rest' context listeners') (u.filter spoken) (.ok (handled, after'))

theorem simulates_runHandler : Simulates Q wrap (unheard (runHandler wrap) : Rest Payload (Tracer.sum S))
    (unheard (runHandler wrap)) := by
  intro context listeners listeners' u handled after hhears hrun
  cases hrun with
  | ask hA hret =>
      cases hret
      exact ⟨hA, listeners', hhears, .ask hA (.ret _)⟩

theorem Simulates.untraced {rest rest' : Rest Payload (Tracer.sum S)} (h : Simulates Q wrap rest rest')
    {interceptor : Interceptor Payload (Tracer.sum S)} (huntraced : Untraced interceptor)
    (hanswers : Answers Q interceptor) :
    Simulates Q wrap (consumeStep true interceptor rest) (consumeStep true interceptor rest') := by
  intro context listeners listeners' u handled after hhears hrun
  have hall := @Runs.through_simulates _ _ _ _ _ _ _ (Handler Q wrap) (Handler Q wrap) (answered true rest) _
    (answered true rest') _ (Promised Q) Hears (List.filter spoken) rfl List.filter_append ?_
    ((huntraced context).restrict fun _ _ _ ↦ trivial) _ _ hhears _ _ _ hrun
  · obtain ⟨⟨v, hv⟩, hsimulated⟩ := hall
    exact ⟨always_iff_runs.mp (hanswers context) v _ hv, hsimulated⟩
  · intro q listeners listeners' u r after hq hhears hanswer
    cases q with
    | handle context => exact h _ _ _ _ _ _ hhears hanswer
    | whenSettled listener =>
        cases hanswer
        exact ⟨trivial, _, hhears.append (.other hq .nil), .ret _⟩
    | other q =>
        obtain ⟨q', rfl⟩ := hq
        cases hanswer with
        | ask hA hret =>
            cases hret
            exact ⟨trivial, listeners', hhears, .ask hA (.ret _)⟩

/-- The tracing interceptor runs the rest, and hands on its answer. -/
theorem Simulates.exists_rest {rest rest' : Rest Payload (Tracer.sum S)} (h : Simulates Q wrap rest rest')
    {system : String} {context : ConsumeContext Payload}
    {listeners listeners' after : Listeners Payload (Tracer.sum S)}
    {u : List (Event (Inside Payload (Tracer.sum S)))} {handled : Handled Payload} (hhears : Hears listeners listeners')
    (hrun : Runs (Handler Q wrap) (consumeStep true (consumeInterceptor system) rest context listeners) u
      (.ok (handled, after))) :
    ∃ answer : Handled Payload, handled = (answer.1, handedOn answer.2) ∧ Q answer.2 ∧ ∃ after', Hears after after' ∧
      Runs (Handler Q wrap) (rest' context listeners') (u.filter spoken) (.ok (answer, after')) := by
  rw [consumeStep_traced, runs_bind] at hrun
  obtain ⟨impossible, -⟩ | ⟨t₁, t, span, rfl, hstart, hrun⟩ := hrun
  · exact impossible.elim
  obtain ⟨impossible, -⟩ | ⟨t₂, t, answered, rfl, hrest, hrun⟩ := runs_bind.mp hrun
  · exact impossible.elim
  obtain ⟨impossible, -⟩ | ⟨t₃, t, _, rfl, hwrites, hret⟩ := runs_bind.mp hrun
  · exact impossible.elim
  cases hret
  have hmore : Hears (listeners ++ [settlementRecorder span]) listeners' := by
    rw [← List.append_nil listeners']
    exact hhears.append (.recorder .nil)
  refine ⟨answered.1, rfl, ?_⟩
  rw [List.filter_append, List.filter_append, List.append_nil, spoken_of_traced hstart, spoken_of_traced hwrites,
    List.nil_append, List.append_nil]
  exact h _ _ _ _ _ _ hmore hrest

/-- The first list is the second with tracing put in, in any places. -/
inductive Traces (system : String) (Q : Except Failure Decision → Prop) :
    List (Interceptor Payload (Tracer.sum S)) → List (Interceptor Payload (Tracer.sum S)) → Prop
  | nil : Traces system Q [] []
  | traced {interceptors plain : List (Interceptor Payload (Tracer.sum S))} :
      Traces system Q interceptors plain → Traces system Q (consumeInterceptor system :: interceptors) plain
  | other {interceptor : Interceptor Payload (Tracer.sum S)}
      {interceptors plain : List (Interceptor Payload (Tracer.sum S))} : Untraced interceptor →
      Answers Q interceptor → Traces system Q interceptors plain →
      Traces system Q (interceptor :: interceptors) (interceptor :: plain)

/-- The first list is the second with tracing wherever the second insists on an `Ack`. -/
def Insists (system : String) : List (Interceptor Payload (Tracer.sum S)) →
    List (Interceptor Payload (Tracer.sum S)) → Prop :=
  List.Forall₂ fun interceptor plain ↦ interceptor = consumeInterceptor system ∧ plain = insist ∨
    Untraced interceptor ∧ plain = interceptor

theorem simulates_of_insists {system : String} {interceptors plain : List (Interceptor Payload (Tracer.sum S))}
    (h : Insists system interceptors plain) :
    Simulates (fun _ ↦ True) wrap (interceptedChain true interceptors (unheard (runHandler wrap)))
      (interceptedChain true plain (unheard (runHandler wrap))) := by
  induction h with
  | nil => exact simulates_runHandler
  | cons hfirst _ ih =>
      obtain ⟨rfl, rfl⟩ | ⟨huntraced, rfl⟩ := hfirst
      · intro context listeners listeners' u handled after hhears hrun
        obtain ⟨answer, rfl, -, after', hafter, hrest⟩ := ih.exists_rest hhears hrun
        refine ⟨trivial, after', hafter, ?_⟩
        rw [← List.append_nil (u.filter spoken)]
        exact hrest.bind_ok (.ret _)
      · refine ih.untraced huntraced fun context ↦ always_iff_runs.mpr fun t x _ ↦ ?_
        cases x <;> trivial

theorem simulates_of_traces {system : String} {interceptors plain : List (Interceptor Payload (Tracer.sum S))}
    (h : Traces system Acks interceptors plain) :
    Simulates Acks wrap (interceptedChain true interceptors (unheard (runHandler wrap)))
      (interceptedChain true plain (unheard (runHandler wrap))) := by
  induction h with
  | nil => exact simulates_runHandler
  | traced _ ih =>
      intro context listeners listeners' u handled after hhears hrun
      obtain ⟨answer, rfl, hacks, hrest⟩ := ih.exists_rest hhears hrun
      rw [handedOn_of_acks hacks]
      exact ⟨hacks, hrest⟩
  | other huntraced hanswers _ ih => exact ih.untraced huntraced hanswers

end chain

/-! ## Deliveries with and without tracing -/

section attend

variable {Q : Except Failure Decision → Prop}
  {wrap : Message Payload → Except Failure Decision → Except Failure Decision}
  {c : Consumer} {d : Delivery} {t : List (Event (Around Payload (Tracer.sum S)))} {x : Except Failure Unit}

/-- The handler comes to what satisfies `Q`, and the broker does anything. -/
def Handling (Q : Except Failure Decision → Prop)
    (wrap : Message Payload → Except Failure Decision → Except Failure Decision) : Assumption (Around Payload S) :=
  Assumption.sum (Anything _) (Handler Q wrap)

theorem announce_untraced {handled : Handled Payload} {listeners listeners' : Listeners Payload (Tracer.sum S)}
    (hhears : Hears listeners listeners') (hrun : Runs (Handling Q wrap) (c.announce d (handled, listeners)) t x) :
    Runs (Handling Q wrap) (c.announce d (handled, listeners')) (t.filter untraced) x := by
  rw [announce, runs_bind] at hrun
  obtain ⟨failure, rfl, hdecide⟩ | ⟨t₁, t, decided, rfl, hdecide, hrun⟩ := hrun
  · obtain ⟨u, rfl, -⟩ := runs_aside_iff.mp hdecide
    rw [filter_untraced_inward]
    exact hdecide.bind_error
  have htold : ∀ {told : List (Event (Around Payload (Tracer.sum S)))} {y : Except Failure Unit},
      Runs (Handling Q wrap) (beside (beside (settled handled.1 decided.1 listeners))) told y →
      Runs (Handling Q wrap) (beside (beside (settled handled.1 decided.1 listeners'))) (told.filter untraced) y := by
    intro told y htold
    obtain ⟨u, rfl, hbeside⟩ := runs_beside_iff.mp htold
    obtain ⟨v, rfl, hsettled⟩ := runs_beside_iff.mp hbeside
    rw [filter_untraced_outward, filter_spoken_outward]
    exact runs_beside_iff.mpr ⟨_, rfl, runs_beside_iff.mpr ⟨_, rfl, hhears.settled hsettled⟩⟩
  have hdecide' : t₁.filter untraced = t₁ := by
    obtain ⟨u, rfl, -⟩ := runs_aside_iff.mp hdecide
    exact filter_untraced_inward u
  rw [List.filter_append, hdecide']
  refine hdecide.bind_ok ?_
  obtain ⟨failure, rfl, hraised⟩ | ⟨told, after, _, rfl, hquiet, hcarry⟩ := runs_bind.mp hrun
  · exact (htold hraised).bind_error
  · obtain ⟨u, rfl, -⟩ := runs_aside_iff.mp hcarry
    rw [List.filter_append, filter_untraced_inward]
    exact (htold hquiet).bind_ok hcarry

theorem attend_untraced {chain plain : Rest Payload (Tracer.sum S)} (h : Simulates Q wrap chain plain) {fresh : String}
    {read : Instant} (hrun : Runs (Handling Q wrap) (c.attend chain fresh read d) t x) :
    Runs (Handling Q wrap) (c.attend plain fresh read d) (t.filter untraced) x := by
  have hown : ∀ {p : Consumer.Step Payload Unit} {t : List (Event (Around Payload (Tracer.sum S)))},
      Runs (Handling Q wrap) (aside p) t x → Runs (Handling Q wrap) (aside p) (t.filter untraced) x := by
    intro p t hrun
    obtain ⟨u, rfl, -⟩ := runs_aside_iff.mp hrun
    rwa [filter_untraced_inward]
  cases hread : arrive fresh read d with
  | error failure =>
      rw [attend_unreadable hread] at hrun ⊢
      cases hrun
      exact .raise _
  | ok envelope =>
      cases hhalted : c.halted with
      | true =>
          rw [attend_halted hhalted hread] at hrun ⊢
          exact hown hrun
      | false =>
          rw [attend_decodes hhalted hread] at hrun ⊢
          cases hrun with
          | @ask _ _ decoded t _ hA hrun =>
          refine .ask hA ?_
          cases decoded with
          | error failure =>
              dsimp only at hrun ⊢
              split at hrun
              · rw [if_pos ‹_›]
                exact hown hrun
              · rw [if_neg ‹_›]
                cases hrun
                exact .raise _
          | ok payload =>
              obtain ⟨t₁, t₂, ⟨handled, listeners⟩, rfl, hbeside, hannounce⟩ := runs_andThen.mp hrun
              obtain ⟨u, rfl, hhandled⟩ := runs_beside_iff.mp hbeside
              obtain ⟨-, listeners', hhears, hplain⟩ := h _ _ _ _ _ _ .nil hhandled
              refine runs_andThen.mpr ⟨_, _, (handled, listeners'), List.filter_append .., ?_, ?_⟩
              · rw [filter_untraced_outward]
                exact runs_beside_iff.mpr ⟨_, rfl, hplain⟩
              · exact announce_untraced hhears hannounce

end attend

/-- What a traced consumer does with a delivery is what it does where, in the places of tracing, there is
an interceptor that insists on an `Ack`.  Where the handler and the other interceptors answer with one or
raise, it is what the consumer does without tracing. -/
theorem tracing_unnoticed {system : String} {interceptors : List (Interceptor Payload (Tracer.sum S))}
    {wrap : Message Payload → Except Failure Decision → Except Failure Decision} {c : Consumer} {fresh : String}
    {read : Instant} {d : Delivery} {t : List (Event (Around Payload (Tracer.sum S)))} {x : Except Failure Unit} :
    (∀ insisting, Insists system interceptors insisting →
      Runs (Anything _) (c.attend (interceptedChain true interceptors (unheard (runHandler wrap))) fresh read d) t x →
      Runs (Anything _) (c.attend (interceptedChain true insisting (unheard (runHandler wrap))) fresh read d)
        (t.filter untraced) x) ∧
    ∀ plain, Traces system Acks interceptors plain →
      Runs (Handling Acks wrap) (c.attend (interceptedChain true interceptors (unheard (runHandler wrap))) fresh read d)
        t x →
      Runs (Handling Acks wrap) (c.attend (interceptedChain true plain (unheard (runHandler wrap))) fresh read d)
        (t.filter untraced) x := by
  refine ⟨fun insisting hinsists hrun ↦ ?_, fun plain htraces hrun ↦ attend_untraced (simulates_of_traces htraces) hrun⟩
  have hany (q : (Around Payload (Tracer.sum S)).Act) (r : (Around Payload (Tracer.sum S)).Ans q) :
      Handling (fun _ ↦ True) wrap q r := by
    rcases q with q | q | q <;> trivial
  exact (attend_untraced (simulates_of_insists hinsists) (hrun.mono fun q r _ ↦ hany q r)).mono fun _ _ _ ↦ trivial

theorem tracing_unnoticed_orders :
    Runs (Anything _) (orders.attend (interceptedChain true [insist] (unheard (runHandler fun _ answer ↦ answer)))
        "" 0 order) (accepted.filter untraced) (.ok ()) ∧
      Runs (Handling Acks fun _ answer ↦ answer) (orders.attend (interceptedChain true []
        (unheard (runHandler fun _ answer ↦ answer))) "" 0 order) (accepted.filter untraced) (.ok ()) := by
  constructor
  · exact tracing_unnoticed.1 _ (.cons (.inl ⟨rfl, rfl⟩) .nil) runs_accepted
  · refine tracing_unnoticed.2 _ (.traced .nil) (runs_accepted.restrict ?_)
    simp only [accepted, List.forall_mem_cons]
    exact ⟨trivial, trivial, trivial, trivial, trivial, trivial, trivial, fun _ h ↦ absurd h List.not_mem_nil⟩

end Tracing

end AcemqAmqp
