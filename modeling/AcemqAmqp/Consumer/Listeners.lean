import AcemqAmqp.Consumer.Settling
import AcemqAmqp.Foundations.Layers

/-!
# Being told how a delivery ended

Interceptors that may ask to be told (`when_settled`), and the consumer that
tells them (`settled`) between its decision and what it does about it.  An
interceptor is a program that asks for the rest of the chain, so it may run it
any number of times, in its own `try`, or not at all.

Nobody who is told can change the course of a delivery.
-/

namespace AcemqAmqp

namespace Consumer

open Interaction Program

variable {Payload : Type} {S : Interface}

/-- What a listener does once it is told.  It looks at the context as the chain left it. -/
abbrev SettlementListener (Payload : Type) (S : Interface) : Type :=
  ConsumeContext Payload → Settlement → Program S Failure Unit

/-- The context as it was left, and what was returned or raised. -/
abbrev Handled (Payload : Type) : Type := ConsumeContext Payload × Except Failure Decision

namespace Interceptor

inductive Act (Payload : Type) (S : Interface)
  | handle (context : ConsumeContext Payload)
  | whenSettled (listener : SettlementListener Payload S)
  | other (q : S.Act)

end Interceptor

/-- What an interceptor is surrounded by. -/
abbrev Intercepting (Payload : Type) (S : Interface) : Interface where
  Act := Interceptor.Act Payload S
  Ans
    | .handle _ => Handled Payload
    | .whenSettled _ => Bool
    | .other q => S.Ans q

abbrev Interceptor (Payload : Type) (S : Interface) : Type :=
  ConsumeContext Payload → Program (Intercepting Payload S) Empty (Handled Payload)

abbrev Listeners (Payload : Type) (S : Interface) : Type := List (SettlementListener Payload S)

/-- The rest of a delivery, with the listeners that the context has. -/
abbrev Rest (Payload : Type) (S : Interface) : Type :=
  ConsumeContext Payload → Listeners Payload S →
    Program (Inside Payload S) Empty (Handled Payload × Listeners Payload S)

/-- `when_settled`, for a context whose settlement will be reported, or will not. -/
def whenSettled (reports : Bool) (listener : SettlementListener Payload S) (listeners : Listeners Payload S) :
    Bool × Listeners Payload S :=
  if reports then (true, listeners ++ [listener]) else (false, listeners)

/-- What an interceptor asks, answered. -/
def answered (reports : Bool) (rest : Rest Payload S) (listeners : Listeners Payload S) :
    (q : Interceptor.Act Payload S) →
      Program (Inside Payload S) Empty ((Intercepting Payload S).Ans q × Listeners Payload S)
  | .handle context => rest context listeners
  | .whenSettled listener => .ret (whenSettled reports listener listeners)
  | .other q => .ask (I := Inside Payload S) (.inr q) fun r ↦ .ret (r, listeners)

/-- `_consume_step`. -/
def consumeStep (reports : Bool) (interceptor : Interceptor Payload S) (rest : Rest Payload S) : Rest Payload S :=
  fun context ↦ (interceptor context).through (answered reports rest)

/-- `consume_chain`, of interceptors that may be told. -/
def interceptedChain (reports : Bool) (interceptors : List (Interceptor Payload S)) (handle : Rest Payload S) :
    Rest Payload S :=
  interceptors.foldr (consumeStep reports) handle

/-- Handling without anybody who asks to be told. -/
def unheard (handle : ConsumeNext Payload S) : Rest Payload S := fun context listeners ↦
  (handle context).bind fun handled ↦ .ret (handled, listeners)

/-- The chain, for one who does not care who has asked to be told. -/
def forgetting (chain : Rest Payload S) : ConsumeNext Payload S := fun context ↦
  (chain context []).bind fun handled ↦ .ret handled.1

/-- `settled`: an exception of a listener is logged. -/
def settled (context : ConsumeContext Payload) (settlement : Settlement) :
    Listeners Payload S → Program S Failure Unit
  | [] => .ret ()
  | listener :: rest =>
      ((listener context settlement).rescue fun failure ↦
        if failure.isException then .ret () else .raise failure).bind fun _ ↦ settled context settlement rest

variable (c : Consumer)

/-- What the consumer decides on the answer of the chain. -/
def decideOn (envelope : Envelope) : Except Failure Decision → Step Payload (Settlement × Option Wait)
  | .ok (.ack decision) => c.decide envelope decision
  | .ok (.other typeName) => .ret (⟨.deadLettered,
      some ("the handler returned " ++ typeName ++ " instead of an Ack"), none⟩, none)
  | .error failure =>
      if failure.isException then c.decide envelope (.retry (some failure)) else .raise failure

/-- `_handle_one` from the answer of the chain on. -/
def announce (d : Delivery) (handled : Handled Payload × Listeners Payload S) :
    Program (Around Payload S) Failure Unit :=
  (aside (c.decideOn handled.1.1.envelope handled.1.2)).bind fun decided ↦
    (beside (beside (settled handled.1.1 decided.1 handled.2))).bind fun _ ↦
      aside (c.carryOut d handled.1.1.envelope decided.1 decided.2)

/-- One delivery, from arrival to settlement, with those who are told of it. -/
def attend (chain : Rest Payload S) (fresh : String) (read : Instant) (d : Delivery) :
    Program (Around Payload S) Failure Unit :=
  match arrive fresh read d with
  | .error failure => .raise failure
  | .ok envelope =>
      if c.halted then aside (nack d true)
      else
        .ask (I := Around Payload S) (.inl (.decode d.body d.contentType)) fun decoded ↦
          match (decoded : Except Failure Payload) with
          | .error failure =>
              if failure.isException then
                aside (c.park d envelope ("could not be decoded: " ++ describe (some failure)))
              else .raise failure
          | .ok payload => (beside (chain (c.contextOf d envelope payload) [])).andThen (c.announce d)

/-! ## What is decided and done does not ask the handler again -/

/-- Not a question to the handler. -/
def Uninvoked : Act Payload → Prop
  | .invoke _ => False
  | _ => True

section uninvoked

variable {c : Consumer} {d : Delivery} {e : Envelope} {A : Assumption (Broker Payload)}

theorem uninvoked_ack : (ack d : Step Payload Unit).Asks A fun _ q ↦ Uninvoked q := (asks_call _ _).mpr trivial

theorem uninvoked_nack (requeue : Bool) : (nack d requeue : Step Payload Unit).Asks A fun _ q ↦ Uninvoked q :=
  (asks_call _ _).mpr trivial

theorem uninvoked_sleep (delay : Duration) : (sleep delay : Step Payload Unit).Asks A fun _ q ↦ Uninvoked q :=
  (asks_perform _).mpr trivial

theorem uninvoked_settle (delivered : Bool) :
    (if delivered then ack d else nack d true : Step Payload Unit).Asks A fun _ q ↦ Uninvoked q := by
  split
  · exact uninvoked_ack
  · exact uninvoked_nack true

theorem uninvoked_republish (queue : String) :
    (c.republish d queue e : Step Payload Bool).Asks A fun _ q ↦ Uninvoked q := by
  refine Asks.bind (Asks.rescue ((asks_call _ _).mpr trivial) fun refused ↦ ?_) fun result ↦ trivial
  split <;> trivial

theorem uninvoked_republished (queue : String) :
    (c.republished d queue e : Step Payload Bool).Asks A fun _ q ↦ Uninvoked q := by
  refine Asks.rescue (uninvoked_republish queue) fun failure ↦ ?_
  split <;> trivial

theorem uninvoked_setAside (target reason : String) :
    (c.setAside d e target reason : Step Payload Unit).Asks A fun _ q ↦ Uninvoked q := by
  refine Asks.bind (uninvoked_republished target) fun delivered ↦ ?_
  split
  · exact uninvoked_ack
  · exact Asks.bind (uninvoked_sleep _) fun _ ↦ uninvoked_nack true

theorem uninvoked_sleeping {delay : Duration} {p : Step Payload Unit} (hp : p.Asks A fun _ q ↦ Uninvoked q) :
    (if 0 < delay then (sleep delay).bind fun _ ↦ p else p).Asks A fun _ q ↦ Uninvoked q := by
  split
  · exact Asks.bind (uninvoked_sleep delay) fun _ ↦ hp
  · exact hp

theorem uninvoked_retryInBroker (delay : Duration) :
    (c.retryInBroker d e delay : Step Payload Bool).Asks A fun _ q ↦ Uninvoked q := by
  refine Asks.bind (Asks.rescue (Asks.bind (uninvoked_republish _) fun _ ↦ trivial) fun failure ↦ ?_) fun routed ↦ ?_
  · split <;> trivial
  · match routed with
    | none => exact Asks.bind (uninvoked_nack true) fun _ ↦ trivial
    | some false => trivial
    | some true => exact Asks.bind uninvoked_ack fun _ ↦ trivial

theorem uninvoked_carryOut (settlement : Settlement) (wait : Option Wait) :
    (c.carryOut d e settlement wait : Step Payload Unit).Asks A fun _ q ↦ Uninvoked q := by
  have hagain : (c.retryAgain d e : Step Payload Unit).Asks A fun _ q ↦ Uninvoked q :=
    Asks.bind (uninvoked_republished c.queue) uninvoked_settle
  unfold carryOut
  split
  · exact uninvoked_ack
  · exact Asks.bind ((asks_perform _).mpr trivial) fun _ ↦ uninvoked_nack true
  · exact uninvoked_setAside _ _
  · exact uninvoked_setAside _ _
  · exact uninvoked_sleeping (Asks.bind (uninvoked_republished c.queue) uninvoked_settle)
  · rename_i wait _ _ _ _
    have hrest : ∀ dealtWith : Bool, (if dealtWith then pure () else
        if 0 < wait.delay then (sleep wait.delay).bind fun _ ↦ c.retryAgain d e else c.retryAgain d e :
          Step Payload Unit).Asks A fun _ q ↦ Uninvoked q := by
      intro dealtWith
      split
      · trivial
      · exact uninvoked_sleeping hagain
    dsimp only
    split
    · exact Asks.bind (uninvoked_retryInBroker _) hrest
    · exact hrest false

theorem uninvoked_decide (decision : Ack) :
    (c.decide e decision : Step Payload _).Asks A fun _ q ↦ Uninvoked q := by
  unfold Consumer.decide
  cases decision.action with
  | accept | reject | park | inProgress => trivial
  | retry =>
      dsimp only
      split
      · trivial
      · split
        · trivial
        · refine ⟨trivial, fun arrived _ ↦ ⟨trivial, fun draw _ ↦ ?_⟩⟩
          simp only [ret_bind]
          split <;> trivial

theorem uninvoked_decideOn (answer : Except Failure Decision) :
    (c.decideOn e answer : Step Payload _).Asks A fun _ q ↦ Uninvoked q := by
  rcases answer with failure | (decision | typeName)
  · show (if failure.isException then _ else _ : Step Payload _).Asks A _
    split
    · exact uninvoked_decide _
    · trivial
  · exact uninvoked_decide decision
  · trivial

theorem conclude_eq (answer : Except Failure Decision) : (c.conclude d e answer : Step Payload Unit) =
    (c.decideOn e answer).bind fun decided ↦ c.carryOut d e decided.1 decided.2 := by
  rcases answer with failure | (decision | typeName)
  · show (if failure.isException then _ else _ : Step Payload Unit) =
      Program.bind (if failure.isException then _ else _) _
    split <;> rfl
  · rfl
  · rfl

/-- A question of the consumer's own is asked of its own surroundings. -/
theorem answering_of_uninvoked {chain : ConsumeNext Payload S} (q : Act Payload) (hq : Uninvoked q) :
    answering chain q = .perform (I := Around Payload S) (.inl q) := by
  cases q with
  | invoke => exact hq.elim
  | decode | now | random | publish | sleep | halt | ack | nack => rfl

end uninvoked

/-! ## What is told changes nothing -/

section course

variable {c : Consumer} {d : Delivery} {chain : Rest Payload S} {fresh : String} {read : Instant}

/-- Only what `except Exception` does not catch comes out of the telling. -/
theorem settled_raises {A : Assumption S} {context : ConsumeContext Payload} {settlement : Settlement}
    {listeners : Listeners Payload S} {t : List (Event S)} {failure : Failure}
    (h : Runs A (settled context settlement listeners) t (.error failure)) : failure.isException = false := by
  induction listeners generalizing t with
  | nil => cases h
  | cons listener rest ih =>
      rw [settled, runs_bind] at h
      obtain ⟨e, hx, htold⟩ | ⟨_, _, _, -, -, hrest⟩ := h
      · obtain rfl := Except.error.inj hx
        obtain ⟨a, hx', -⟩ | ⟨_, _, e', -, -, hcaught⟩ := runs_rescue.mp htold
        · cases hx'
        · split at hcaught
          · cases hcaught
          · cases hcaught
            exact Bool.eq_false_iff.mpr ‹_›
      · exact ih hrest

/-- The handling, as it would have gone without anybody who is told; or somebody who was told broke it
off before anything was done. -/
def Undisturbed (A : Assumption (Around Payload S)) (p : Program (Around Payload S) Failure Unit)
    (t : List (Event (Around Payload S))) (x : Except Failure Unit) : Prop :=
  (∃ t', Runs A p t' x ∧ inners t' = inners t) ∨
    (∃ failure, x = .error failure ∧ failure.isException = false) ∧ settlements (inners t) = []

theorem conclude_expanded {plain : ConsumeNext Payload S} {e : Envelope} (answer : Except Failure Decision) :
    (c.conclude d e answer).expand (answering plain) =
      (aside (c.decideOn e answer)).bind fun decided ↦ aside (c.carryOut d e decided.1 decided.2) := by
  rw [conclude_eq, ← aside_bind]
  apply expand_eq_aside answering_of_uninvoked
  exact Asks.bind (uninvoked_decideOn answer) fun decided ↦ uninvoked_carryOut decided.1 decided.2

/-- Nothing has been settled while it is decided how to. -/
theorem settlements_decideOn {A : Assumption (Broker Payload)} {e : Envelope} {answer : Except Failure Decision}
    {t : List (Event (Broker Payload))} {x : Except Failure (Settlement × Option Wait)}
    (h : Runs A (c.decideOn e answer) t x) : settlements t = [] := by
  have hquiet (tag : ℕ) : (c.decideOn e answer : Step Payload _).Asks (Anything _)
      fun _ q ↦ ¬(settling Payload tag).is q := by
    rcases answer with failure | (decision | typeName)
    · show (if failure.isException then _ else _ : Step Payload _).Asks _ _
      split
      · exact @quiet_decide Payload c ⟨tag, [], none, "", "", ∅, false, ""⟩ e _
      · trivial
    · exact @quiet_decide Payload c ⟨tag, [], none, "", "", ∅, false, ""⟩ e decision
    · trivial
  refine List.filterMap_eq_nil_iff.mpr fun event hevent ↦ ?_
  have hnot := always_iff_runs.mp (hquiet 0).always t x (h.mono fun _ _ _ ↦ trivial) event hevent
  obtain ⟨q, r⟩ := event
  cases q with
  | ack | nack => exact absurd trivial hnot
  | decode | invoke | now | random | publish | sleep | halt => rfl

variable {A : Assumption (Around Payload S)} {t : List (Event (Around Payload S))} {x : Except Failure Unit}

theorem attend_unreadable {failure : Failure} (hread : arrive fresh read d = .error failure) :
    c.attend chain fresh read d = .raise failure := by
  unfold attend
  rw [hread]

theorem attend_halted {e : Envelope} (hhalted : c.halted = true) (hread : arrive fresh read d = .ok e) :
    c.attend chain fresh read d = aside (nack d true) := by
  unfold attend
  rw [hread]
  exact if_pos hhalted

/-- What comes of a delivery once it has been read. -/
theorem attend_decodes {e : Envelope} (hhalted : c.halted = false)
    (hread : arrive fresh read d = .ok e) :
    c.attend chain fresh read d =
      .ask (I := Around Payload S) (.inl (.decode d.body d.contentType)) fun decoded ↦
        match (decoded : Except Failure Payload) with
        | .error failure =>
            if failure.isException then
              aside (c.park d e ("could not be decoded: " ++ describe (some failure)))
            else .raise failure
        | .ok payload => (beside (chain (c.contextOf d e payload) [])).andThen (c.announce d) := by
  unfold attend
  rw [hread]
  exact if_neg (by rw [hhalted]; exact Bool.false_ne_true)

theorem announce_undisturbed {handled : Handled Payload × Listeners Payload S} {plain : ConsumeNext Payload S}
    (h : Runs A (c.announce d handled) t x) :
    Undisturbed A ((c.conclude d handled.1.1.envelope handled.1.2).expand (answering plain)) t x := by
  rw [conclude_expanded]
  rw [announce, runs_bind] at h
  obtain ⟨e, rfl, hdecide⟩ | ⟨t₁, t₂, decided, rfl, hdecide, hrest⟩ := h
  · exact .inl ⟨t, hdecide.bind_error, rfl⟩
  obtain ⟨e, rfl, htold⟩ | ⟨told, t₃, _, rfl, htold, hcarry⟩ := runs_bind.mp hrest
  · right
    obtain ⟨hsettled, hnone⟩ := outers_of_beside htold
    refine ⟨⟨e, rfl, settled_raises (outers_of_beside hsettled).1⟩, ?_⟩
    rw [inners_append, hnone, List.append_nil]
    exact settlements_decideOn (runs_aside hdecide).1
  · left
    refine ⟨t₁ ++ t₃, hdecide.bind_ok hcarry, ?_⟩
    simp only [inners_append, (outers_of_beside htold).2, List.nil_append]

theorem aside_nack (requeue : Bool) : (aside (nack d requeue) : Program (Around Payload S) Failure Unit) =
    .call (I := Around Payload S) (.inl (.nack d.tag requeue)) id := by
  show (ask _ _ : Program (Around Payload S) Failure Unit) = ask _ _
  refine congrArg (ask _) (funext fun answer ↦ ?_)
  cases answer <;> rfl

/-- Whoever is told of a delivery, and whatever they do, the consumer does with it what it would have
done without them. -/
theorem attend_undisturbed (h : Runs A (c.attend chain fresh read d) t x) :
    Undisturbed A (c.work (forgetting chain) fresh read d) t x := by
  cases hread : arrive fresh read d with
  | error failure =>
      rw [attend_unreadable hread] at h
      rw [work_unreadable hread]
      exact .inl ⟨t, h, rfl⟩
  | ok envelope =>
      cases hhalted : c.halted with
      | true =>
          rw [attend_halted hhalted hread, aside_nack] at h
          rw [work_halted hhalted hread]
          exact .inl ⟨t, h, rfl⟩
      | false =>
          rw [attend_decodes hhalted hread] at h
          rw [work_decodes hhalted hread]
          cases h with
          | @ask _ _ decoded t _ hA h =>
          cases decoded with
          | error failure =>
              refine .inl ⟨_, .ask hA ?_, rfl⟩
              dsimp only at h ⊢
              split at h
              · rw [if_pos ‹_›, park, expand_eq_aside answering_of_uninvoked (uninvoked_setAside _ _)]
                exact h
              · rw [if_neg ‹_›]
                exact h
          | ok payload =>
              obtain ⟨t₁, t₂, handled, rfl, hchain, hannounce⟩ := runs_andThen.mp h
              have hplain : Runs A (beside (forgetting chain (c.contextOf d envelope payload))) t₁ (.ok handled.1) := by
                rw [forgetting, beside_bind, ← List.append_nil t₁]
                exact hchain.bind_ok (.ret _)
              apply (announce_undisturbed hannounce).imp
              · rintro ⟨t', hrest, hinners⟩
                refine ⟨_, .ask hA (runs_andThen.mpr ⟨t₁, t', handled.1, rfl, hplain, hrest⟩), ?_⟩
                show _ :: inners (t₁ ++ t') = _ :: inners (t₁ ++ t₂)
                rw [inners_append, inners_append, hinners]
              · rintro ⟨hraised, hunsettled⟩
                refine ⟨hraised, ?_⟩
                show settlements (inners (t₁ ++ t₂)) = []
                rw [inners_append, (outers_of_beside hchain).2]
                exact hunsettled

end course

end Consumer

end AcemqAmqp
