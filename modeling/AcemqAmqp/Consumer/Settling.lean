import AcemqAmqp.Consumer.Chain
import AcemqAmqp.Foundations.Once

/-!
# A delivery is settled once

From its arrival to the end of its handling a delivery is acknowledged or
rejected at most once, whatever the broker, the handler and the interceptors
answer, and a handling that returns has settled it.
-/

namespace AcemqAmqp

namespace Consumer

open Interaction Program

variable {Payload : Type} {S : Interface}

/-- Settling the delivery `tag`: it is done when nothing was raised. -/
def settling (Payload : Type) (tag : ℕ) : Deed (Broker Payload) where
  is
    | .ack _ | .nack _ _ => True
    | _ => False
  right
    | .ack tag' | .nack tag' _ => tag' = tag
    | _ => True
  done
    | .ack _, answer | .nack _ _, answer => answer = .ok ()
    | .decode _ _, _ | .invoke _, _ | .now, _ | .random, _ | .publish _ _ _, _ | .sleep _, _ | .halt, _ => True

section functions

variable {c : Consumer} {d : Delivery} {e : Envelope} {t : List (Event (Broker Payload))}

/-- A question that settles nothing. -/
theorem quiet_perform {q : Act Payload} (hq : ¬(settling Payload d.tag).is q) :
    (perform q : Step Payload _).Asks (Anything (Broker Payload)) fun _ q ↦ ¬(settling Payload d.tag).is q :=
  (asks_perform _).mpr hq

theorem quiet_republish (queue : String) : (c.republish d queue e : Step Payload Bool).Asks (Anything _)
    fun _ q ↦ ¬(settling Payload d.tag).is q := by
  refine Asks.bind (Asks.rescue ((asks_call _ _).mpr id) fun refused ↦ ?_) fun result ↦ trivial
  split <;> trivial

theorem quiet_republished (queue : String) : (c.republished d queue e : Step Payload Bool).Asks (Anything _)
    fun _ q ↦ ¬(settling Payload d.tag).is q := by
  refine Asks.rescue (quiet_republish queue) fun failure ↦ ?_
  split <;> trivial

theorem quiet_decide (decision : Ack) : (c.decide e decision : Step Payload _).Asks (Anything _)
    fun _ q ↦ ¬(settling Payload d.tag).is q := by
  unfold Consumer.decide
  cases decision.action with
  | accept | reject | park | inProgress => trivial
  | retry =>
      dsimp only
      split
      · trivial
      · split
        · trivial
        · refine ⟨id, fun arrived _ ↦ ⟨id, fun draw _ ↦ ?_⟩⟩
          simp only [ret_bind]
          split <;> trivial

/-- The end of a handling: it is settled, or settling it raised. -/
theorem once_ack (ht : (settling Payload d.tag).Untouched t) :
    Once (settling Payload d.tag) (fun _ ↦ True) t (ack d : Step Payload Unit) := by
  refine once_ask.mpr ⟨fun _ ↦ ⟨rfl, ht⟩, fun answer ↦ ?_⟩
  cases answer with
  | error failure => exact once_raise failure
  | ok done => exact once_ret.mpr ⟨fun _ ↦ Deed.done_snoc.mpr (.inr ⟨trivial, rfl⟩), fun h ↦ absurd trivial h⟩

theorem once_nack (ht : (settling Payload d.tag).Untouched t) (requeue : Bool) :
    Once (settling Payload d.tag) (fun _ ↦ True) t (nack d requeue : Step Payload Unit) := by
  refine once_ask.mpr ⟨fun _ ↦ ⟨rfl, ht⟩, fun answer ↦ ?_⟩
  cases answer with
  | error failure => exact once_raise failure
  | ok done => exact once_ret.mpr ⟨fun _ ↦ Deed.done_snoc.mpr (.inr ⟨trivial, rfl⟩), fun h ↦ absurd trivial h⟩

theorem once_setAside (ht : (settling Payload d.tag).Untouched t) (target reason : String) :
    Once (settling Payload d.tag) (fun _ ↦ True) t (c.setAside d e target reason : Step Payload Unit) := by
  refine Once.after_quiet (quiet_republished target) ht fun delivered t' ht' ↦ ?_
  split
  · exact once_ack ht'
  · exact Once.after_quiet (quiet_perform id) ht' fun _ t'' ht'' ↦ once_nack ht'' true

/-- What is done about a delivery once a copy of it was sent, or was not. -/
theorem once_delivered (ht : (settling Payload d.tag).Untouched t) (queue : String) :
    Once (settling Payload d.tag) (fun _ ↦ True) t ((c.republished d queue e).bind fun delivered ↦
      if delivered then ack d else nack d true : Step Payload Unit) := by
  refine Once.after_quiet (quiet_republished queue) ht fun delivered t' ht' ↦ ?_
  split
  · exact once_ack ht'
  · exact once_nack ht' true

theorem once_sleeping {delay : Duration} {p : Step Payload Unit}
    (hp : ∀ t, (settling Payload d.tag).Untouched t → Once (settling Payload d.tag) (fun _ ↦ True) t p)
    (ht : (settling Payload d.tag).Untouched t) :
    Once (settling Payload d.tag) (fun _ ↦ True) t
      (if 0 < delay then (sleep delay).bind fun _ ↦ p else p) := by
  split
  · exact Once.after_quiet (quiet_perform id) ht fun _ t' ht' ↦ hp t' ht'
  · exact hp t ht

theorem once_putBack (ht : (settling Payload d.tag).Untouched t) (delay : Duration) :
    Once (settling Payload d.tag) (fun _ ↦ True) t (c.putBack d e delay : Step Payload Unit) := by
  exact once_sleeping (fun t ht ↦ once_delivered ht c.queue) ht

theorem once_retryAgain (ht : (settling Payload d.tag).Untouched t) :
    Once (settling Payload d.tag) (fun _ ↦ True) t (c.retryAgain d e : Step Payload Unit) :=
  once_delivered ht c.queue

theorem once_retryInBroker (ht : (settling Payload d.tag).Untouched t) (delay : Duration) :
    Once (settling Payload d.tag) (fun dealtWith ↦ dealtWith = true) t
      (c.retryInBroker d e delay : Step Payload Bool) := by
  have hdealt : ∀ {p : Step Payload Unit} {t' : List (Event (Broker Payload))},
      Once (settling Payload d.tag) (fun _ ↦ True) t' p →
      Once (settling Payload d.tag) (fun dealtWith ↦ dealtWith = true) t' (p.bind fun _ ↦ ret true) :=
    fun hp ↦ hp.bind fun _ t'' hdone _ ↦ once_ret.mpr ⟨fun _ ↦ hdone trivial, fun h ↦ absurd rfl h⟩
  refine Once.after_quiet (Asks.rescue (Asks.bind (quiet_republish _) fun r ↦ trivial) fun failure ↦ ?_) ht
    fun routed t' ht' ↦ ?_
  · split <;> trivial
  · match routed with
    | none => exact hdealt (once_nack ht' true)
    | some false => exact once_ret.mpr ⟨nofun, fun _ ↦ ht'⟩
    | some true => exact hdealt (once_ack ht')

theorem once_carryOut (ht : (settling Payload d.tag).Untouched t) (settlement : Settlement) (wait : Option Wait) :
    Once (settling Payload d.tag) (fun _ ↦ True) t (c.carryOut d e settlement wait : Step Payload Unit) := by
  unfold carryOut
  split
  · exact once_ack ht
  · exact Once.after_quiet (quiet_perform id) ht fun _ t' ht' ↦ once_nack ht' true
  · exact once_setAside ht _ _
  · exact once_setAside ht _ _
  · exact once_putBack ht _
  · rename_i wait _ _ _ _
    have hrest : ∀ (dealtWith : Bool) (t' : List (Event (Broker Payload))),
        (dealtWith = true → (settling Payload d.tag).Done t') →
        (¬dealtWith = true → (settling Payload d.tag).Untouched t') →
        Once (settling Payload d.tag) (fun _ ↦ True) t' (if dealtWith = true then pure () else
          if 0 < wait.delay then (sleep wait.delay).bind fun _ ↦ c.retryAgain d e else c.retryAgain d e) := by
      intro dealtWith t' hdone huntouched
      cases dealtWith with
      | true => exact once_ret.mpr ⟨fun _ ↦ hdone rfl, fun h ↦ absurd trivial h⟩
      | false => exact once_sleeping (fun t ht ↦ once_retryAgain ht) (huntouched nofun)
    dsimp only
    split
    · exact (once_retryInBroker ht wait.delay).bind fun dealtWith t' ↦ hrest dealtWith (t ++ t')
    · exact hrest false t nofun fun _ ↦ ht

theorem once_handleOne (ht : (settling Payload d.tag).Untouched t) :
    Once (settling Payload d.tag) (fun _ ↦ True) t (c.handleOne d e : Step Payload Unit) := by
  have hdecided : ∀ (envelope : Envelope) (decision : Ack) {t' : List (Event (Broker Payload))},
      (settling Payload d.tag).Untouched t' →
      Once (settling Payload d.tag) (fun _ ↦ True) t' ((c.decide envelope decision).bind fun decided ↦
        c.carryOut d envelope decided.1 decided.2 : Step Payload Unit) :=
    fun envelope decision _ ht' ↦ Once.after_quiet (quiet_decide decision) ht' fun decided t'' ht'' ↦
      once_carryOut ht'' decided.1 decided.2
  unfold handleOne
  split
  · exact once_nack ht true
  · refine Once.after_quiet (quiet_perform id) ht fun decoded t' ht' ↦ ?_
    cases decoded with
    | error failure =>
        dsimp only
        split
        · exact once_setAside ht' _ _
        · exact once_raise failure
    | ok payload =>
        refine Once.after_quiet (quiet_perform id) ht' fun answered t'' ht'' ↦ ?_
        obtain ⟨envelope, failure | (decision | typeName)⟩ := answered
        · dsimp only
          split
          · exact hdecided envelope (.retry (some failure)) ht''
          · exact once_raise failure
        · exact hdecided envelope decision ht''
        · exact once_carryOut ht'' _ none

theorem once_handle (fresh : String) (now : Instant) :
    Once (settling Payload d.tag) (fun _ ↦ True) [] (c.handle fresh now d : Step Payload Unit) := by
  unfold handle
  split
  · exact once_raise _
  · exact once_handleOne Deed.untouched_nil

end functions

/-- With its interceptors and its handler in place, a delivery is settled once. -/
theorem once_work (c : Consumer) (chain : ConsumeNext Payload S) (fresh : String) (read : Instant) (d : Delivery) :
    Once ((settling Payload d.tag).beside (Inside Payload S)) (fun _ ↦ True) [] (c.work chain fresh read d) := by
  refine Once.expand (fun q hq ↦ ?_) (fun q hq ↦ ?_) (once_handle fresh read) (fun _ ↦ Deed.untouched_nil)
    fun hdone ↦ ?_
  · cases q with
    | ack | nack => rfl
    | decode | invoke | now | random | publish | sleep | halt => exact hq.elim
  · cases q with
    | ack | nack => exact absurd trivial hq
    | decode | now | random | publish | sleep | halt => exact ⟨id, fun _ _ ↦ trivial⟩
    | invoke context =>
        refine asks_andThen (asks_beside (fun _ _ ↦ id) _) (always_iff_runs.mpr fun t x _ ↦ ?_)
        cases x with
        | ok answered => trivial
        | error impossible => trivial
  · obtain ⟨event, hmem, -⟩ := hdone
    exact absurd hmem List.not_mem_nil

end Consumer

end AcemqAmqp
