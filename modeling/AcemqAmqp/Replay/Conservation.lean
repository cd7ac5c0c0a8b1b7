import AcemqAmqp.Replay.Rounds

/-!
# A replay conserves messages

On every way out each delivery that was pulled has been settled once, is
acknowledged only right after a confirmed and routed publish of its bytes, and
is otherwise returned; unless the caller's filter raises or a first-seen header
is no `datetime`, which leaves the delivery at hand unsettled.
-/

namespace AcemqAmqp

namespace Replay

open Interaction Program

variable {o : Options} {s : State}

/-- No filter raised, and every message pulled has a first-seen header that can be read. -/
def Clean (t : Trace) : Prop :=
  (∀ d ∈ pulled t, Envelope.readable d.headers = true) ∧ ∀ e ∈ t, filterRaised e = false

/-- An acknowledgement comes right after a confirmed and routed publish of the
body of the delivery pulled last. -/
def AckGuard (pre : Trace) (e : Event Broker) : Prop :=
  ∀ tag, e.1 = .ack tag → ∃ before queue exchange key, ∃ d : Delivery, ∃ between,
    ∃ message : Outbound, ∃ answer : BrokerAnswer,
      pre = before ++ ⟨.pull queue, .ok (some d)⟩ :: between ++
        [⟨.publish exchange key message, answer⟩] ∧
      pulled between = [] ∧ d.tag = tag ∧ message.body = d.body ∧ answer.delivered = true

theorem AckGuard.mono (s pre : Trace) (e : Event Broker) (h : AckGuard pre e) :
    AckGuard (s ++ pre) e := by
  intro tag htag
  obtain ⟨before, queue, exchange, key, d, between, message, answer, hpre, hrest⟩ := h tag htag
  refine ⟨s ++ before, queue, exchange, key, d, between, message, answer, ?_, hrest⟩
  simp [hpre]

def isNack : Event Broker → Bool
  | ⟨.nack _ _, _⟩ => true
  | _ => false

/-! ## The loop -/

/-- What holds between two rounds. -/
structure Kept (o : Options) (t : Trace) (s : State) : Prop where
  settled : (settled t ++ s.declined.map (·.tag)).Perm ((pulled t).map (·.tag))
  moved : (acked t).length = s.moved
  skipped : declines t = s.skipped
  clean : Clean t
  guarded : Guarded AckGuard t
  noNack : ∀ e ∈ t, isNack e = false
  limited : 0 < o.limit → (s.moved : ℤ) ≤ o.limit

/-- The result a replay reached, returned or carried by its error. -/
def reached {α : Type} (result : α → Option ReplayResult) : Except Raised α → Option ReplayResult
  | .ok a => result a
  | .error (.replay r _) => some r
  | .error (.exception _) => none

/-- What holds when the loop has ended and the declined deliveries are still held. -/
structure Left (o : Options) (t : Trace) (declined : List Delivery)
    (outcome : Except Raised ReplayResult) : Prop where
  guarded : Guarded AckGuard t
  returned : ∃ pass close, t = pass ++ close ∧ (∀ e ∈ pass, isNack e = false) ∧
    ∀ e ∈ close, isClosing e = true
  counts : ∀ r, reached some outcome = some r → (acked t).length = r.moved ∧ declines t = r.skipped
  limited : 0 < o.limit → ((acked t).length : ℤ) ≤ o.limit
  settled : (Clean t ∧ (settled t ++ declined.map (·.tag)).Perm ((pulled t).map (·.tag))) ∨
    (¬Clean t ∧ (Replay.settled t).length + declined.length + 1 = (pulled t).length)

theorem clean_append {t t' : Trace} : Clean (t ++ t') ↔ Clean t ∧ Clean t' := by
  simp only [Clean, pulled_append, List.mem_append, or_imp, forall_and]
  tauto

/-- A stretch of events without an acknowledgement is guarded. -/
theorem guarded_of_noAck {t : Trace} (h : ∀ e ∈ t, ∀ tag, e.1 ≠ .ack tag) : Guarded AckGuard t := by
  intro pre e post ht tag htag
  exact absurd htag (h e (by simp [ht]) tag)

theorem Asked.cases {e : Envelope} {d : Delivery} {asked : Trace} (h : Asked o e d asked) :
    pulled asked = [] ∧ settled asked = [] ∧ acked asked = [] ∧ declines asked = 0 ∧
      (∀ e ∈ asked, filterRaised e = false) ∧ (∀ e ∈ asked, isNack e = false) ∧
      ∀ e ∈ asked, ∀ tag, e.1 ≠ .ack tag := by
  rcases h with ⟨-, rfl⟩ | ⟨-, rfl⟩ <;> refine ⟨rfl, rfl, rfl, rfl, ?_, ?_, ?_⟩ <;>
    simp [filterRaised, isNack]

section published

variable {d : Delivery} {id : String} {read at_ : Instant} {asked : Trace} {e : Envelope}
  {answer : BrokerAnswer} (hasked : Asked o e d asked)

include hasked

theorem published_books : Books (published o d id read asked at_ e answer) [d] [] [] 0 := by
  obtain ⟨hp, hs, ha, hd, -⟩ := hasked.cases
  have hbooks : Books asked [] [] [] 0 := ⟨hp, hs, ha, hd⟩
  have hhead : Books [⟨.pull o.queue, .ok (some d)⟩, ⟨.fresh, id⟩, ⟨.now, read⟩] [d] [] [] 0 :=
    ⟨rfl, rfl, rfl, rfl⟩
  have htail : Books [⟨.now, at_⟩,
      ⟨.publish o.exchange (o.routingKey.getD d.routingKey) (goingBack o d e at_), answer⟩]
      [] [] [] 0 := ⟨rfl, rfl, rfl, rfl⟩
  exact (hhead.append hbooks).append htail

theorem published_clean (hd : Envelope.readable d.headers = true) :
    Clean (published o d id read asked at_ e answer) := by
  obtain ⟨hp, -, -, -, hraised, -⟩ := hasked.cases
  have hhead : Clean [⟨.pull o.queue, .ok (some d)⟩, ⟨.fresh, id⟩, ⟨.now, read⟩] := by
    refine ⟨?_, by simp [filterRaised]⟩
    intro d' hd'
    obtain rfl : d' = d := List.mem_singleton.mp hd'
    exact hd
  have htail : Clean [⟨.now, at_⟩,
      ⟨.publish o.exchange (o.routingKey.getD d.routingKey) (goingBack o d e at_), answer⟩] :=
    ⟨fun d' hd' ↦ absurd hd' List.not_mem_nil, by simp [filterRaised]⟩
  rw [published, clean_append, clean_append]
  exact ⟨⟨hhead, ⟨by simp [hp], hraised⟩⟩, htail⟩

theorem published_noNack : ∀ e' ∈ published o d id read asked at_ e answer, isNack e' = false := by
  obtain ⟨-, -, -, -, -, hnack, -⟩ := hasked.cases
  simp only [published, List.mem_append, or_imp, forall_and]
  exact ⟨⟨by simp [isNack], hnack⟩, by simp [isNack]⟩

theorem published_guarded : Guarded AckGuard (published o d id read asked at_ e answer) := by
  obtain ⟨-, -, -, -, -, -, hack⟩ := hasked.cases
  apply guarded_of_noAck
  simp only [published, List.mem_append, or_imp, forall_and]
  exact ⟨⟨by simp, hack⟩, by simp⟩

/-- The acknowledgement after a delivered publish is guarded. -/
theorem published_ack (hdelivered : answer.delivered = true) (r : Except Failure Unit) :
    Guarded AckGuard (published o d id read asked at_ e answer ++ [⟨.ack d.tag, r⟩]) := by
  refine (published_guarded hasked).snoc fun tag htag ↦ ?_
  obtain rfl : d.tag = tag := by simpa using htag
  obtain ⟨hp, -⟩ := hasked.cases
  refine ⟨[], o.queue, o.exchange, o.routingKey.getD d.routingKey, d,
    [⟨.fresh, id⟩, ⟨.now, read⟩] ++ asked ++ [⟨.now, at_⟩], goingBack o d e at_, answer, ?_, ?_, rfl,
    rfl, hdelivered⟩
  · simp [published]
  · simp only [pulled_append, hp]
    rfl

end published

/-- What a round adds to the books between two rounds. -/
theorem Kept.add {t t' : Trace} {s' : State} {ds : List Delivery} {tags acks : List ℕ} {n : ℕ}
    (h : Kept o t s) (hbooks : Books t' ds tags acks n) (hclean : Clean t')
    (hguarded : Guarded AckGuard t') (hnack : ∀ e ∈ t', isNack e = false)
    (hheld : (tags ++ s'.declined.map (·.tag)).Perm (s.declined.map (·.tag) ++ ds.map (·.tag)))
    (hmoved : s'.moved = s.moved + acks.length) (hskipped : s'.skipped = s.skipped + n)
    (hlimited : 0 < o.limit → (s'.moved : ℤ) ≤ o.limit) : Kept o (t ++ t') s' := by
  obtain ⟨rfl, rfl, rfl, rfl⟩ := hbooks
  constructor
  case settled =>
    rw [settled_append, pulled_append, List.map_append, List.append_assoc]
    refine (hheld.append_left (Replay.settled t)).trans ?_
    rw [← List.append_assoc]
    exact h.settled.append_right _
  case moved => rw [acked_append, List.length_append, h.moved, hmoved]
  case skipped => rw [declines_append, h.skipped, hskipped]
  case clean => exact clean_append.mpr ⟨h.clean, hclean⟩
  case guarded => exact h.guarded.append AckGuard.mono hguarded
  case noNack =>
    simp only [List.mem_append, or_imp, forall_and]
    exact ⟨h.noNack, hnack⟩
  case limited => exact hlimited

/-- What the last round adds: it moves nothing and declines nothing. -/
theorem Kept.leave {t t' : Trace} {ds : List Delivery} {tags : List ℕ}
    {outcome : Except Raised ReplayResult} (h : Kept o t s) (hbooks : Books t' ds tags [] 0)
    (hguarded : Guarded AckGuard t')
    (hreturned : ∃ pass close, t' = pass ++ close ∧ (∀ e ∈ pass, isNack e = false) ∧
      ∀ e ∈ close, isClosing e = true)
    (hcounts : ∀ r, reached some outcome = some r → r.moved = s.moved ∧ r.skipped = s.skipped)
    (hsettled : (Clean t' ∧ tags = ds.map (·.tag)) ∨ (¬Clean t' ∧ tags.length + 1 = ds.length)) :
    Left o (t ++ t') s.declined outcome := by
  obtain ⟨hpulled, htags, hacked, hdeclines⟩ := hbooks
  constructor
  case guarded => exact h.guarded.append AckGuard.mono hguarded
  case returned =>
    obtain ⟨pass, close, rfl, hnack, hclosing⟩ := hreturned
    refine ⟨t ++ pass, close, by rw [List.append_assoc], ?_, hclosing⟩
    simp only [List.mem_append, or_imp, forall_and]
    exact ⟨h.noNack, hnack⟩
  case counts =>
    intro r hr
    obtain ⟨hm, hs⟩ := hcounts r hr
    rw [acked_append, hacked, List.append_nil, declines_append, hdeclines, h.moved, h.skipped, hm, hs]
    exact ⟨rfl, rfl⟩
  case limited =>
    intro hlimit
    rw [acked_append, hacked, List.append_nil, h.moved]
    exact h.limited hlimit
  case settled =>
    have hkept := h.settled
    rw [settled_append, pulled_append, htags, hpulled, clean_append]
    rcases hsettled with ⟨hclean, rfl⟩ | ⟨hclean, hlength⟩
    · refine .inl ⟨⟨h.clean, hclean⟩, ?_⟩
      rw [List.map_append, List.append_assoc]
      refine (List.perm_append_comm.append_left (Replay.settled t)).trans ?_
      rw [← List.append_assoc]
      exact hkept.append_right _
    · refine .inr ⟨fun hboth ↦ hclean hboth.2, ?_⟩
      have hcount := hkept.length_eq
      simp only [List.length_append, List.length_map] at hcount ⊢
      omega

/-- The loop may also end between two rounds. -/
theorem Kept.stop {t : Trace} (h : Kept o t s) (reason : StopReason) :
    Left o t s.declined (.ok ⟨s.moved, s.skipped, reason⟩) where
  guarded := h.guarded
  returned := ⟨t, [], (List.append_nil t).symm, h.noNack, by simp⟩
  counts := by
    rintro r hr
    obtain rfl := Option.some.inj hr
    exact ⟨h.moved, h.skipped⟩
  limited := by
    intro hlimit
    rw [h.moved]
    exact h.limited hlimit
  settled := .inl ⟨h.clean, h.settled⟩

theorem clean_of_pulled {t : Trace} {ds : List Delivery}
    (hds : ∀ d ∈ ds, Envelope.readable d.headers = true) (hpulled : pulled t = ds)
    (ht : ∀ e ∈ t, filterRaised e = false) : Clean t := by
  subst hpulled
  exact ⟨hds, ht⟩

/-- Reading the clock changes no book. -/
theorem Kept.clock {t : Trace} (h : Kept o t s) (time : ℚ) : Kept o (t ++ [⟨.clock, time⟩]) s := by
  have hbooks : Books [⟨.clock, time⟩] [] [] [] 0 := ⟨rfl, rfl, rfl, rfl⟩
  refine h.add hbooks (clean_of_pulled (List.forall_mem_nil _) rfl (by simp [filterRaised]))
    (guarded_of_noAck (by simp)) (by simp [isNack]) ?_ rfl rfl h.limited
  simp

/-- A round from the pull on keeps the books or ends the loop with them in order. -/
theorem Kept.pulls {t t' : Trace} {x : Except Raised (State ⊕ ReplayResult)} (h : Kept o t s)
    (hlimit : ¬(0 < o.limit ∧ o.limit ≤ s.moved)) (hx : Pulls o s t' x) :
    onEnd x (Sum.elim (Kept o (t ++ t')) fun r ↦ Left o (t ++ t') s.declined (.ok r))
      fun e ↦ Left o (t ++ t') s.declined (.error e) := by
  have hcounts : ∀ (reason : StopReason) (r : ReplayResult),
      some (ReplayResult.mk s.moved s.skipped reason) = some r →
        r.moved = s.moved ∧ r.skipped = s.skipped := by
    rintro reason r hr
    obtain rfl := Option.some.inj hr
    exact ⟨rfl, rfl⟩
  have hno : ∀ d ∈ ([] : List Delivery), Envelope.readable d.headers = true := by simp
  have hone : ∀ d : Delivery, Envelope.readable d.headers = true →
      ∀ d' ∈ [d], Envelope.readable d'.headers = true := by simp
  cases hx with
  | failed =>
      apply h.leave ⟨rfl, rfl, rfl, rfl⟩
      · exact guarded_of_noAck (by simp)
      · exact ⟨_, [], (List.append_nil _).symm, by simp [isNack], by simp⟩
      · exact hcounts .failed
      · exact .inl ⟨clean_of_pulled hno rfl (by simp [filterRaised]), rfl⟩
  | drained =>
      apply h.leave ⟨rfl, rfl, rfl, rfl⟩
      · exact guarded_of_noAck (by simp)
      · exact ⟨_, [], (List.append_nil _).symm, by simp [isNack], by simp⟩
      · exact hcounts .drained
      · exact .inl ⟨clean_of_pulled hno rfl (by simp [filterRaised]), rfl⟩
  | @unreadable d id read hd =>
      apply h.leave ⟨rfl, rfl, rfl, rfl⟩
      · exact guarded_of_noAck (by simp)
      · exact ⟨_, [], (List.append_nil _).symm, by simp [isNack], by simp⟩
      · intro r hr
        cases hr
      · refine .inr ⟨fun hclean ↦ ?_, rfl⟩
        have hreadable : Envelope.readable d.headers = true := hclean.1 d List.mem_cons_self
        rw [hd] at hreadable
        exact Bool.noConfusion hreadable
  | @raised d id read e f hd _ =>
      apply h.leave ⟨rfl, rfl, rfl, rfl⟩
      · exact guarded_of_noAck (by simp)
      · exact ⟨_, [], (List.append_nil _).symm, by simp [isNack], by simp⟩
      · intro r hr
        cases hr
      · refine .inr ⟨fun hclean ↦ ?_, rfl⟩
        have hraised := hclean.2 ⟨.only e d.body, .error f⟩ (by simp)
        simp [filterRaised] at hraised
  | @declined d id read e hd _ =>
      have hbooks : Books [⟨.pull o.queue, .ok (some d)⟩, ⟨.fresh, id⟩, ⟨.now, read⟩,
          ⟨.only e d.body, .ok false⟩] [d] [] [] 1 := ⟨rfl, rfl, rfl, rfl⟩
      refine h.add hbooks (clean_of_pulled (hone d hd.2) rfl (by simp [filterRaised]))
        (guarded_of_noAck (by simp)) (by simp [isNack]) ?_ rfl rfl h.limited
      simp
  | @moved d id read at_ e asked answer hd hasked hdelivered =>
      have hack : Books [⟨.ack d.tag, .ok ()⟩] [] [d.tag] [d.tag] 0 := ⟨rfl, rfl, rfl, rfl⟩
      have hclean : Clean [⟨.ack d.tag, .ok ()⟩] := clean_of_pulled hno rfl (by simp [filterRaised])
      refine h.add ((published_books hasked).append hack)
        (clean_append.mpr ⟨published_clean hasked hd.2, hclean⟩) (published_ack hasked hdelivered _)
        ?_ ?_ rfl rfl ?_
      · simp only [List.mem_append, or_imp, forall_and]
        exact ⟨published_noNack hasked, by simp [isNack]⟩
      · exact List.perm_append_comm
      · intro hpositive
        have hroom := not_le.mp fun hle ↦ hlimit ⟨hpositive, hle⟩
        exact_mod_cast hroom
  | @unacked d id read at_ e asked answer f what hd hasked hdelivered =>
      have hack : Books [⟨.ack d.tag, .error f⟩] [] [d.tag] [] 0 := ⟨rfl, rfl, rfl, rfl⟩
      have hclean : Clean [⟨.ack d.tag, .error f⟩] := clean_of_pulled hno rfl (by simp [filterRaised])
      apply h.leave ((published_books hasked).append hack)
      · exact published_ack hasked hdelivered _
      · refine ⟨_, [], (List.append_nil _).symm, ?_, by simp⟩
        simp only [List.mem_append, or_imp, forall_and]
        exact ⟨published_noNack hasked, by simp [isNack]⟩
      · exact hcounts .failed
      · exact .inl ⟨clean_append.mpr ⟨published_clean hasked hd.2, hclean⟩, rfl⟩
  | @refused d id read at_ e asked answer returned what hd hasked hdelivered =>
      have hnack : Books [⟨.nack d.tag true, returned⟩] [] [d.tag] [] 0 := ⟨rfl, rfl, rfl, rfl⟩
      have hclean : Clean [⟨.nack d.tag true, returned⟩] :=
        clean_of_pulled hno rfl (by simp [filterRaised])
      apply h.leave ((published_books hasked).append hnack)
      · exact (published_guarded hasked).snoc fun tag htag ↦ by simp at htag
      · exact ⟨_, _, rfl, published_noNack hasked, by simp [isClosing]⟩
      · exact hcounts .failed
      · exact .inl ⟨clean_append.mpr ⟨published_clean hasked hd.2, hclean⟩, rfl⟩

/-- A round of the loop. -/
theorem guardedRound_spec {t : Trace} {expires : Option ℚ} (h : Kept o t s) :
    (guardedRound o expires s).Always Answered fun t' x ↦
      onEnd x (Sum.elim (Kept o (t ++ t')) fun left ↦ Left o (t ++ t') left.1 left.2)
        fun _ ↦ False := by
  have hround : (round o expires s).Always Answered fun t' x ↦
      onEnd x (Sum.elim (Kept o (t ++ t')) fun r ↦ Left o (t ++ t') s.declined (.ok r))
        fun e ↦ Left o (t ++ t') s.declined (.error e) := by
    unfold Replay.round
    split
    case isTrue hlimit =>
      rw [always_ret, onEnd_ok, Sum.elim_inr, List.append_nil]
      exact h.stop .limit
    case isFalse hlimit =>
      cases expires with
      | none => exact pullOne_spec.mono fun t' x ↦ h.pulls hlimit
      | some e =>
          dsimp only
          rw [bind_eq, always_bind, always_clock]
          intro time
          rw [onEnd_ok]
          split
          · exact (h.clock time).stop .deadline
          · refine pullOne_spec.mono fun t' x hx ↦ ?_
            have hpulls := (h.clock time).pulls hlimit hx
            simpa [List.append_assoc] using hpulls
  rw [guardedRound, always_rescue, always_bind]
  refine hround.mono ?_
  rintro t' (e | s' | r) hx
  · simpa using hx
  · simpa using hx
  · simpa using hx

/-! ## The whole replay -/

/-- The books of a replay that returned or raised. -/
structure Conserved (o : Options) (t : Trace) (x : Except Raised (Option ReplayResult)) : Prop where
  /-- Every delivery pulled is settled once. -/
  settled : (settled t).Perm ((pulled t).map (·.tag))
  guarded : Guarded AckGuard t
  /-- Every other one is returned, once nothing is pulled, published or acknowledged any more. -/
  returned : ∃ pass close, t = pass ++ close ∧ (∀ e ∈ pass, isNack e = false) ∧
    ∀ e ∈ close, isClosing e = true
  counts : ∀ r, reached id x = some r → (acked t).length = r.moved ∧ declines t = r.skipped
  limited : 0 < o.limit → ((acked t).length : ℤ) ≤ o.limit

/-- A replay that has ended: either it is conserved and nothing went wrong
outside the broker, or one delivery was never settled. -/
def Accounted (o : Options) (t : Trace) (x : Except Raised (Option ReplayResult)) : Prop :=
  (Clean t ∧ Conserved o t x) ∨ (¬Clean t ∧ (settled t).length + 1 = (pulled t).length)

theorem kept_nil (o : Options) : Kept o [] ⟨0, 0, []⟩ where
  settled := .refl _
  moved := rfl
  skipped := rfl
  clean := by simp [Clean, pulled]
  guarded := guarded_nil
  noNack := by simp
  limited := by
    intro hlimit
    exact_mod_cast hlimit.le

/-- Nothing has happened yet when a replay refuses its arguments. -/
theorem accounted_refused (failure : Failure) : Accounted o [] (.error (.exception failure)) := by
  refine .inl ⟨(kept_nil o).clean, ?_⟩
  exact
    { settled := .refl _
      guarded := guarded_nil
      returned := ⟨[], [], rfl, by simp, by simp⟩
      counts := fun r hr ↦ nomatch hr
      limited := fun hlimit ↦ by exact_mod_cast hlimit.le }

/-- Returning what the loop still held closes its books. -/
theorem Left.accounted {t t' : Trace} {declined : List Delivery}
    {outcome : Except Raised ReplayResult} (h : Left o t declined outcome)
    (ht' : Returns declined t') : Accounted o (t ++ t') (outcome.map some) := by
  obtain ⟨⟨hpulled, hsettled, hacked, hdeclines⟩, hclosing, hraised, hack⟩ := ht'
  have hclean' : Clean t' := clean_of_pulled (List.forall_mem_nil _) hpulled hraised
  have hclean : Clean (t ++ t') ↔ Clean t := by
    rw [clean_append]
    exact ⟨And.left, fun hc ↦ ⟨hc, hclean'⟩⟩
  have hpulls : pulled (t ++ t') = pulled t := by rw [pulled_append, hpulled, List.append_nil]
  have hsettles : Replay.settled (t ++ t') = Replay.settled t ++ declined.map (·.tag) := by
    rw [settled_append, hsettled]
  have hacks : acked (t ++ t') = acked t := by rw [acked_append, hacked, List.append_nil]
  have hdeclined : declines (t ++ t') = declines t := by rw [declines_append, hdeclines, add_zero]
  rw [Accounted, hclean, hsettles, hpulls]
  rcases h.settled with ⟨hc, hperm⟩ | ⟨hc, hlength⟩
  · refine .inl ⟨hc, ?_⟩
    constructor
    case settled =>
      rw [hsettles, hpulls]
      exact hperm
    case guarded => exact h.guarded.append AckGuard.mono (guarded_of_noAck hack)
    case returned =>
      obtain ⟨pass, close, rfl, hpass, hclose⟩ := h.returned
      refine ⟨pass, close ++ t', List.append_assoc .., hpass, ?_⟩
      simp only [List.mem_append, or_imp, forall_and]
      exact ⟨hclose, hclosing⟩
    case counts =>
      intro r hr
      rw [hacks, hdeclined]
      apply h.counts r
      rcases outcome with (⟨result, what⟩ | failure) | result
      · exact hr
      · exact hr
      · exact hr
    case limited =>
      rw [hacks]
      exact h.limited
  · refine .inr ⟨hc, ?_⟩
    rw [List.length_append, List.length_map]
    exact hlength

theorem loop_spec (expires : Option ℚ) (fuel : ℕ) {t : Trace} (ht : Kept o t s) :
    (Program.iterate (guardedRound o expires) fuel s).Always Answered fun t' x ↦
      onEnd x (fun ended ↦ ∀ declined outcome, ended = some (declined, outcome) →
        Left o (t ++ t') declined outcome) fun _ ↦ False := by
  refine always_iterate (Q := fun t x ↦ onEnd x (fun ended ↦ ∀ declined outcome,
    ended = some (declined, outcome) → Left o t declined outcome) fun _ ↦ False)
    (Kept o) (fun t s hs ↦ ?_) (fun t s hs declined outcome hended ↦ nomatch hended) fuel t s ht
  refine (guardedRound_spec hs).mono ?_
  rintro t' (e | s' | left) hx
  · exact hx
  · exact hx
  · rintro declined outcome hended
    obtain rfl := Option.some.inj hended
    exact hx

theorem passes_spec (expires : Option ℚ) (fuel : ℕ) {t : Trace} (ht : Kept o t ⟨0, 0, []⟩) :
    (passes o fuel expires).Always Answered fun t' x ↦
      x ≠ .ok none → Accounted o (t ++ t') x := by
  rw [passes, bind_eq, always_bind]
  refine (loop_spec expires fuel ht).mono ?_
  rintro t' (e | _ | ⟨declined, outcome⟩) hx
  · exact hx.elim
  · exact fun hne ↦ absurd rfl hne
  · have hleft : Left o (t ++ t') declined outcome := hx declined outcome rfl
    rw [onEnd_ok]
    dsimp only
    rw [bind_eq, always_bind]
    refine (returnDeclined_spec fuel declined).mono ?_
    rintro t'' x ⟨ht'', done, rfl⟩
    have haccounted := hleft.accounted ht''
    rw [List.append_assoc] at haccounted
    rw [onEnd_ok]
    cases done with
    | none => exact fun hne ↦ absurd rfl hne
    | some u =>
        cases outcome with
        | ok result =>
            intro _
            rw [List.append_nil]
            exact haccounted
        | error e =>
            intro _
            rw [List.append_nil]
            exact haccounted

theorem replay_accounted (fuel : ℕ) :
    (replay o fuel).Always Answered fun t x ↦ x ≠ .ok none → Accounted o t x := by
  unfold replay
  split
  case isTrue => exact fun _ ↦ accounted_refused _
  case isFalse =>
    split
    case isTrue => exact fun _ ↦ accounted_refused _
    case isFalse =>
      cases o.deadline with
      | none => exact passes_spec none fuel (kept_nil o)
      | some d =>
          dsimp only
          rw [bind_eq, always_bind, always_clock]
          intro time
          exact passes_spec (some (time + d)) fuel ((kept_nil o).clock time)

/-! ## Runs that ask the filter -/

section runs

variable {d : Delivery} {id : String} {read : Instant} {e : Envelope}
  (hread : Envelope.fromHeaders id read d.headers d.routingKey d.messageId = some e)
  (hfiltered : o.filtered = true) (hnow : Answered .now read)

include hread hfiltered hnow

theorem runs_raised (f : Failure) :
    Runs Answered (pullOne o s) [⟨.pull o.queue, .ok (some d)⟩, ⟨.fresh, id⟩, ⟨.now, read⟩,
      ⟨.only e d.body, .error f⟩] (.error (.exception f)) := by
  refine .ask (fun _ hf ↦ nomatch hf) (.ask trivial (.ask hnow ?_))
  simp only [ret_bind, hread, hfiltered, if_true]
  exact .ask trivial (.raise _)

theorem runs_declined :
    Runs Answered (pullOne o s) [⟨.pull o.queue, .ok (some d)⟩, ⟨.fresh, id⟩, ⟨.now, read⟩,
      ⟨.only e d.body, .ok false⟩] (.ok (.inl ⟨s.moved, s.skipped + 1, s.declined ++ [d]⟩)) := by
  refine .ask (fun _ hf ↦ nomatch hf) (.ask trivial (.ask hnow ?_))
  simp only [ret_bind, hread, hfiltered, if_true]
  exact .ask trivial (.ret _)

end runs

theorem runs_drained :
    Runs Answered (pullOne o s) [⟨.pull o.queue, .ok none⟩]
      (.ok (.inr ⟨s.moved, s.skipped, .drained⟩)) :=
  .ask (fun _ hf ↦ nomatch hf) (.ret _)

/-- How the loop goes on after a round, the declined deliveries in hand. -/
def handedOn (s : State) :
    Except Raised (State ⊕ ReplayResult) → State ⊕ List Delivery × Except Raised ReplayResult
  | .ok (.inl s') => .inl s'
  | .ok (.inr r) => .inr (s.declined, .ok r)
  | .error e => .inr (s.declined, .error e)

theorem runs_guardedRound {t : Trace} {x : Except Raised (State ⊕ ReplayResult)}
    (hlimit : ¬(0 < o.limit ∧ o.limit ≤ s.moved)) (h : Runs Answered (pullOne o s) t x) :
    Runs Answered (guardedRound o none s) t (.ok (handedOn s x)) := by
  rw [guardedRound, round, if_neg hlimit, ← List.append_nil t]
  rcases x with e | s' | r
  · exact h.bind_error.rescue_error (.ret _)
  · apply Runs.rescue_ok
    apply h.bind_ok
    exact .ret _
  · apply Runs.rescue_ok
    apply h.bind_ok
    exact .ret _

/-- A replay conserves messages on every way out, exactly when the filter
raised on none of them and every first-seen header could be read. -/
theorem replay_conserves (o : Options) (fuel : ℕ) (t : Trace) (x : Except Raised (Option ReplayResult))
    (hrun : Runs Answered (replay o fuel) t x) (hended : x ≠ .ok none) :
    Conserved o t x ↔ Clean t := by
  rcases always_iff_runs.mp (replay_accounted fuel) t x hrun hended with ⟨hclean, h⟩ | ⟨hclean, h⟩
  · exact ⟨fun _ ↦ hclean, fun _ ↦ h⟩
  · refine ⟨fun hconserved ↦ ?_, fun hc ↦ absurd hc hclean⟩
    have hlength := hconserved.settled.length_eq
    rw [List.length_map] at hlength
    omega

/-- The only dead letter is asked for, the filter passes it over, and it goes back. -/
theorem replay_conserves_declined :
    let o : Options := ⟨⟨5000000, 1000⟩, "orders.dlq", "", none, 0, none, true, true, 0⟩
    let d : Delivery := ⟨1, [104, 105], none, "orders", "m1", ∅, false, ""⟩
    let t : Trace := [⟨.pull "orders.dlq", .ok (some d)⟩, ⟨.fresh, "f1"⟩, ⟨.now, 0⟩,
      ⟨.only (Envelope.new "m1" "orders" 0) d.body, .ok false⟩, ⟨.pull "orders.dlq", .ok none⟩,
      ⟨.messageCount "orders.dlq", .ok 0⟩, ⟨.nack 1 true, .ok ()⟩]
    Conserved o t (.ok (some ⟨0, 1, .drained⟩)) ↔ Clean t := by
  intro o d t
  refine replay_conserves o 2 t _ ?_ (by simp)
  have hread : Envelope.fromHeaders "f1" 0 d.headers d.routingKey d.messageId =
      some (Envelope.new "m1" "orders" 0) := Envelope.fromHeaders_empty
  have hnow : Answered .now 0 := by
    show (fromMillis (millis 0)).isSome = true
    rw [millis_zero, fromMillis_zero]
    rfl
  have hfirst := runs_guardedRound (o := o) (s := ⟨0, 0, []⟩) (by simp [o]) (runs_declined hread rfl hnow)
  have hsecond := runs_guardedRound (o := o) (s := ⟨0, 1, [d]⟩) (by simp [o]) runs_drained
  have hreturned : Runs Answered (returnDeclined o 2 [d])
      [⟨.messageCount "orders.dlq", .ok 0⟩, ⟨.nack 1 true, .ok ()⟩] (.ok ()) :=
    .ask (fun f hf ↦ nomatch hf) (.ask (fun f hf ↦ nomatch hf) (.ret _))
  have hloop : Runs Answered (Program.iterate (guardedRound o none) 2 ⟨0, 0, []⟩)
      (t.take 5) (.ok (some ([d], .ok ⟨0, 1, .drained⟩))) := by
    apply hfirst.bind_ok
    apply hsecond.bind_ok
    exact .ret _
  rw [replay, if_neg (by simp [o]), if_neg (by simp [o])]
  apply hloop.bind_ok
  apply hreturned.bind_ok
  exact .ret _

/-- One dead letter, and a filter that raises on it: nothing settles the delivery. -/
theorem replay_strands_a_message :
    let o : Options := ⟨⟨5000000, 1000⟩, "orders.dlq", "", none, 0, none, true, true, 10⟩
    let d : Delivery := ⟨1, [104, 105], none, "orders", "m1", ∅, false, ""⟩
    let f : Failure := ⟨.exception, "KeyError", "total"⟩
    let t : Trace := [⟨.pull "orders.dlq", .ok (some d)⟩, ⟨.fresh, "f1"⟩, ⟨.now, 0⟩,
      ⟨.only (Envelope.new "m1" "orders" 0) d.body, .error f⟩]
    Runs Answered (replay o 1) t (.error (.exception f)) ∧
      ¬Conserved o t (.error (.exception f)) := by
  intro o d f t
  constructor
  · have hread : Envelope.fromHeaders "f1" 0 d.headers d.routingKey d.messageId =
        some (Envelope.new "m1" "orders" 0) := Envelope.fromHeaders_empty
    have hnow : Answered .now 0 := by
      show (fromMillis (millis 0)).isSome = true
      rw [millis_zero, fromMillis_zero]
      rfl
    have hround := runs_guardedRound (o := o) (s := ⟨0, 0, []⟩) (by simp [o])
      (runs_raised hread rfl hnow f)
    have hloop : Runs Answered (Program.iterate (guardedRound o none) 1 ⟨0, 0, []⟩) t
        (.ok (some ([], .error (.exception f)))) := by
      apply hround.bind_ok
      exact .ret _
    rw [replay, if_neg (by simp [o]), if_neg (by simp [o])]
    apply hloop.bind_ok
    exact .raise _
  · intro hconserved
    exact absurd hconserved.settled.length_eq (by decide)

end Replay

end AcemqAmqp
