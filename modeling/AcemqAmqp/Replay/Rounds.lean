import AcemqAmqp.Replay.Replay

/-!
# What a replay can do

Everything one round can do is listed once, event by event, and so is
everything that happens after the last round.  What a replay guarantees is
read off these lists.
-/

namespace AcemqAmqp

namespace Replay

open Interaction Program

/-- What may be answered: nothing the broker raises escapes `except Exception`,
and the clock is a `datetime`.  The filter may raise what it likes. -/
def Answered : Assumption Broker
  | .now, at_ => (fromMillis (millis at_)).isSome = true
  | .pull _, answer => ∀ f, answer = .error f → f.isException = true
  | .publish _ _ _, answer => ∀ f, answer = .raised f → f.isException = true
  | .ack _, answer => ∀ f, answer = .error f → f.isException = true
  | .nack _ _, answer => ∀ f, answer = .error f → f.isException = true
  | .messageCount _, answer => ∀ f, answer = .error f → f.isException = true
  | _, _ => True

/-! ## What a run did -/

abbrev Trace := List (Event Broker)

def pulled? : Event Broker → Option Delivery
  | ⟨.pull _, .ok (some d)⟩ => some d
  | _ => none

def settled? : Event Broker → Option ℕ
  | ⟨.ack tag, _⟩ => some tag
  | ⟨.nack tag _, _⟩ => some tag
  | _ => none

def acked? : Event Broker → Option ℕ
  | ⟨.ack tag, .ok _⟩ => some tag
  | _ => none

/-- The filter said no. -/
def declined? : Event Broker → Option Unit
  | ⟨.only _ _, .ok false⟩ => some ()
  | _ => none

def filterRaised : Event Broker → Bool
  | ⟨.only _ _, .error _⟩ => true
  | _ => false

/-- Every delivery pulled, in order. -/
def pulled (t : Trace) : List Delivery := t.filterMap pulled?

/-- The tag of every settlement attempted, in order. -/
def settled (t : Trace) : List ℕ := t.filterMap settled?

/-- The tags whose acknowledgement went through. -/
def acked (t : Trace) : List ℕ := t.filterMap acked?

def declines (t : Trace) : ℕ := (t.filterMap declined?).length

theorem pulled_append (t t' : Trace) : pulled (t ++ t') = pulled t ++ pulled t' :=
  List.filterMap_append ..

theorem settled_append (t t' : Trace) : settled (t ++ t') = settled t ++ settled t' :=
  List.filterMap_append ..

theorem acked_append (t t' : Trace) : acked (t ++ t') = acked t ++ acked t' :=
  List.filterMap_append ..

theorem declines_append (t t' : Trace) : declines (t ++ t') = declines t + declines t' := by
  simp [declines]

/-- What a stretch of events pulls, settles, acknowledges and declines. -/
def Books (t : Trace) (ds : List Delivery) (tags acks : List ℕ) (n : ℕ) : Prop :=
  pulled t = ds ∧ settled t = tags ∧ acked t = acks ∧ declines t = n

theorem Books.append {t t' : Trace} {ds ds' : List Delivery} {tags tags' acks acks' : List ℕ}
    {n n' : ℕ} (h : Books t ds tags acks n) (h' : Books t' ds' tags' acks' n') :
    Books (t ++ t') (ds ++ ds') (tags ++ tags') (acks ++ acks') (n + n') := by
  obtain ⟨rfl, rfl, rfl, rfl⟩ := h
  obtain ⟨rfl, rfl, rfl, rfl⟩ := h'
  exact ⟨pulled_append t t', settled_append t t', acked_append t t', declines_append t t'⟩

/-! ## One round -/

variable {o : Options} {s : State}

/-- The filter's part of a round that goes on: nothing, or one yes. -/
def Asked (o : Options) (e : Envelope) (d : Delivery) (asked : Trace) : Prop :=
  (o.filtered = false ∧ asked = []) ∨ (o.filtered = true ∧ asked = [⟨.only e d.body, .ok true⟩])

/-- The events of a round up to and including the publish. -/
def published (o : Options) (d : Delivery) (id : String) (read : Instant) (asked : Trace)
    (at_ : Instant) (e : Envelope) (answer : BrokerAnswer) : Trace :=
  [⟨.pull o.queue, .ok (some d)⟩, ⟨.fresh, id⟩, ⟨.now, read⟩] ++ asked ++
    [⟨.now, at_⟩, ⟨.publish o.exchange (o.routingKey.getD d.routingKey) (goingBack o d e at_), answer⟩]

/-- The envelope is read off the delivery. -/
def Reads (d : Delivery) (id : String) (read : Instant) (e : Envelope) : Prop :=
  Envelope.fromHeaders id read d.headers d.routingKey d.messageId = some e ∧
    Envelope.readable d.headers = true

/-- Everything a round can do from the pull on, and how it ends. -/
inductive Pulls (o : Options) (s : State) : Trace → Except Raised (State ⊕ ReplayResult) → Prop
  | failed {f : Failure} {what : String} :
      Pulls o s [⟨.pull o.queue, .error f⟩] (.error (.replay ⟨s.moved, s.skipped, .failed⟩ what))
  | drained :
      Pulls o s [⟨.pull o.queue, .ok none⟩] (.ok (.inr ⟨s.moved, s.skipped, .drained⟩))
  | unreadable {d : Delivery} {id : String} {read : Instant} :
      Envelope.readable d.headers = false →
      Pulls o s [⟨.pull o.queue, .ok (some d)⟩, ⟨.fresh, id⟩, ⟨.now, read⟩]
        (.error (.exception (d.unreadable read)))
  | raised {d : Delivery} {id : String} {read : Instant} {e : Envelope} {f : Failure} :
      Reads d id read e → o.filtered = true →
      Pulls o s [⟨.pull o.queue, .ok (some d)⟩, ⟨.fresh, id⟩, ⟨.now, read⟩,
        ⟨.only e d.body, .error f⟩] (.error (.exception f))
  | declined {d : Delivery} {id : String} {read : Instant} {e : Envelope} :
      Reads d id read e → o.filtered = true →
      Pulls o s [⟨.pull o.queue, .ok (some d)⟩, ⟨.fresh, id⟩, ⟨.now, read⟩,
          ⟨.only e d.body, .ok false⟩]
        (.ok (.inl ⟨s.moved, s.skipped + 1, s.declined ++ [d]⟩))
  | moved {d : Delivery} {id : String} {read at_ : Instant} {e : Envelope} {asked : Trace}
      {answer : BrokerAnswer} :
      Reads d id read e → Asked o e d asked → answer.delivered = true →
      Pulls o s (published o d id read asked at_ e answer ++ [⟨.ack d.tag, .ok ()⟩])
        (.ok (.inl ⟨s.moved + 1, s.skipped, s.declined⟩))
  | unacked {d : Delivery} {id : String} {read at_ : Instant} {e : Envelope} {asked : Trace}
      {answer : BrokerAnswer} {f : Failure} {what : String} :
      Reads d id read e → Asked o e d asked → answer.delivered = true →
      Pulls o s (published o d id read asked at_ e answer ++ [⟨.ack d.tag, .error f⟩])
        (.error (.replay ⟨s.moved, s.skipped, .failed⟩ what))
  | refused {d : Delivery} {id : String} {read at_ : Instant} {e : Envelope} {asked : Trace}
      {answer : BrokerAnswer} {returned : Except Failure Unit} {what : String} :
      Reads d id read e → Asked o e d asked → answer.delivered = false →
      Pulls o s (published o d id read asked at_ e answer ++ [⟨.nack d.tag true, returned⟩])
        (.error (.replay ⟨s.moved, s.skipped, .failed⟩ what))

theorem always_onException {α : Type} {p : Step α} {h : Raised → Step α}
    {Q : Trace → Except Raised α → Prop} :
    (onException p h).Always Answered Q ↔ p.Always Answered fun t x ↦
      onEnd x (fun a ↦ Q t (.ok a)) fun e ↦
        if e.isException then (h e).Always Answered fun t' y ↦ Q (t ++ t') y
        else Q t (.error e) := by
  rw [onException, always_rescue]
  refine iff_of_eq (congrArg _ (funext fun t ↦ funext fun x ↦ ?_))
  cases x with
  | ok a => rfl
  | error e =>
      simp only [onEnd_error]
      split <;> simp

theorem always_now {Q : Trace → Except Raised Instant → Prop} :
    now.Always Answered Q ↔ ∀ at_ : Instant, (fromMillis (millis at_)).isSome = true →
      Q [⟨.now, at_⟩] (.ok at_) :=
  Iff.rfl

theorem always_fresh {Q : Trace → Except Raised String → Prop} :
    fresh.Always Answered Q ↔ ∀ id : String, Q [⟨.fresh, id⟩] (.ok id) :=
  ⟨fun h id ↦ h id trivial, fun h id _ ↦ h id⟩

theorem always_clock {Q : Trace → Except Raised ℚ → Prop} :
    clock.Always Answered Q ↔ ∀ t : ℚ, Q [⟨.clock, t⟩] (.ok t) :=
  ⟨fun h t ↦ h t trivial, fun h t _ ↦ h t⟩

/-- Returning a message quietly is one attempt that never raises. -/
theorem returnQuietly_spec {d : Delivery} {Q : Trace → Except Raised Unit → Prop}
    (h : ∀ returned : Except Failure Unit, Q [⟨.nack d.tag true, returned⟩] (.ok ())) :
    (returnQuietly d).Always Answered Q := by
  rw [returnQuietly, always_onException, always_call]
  intro returned hreturned
  cases returned with
  | ok u => exact h (.ok ())
  | error f =>
      have hexception : (Raised.exception f).isException = true := hreturned f rfl
      rw [raising, onEnd_error, if_pos hexception]
      exact h (.error f)

theorem isException_unroutable (messageId exchange routingKey reason : String) :
    (Raised.exception (.unroutable messageId exchange routingKey reason)).isException = true :=
  rfl

/-- `_move` publishes once; then it acknowledges, or returns the message and raises. -/
theorem move_spec {d : Delivery} {e : Envelope} {Q : Trace → Except Raised Unit → Prop}
    (hmoved : ∀ (at_ : Instant) (answer : BrokerAnswer), answer.delivered = true →
      Q [⟨.now, at_⟩, ⟨.publish o.exchange (o.routingKey.getD d.routingKey) (goingBack o d e at_),
        answer⟩, ⟨.ack d.tag, .ok ()⟩] (.ok ()))
    (hunacked : ∀ (at_ : Instant) (answer : BrokerAnswer) (f : Failure),
      answer.delivered = true → f.isException = true →
      Q [⟨.now, at_⟩, ⟨.publish o.exchange (o.routingKey.getD d.routingKey) (goingBack o d e at_),
        answer⟩, ⟨.ack d.tag, .error f⟩] (.error (.exception f)))
    (hrefused : ∀ (at_ : Instant) (answer : BrokerAnswer) (returned : Except Failure Unit)
      (f : Failure), answer.delivered = false → f.isException = true →
      Q [⟨.now, at_⟩, ⟨.publish o.exchange (o.routingKey.getD d.routingKey) (goingBack o d e at_),
        answer⟩, ⟨.nack d.tag true, returned⟩] (.error (.exception f))) :
    (move o d e).Always Answered Q := by
  unfold move
  rw [bind_eq, always_bind, always_now]
  intro at_ _
  rw [onEnd_ok, bind_eq, always_bind, always_onException, bind_eq, always_bind, always_call]
  intro answer hanswer
  have hrouted := publishRaw_routed_iff o.connection o.exchange (o.routingKey.getD d.routingKey)
    (goingBack o d e at_) answer
  have hreturn : answer.delivered = false → ∀ f : Failure, f.isException = true →
      ((returnQuietly d).bind fun _ ↦ (.raise (.exception f) : Step Unit)).Always Answered
        fun t y ↦ onEnd y (fun _ ↦ (ack d).Always Answered fun t' z ↦
          Q ([⟨.now, at_⟩, ⟨.publish o.exchange (o.routingKey.getD d.routingKey)
            (goingBack o d e at_), answer⟩] ++ t ++ t') z)
          fun g ↦ Q ([⟨.now, at_⟩, ⟨.publish o.exchange (o.routingKey.getD d.routingKey)
            (goingBack o d e at_), answer⟩] ++ t) (.error g) := by
    intro hdelivered f hf
    rw [always_bind]
    apply returnQuietly_spec
    intro returned
    rw [onEnd_ok, always_raise]
    exact hrefused at_ answer returned f hdelivered hf
  cases hraw : o.connection.publishRaw o.exchange (o.routingKey.getD d.routingKey)
      (goingBack o d e at_) answer with
  | ok result =>
      rw [raising, onEnd_ok]
      cases hresult : result.routed with
      | true =>
          have hdelivered : answer.delivered = true := hrouted.mp ⟨result, hraw, hresult⟩
          rw [if_pos rfl, always_ret, onEnd_ok, ack, always_call]
          intro acked hacked
          cases acked with
          | ok u => exact hmoved at_ answer hdelivered
          | error f => exact hunacked at_ answer f hdelivered (hacked f rfl)
      | false =>
          have hdelivered : answer.delivered = false := by
            by_contra hne
            obtain ⟨result', hraw', hresult'⟩ := hrouted.mpr (eq_true_of_ne_false hne)
            obtain rfl : result = result' := Except.ok.inj (hraw.symm.trans hraw')
            rw [hresult] at hresult'
            exact Bool.noConfusion hresult'
          rw [if_neg Bool.false_ne_true, always_raise, onEnd_error, if_pos (isException_unroutable ..)]
          exact hreturn hdelivered _ rfl
  | error f =>
      have hdelivered : answer.delivered = false := by
        by_contra hne
        obtain ⟨result, hraw', -⟩ := hrouted.mpr (eq_true_of_ne_false hne)
        rw [hraw] at hraw'
        cases hraw'
      have hf : f.isException = true := by
        rcases publishRaw_error hraw with hraised | ⟨-, hexception⟩
        · exact hanswer f hraised
        · exact hexception
      rw [raising, onEnd_error, onEnd_error, if_pos (show (Raised.exception f).isException from hf)]
      exact hreturn hdelivered f hf

theorem number_fallback (value : Option Value) :
    (∀ fallback, number value fallback = number value 0) ∨
      ∀ fallback, number value fallback = fallback := by
  unfold number
  split
  · exact .inr fun _ ↦ rfl
  · exact .inl fun _ ↦ rfl
  · cases hint : int? (text value) with
    | none => exact .inr fun _ ↦ rfl
    | some n => exact .inl fun _ ↦ rfl

/-- With a working clock an envelope is read exactly when its header is readable. -/
theorem isSome_fromHeaders_iff {fresh : String} {read : Instant} {raw : Dict String Value}
    {routingKey messageId : String} (hread : (fromMillis (millis read)).isSome = true) :
    (Envelope.fromHeaders fresh read raw routingKey messageId).isSome = Envelope.readable raw := by
  rw [Envelope.isSome_fromHeaders, Envelope.readable]
  rcases number_fallback (raw.get? Headers.firstSeen) with hconst | hfallback
  · rw [hconst]
  · rw [hfallback, hfallback, hread, fromMillis_zero]
    rfl

theorem pullOne_spec : (pullOne o s).Always Answered (Pulls o s) := by
  unfold pullOne
  rw [bind_eq, always_bind, always_onException, pull, always_call]
  intro answer hanswer
  cases answer with
  | error f =>
      rw [raising, onEnd_error, if_pos (show (Raised.exception f).isException from hanswer f rfl),
        always_raise, onEnd_error]
      exact .failed
  | ok message =>
      rw [raising, onEnd_ok, onEnd_ok]
      cases message with
      | none => exact .drained
      | some d =>
          dsimp only
          rw [bind_eq, always_bind, always_fresh]
          intro id
          rw [onEnd_ok, bind_eq, always_bind, always_now]
          intro read hread
          rw [onEnd_ok]
          have hreadable : (Envelope.fromHeaders id read d.headers d.routingKey d.messageId).isSome =
              Envelope.readable d.headers := isSome_fromHeaders_iff hread
          cases henvelope : Envelope.fromHeaders id read d.headers d.routingKey d.messageId with
          | none =>
              rw [henvelope] at hreadable
              exact .unreadable hreadable.symm
          | some e =>
              rw [henvelope] at hreadable
              have hreads : Reads d id read e := ⟨henvelope, hreadable.symm⟩
              have hmove : ∀ asked, Asked o e d asked →
                  ((onException (move o d e) fun failure ↦
                    .raise (.replay ⟨s.moved, s.skipped, .failed⟩ ("cannot republish a message from "
                      ++ reprText o.queue ++ ": " ++ failure.text))).bind fun _ ↦
                    (.ret (.inl { s with moved := s.moved + 1 }) :
                      Step (State ⊕ ReplayResult))).Always Answered fun t x ↦
                  Pulls o s ([⟨.pull o.queue, .ok (some d)⟩, ⟨.fresh, id⟩, ⟨.now, read⟩] ++
                    asked ++ t) x := by
                intro asked hasked
                rw [always_bind, always_onException]
                apply move_spec
                · intro at_ answer hdelivered
                  simpa [published] using Pulls.moved hreads hasked hdelivered
                · intro at_ answer f hdelivered hf
                  rw [onEnd_error, if_pos (show (Raised.exception f).isException from hf)]
                  simpa [published] using Pulls.unacked hreads hasked hdelivered
                · intro at_ answer returned f hdelivered hf
                  rw [onEnd_error, if_pos (show (Raised.exception f).isException from hf)]
                  simpa [published] using Pulls.refused hreads hasked hdelivered
              dsimp only
              cases hfiltered : o.filtered with
              | false =>
                  have h := hmove [] (.inl ⟨hfiltered, rfl⟩)
                  simpa using h
              | true =>
                  rw [if_pos rfl, bind_eq, always_bind, only, always_call]
                  intro wanted _
                  cases wanted with
                  | error f => exact .raised hreads hfiltered
                  | ok wanted =>
                      rw [raising, onEnd_ok]
                      cases wanted with
                      | false => exact .declined hreads hfiltered
                      | true =>
                          have h := hmove [⟨.only e d.body, .ok true⟩] (.inr ⟨hfiltered, rfl⟩)
                          simpa using h

/-! ## After the loop -/

/-- What may happen once the pass is over: deliveries are returned and the depth is read. -/
def isClosing : Event Broker → Bool
  | ⟨.nack _ requeue, _⟩ => requeue
  | ⟨.clock, _⟩ => true
  | ⟨.messageCount _, _⟩ => true
  | ⟨.sleep _, _⟩ => true
  | _ => false

/-- Handing deliveries back: each is returned once, nothing else is touched, nothing is raised. -/
def Returns (ds : List Delivery) (t : Trace) : Prop :=
  Books t [] (ds.map (·.tag)) [] 0 ∧ (∀ e ∈ t, isClosing e = true) ∧
    (∀ e ∈ t, filterRaised e = false) ∧ ∀ e ∈ t, ∀ tag, e.1 ≠ .ack tag

theorem Returns.append {ds ds' : List Delivery} {t t' : Trace} (h : Returns ds t)
    (h' : Returns ds' t') : Returns (ds ++ ds') (t ++ t') := by
  obtain ⟨hbooks, hclosing, hraised, hack⟩ := h
  obtain ⟨hbooks', hclosing', hraised', hack'⟩ := h'
  simp only [Returns, List.mem_append, or_imp, forall_and, List.map_append]
  exact ⟨hbooks.append hbooks', ⟨hclosing, hclosing'⟩, ⟨hraised, hraised'⟩, hack, hack'⟩

theorem returns_nil : Returns [] [] :=
  ⟨⟨rfl, rfl, rfl, rfl⟩, by simp, by simp, by simp⟩

theorem returns_one {d : Delivery} {returned : Except Failure Unit} :
    Returns [d] [⟨.nack d.tag true, returned⟩] :=
  ⟨⟨rfl, rfl, rfl, rfl⟩, by simp [isClosing], by simp [filterRaised], by simp⟩

theorem returns_clock {time : ℚ} : Returns [] [⟨.clock, time⟩] :=
  ⟨⟨rfl, rfl, rfl, rfl⟩, by simp [isClosing], by simp [filterRaised], by simp⟩

theorem returns_sleep {seconds : ℚ} : Returns [] [⟨.sleep seconds, ()⟩] :=
  ⟨⟨rfl, rfl, rfl, rfl⟩, by simp [isClosing], by simp [filterRaised], by simp⟩

theorem returns_count {queue : String} {answer : Except Failure ℕ} :
    Returns [] [⟨.messageCount queue, answer⟩] :=
  ⟨⟨rfl, rfl, rfl, rfl⟩, by simp [isClosing], by simp [filterRaised], by simp⟩

theorem nackAll_spec (ds : List Delivery) :
    (nackAll ds).Always Answered fun t x ↦
      Returns ds t ∧ t.map Sigma.fst = ds.map (fun d ↦ .nack d.tag true) ∧ x = .ok () := by
  induction ds with
  | nil => exact ⟨returns_nil, rfl, rfl⟩
  | cons d ds ih =>
      rw [nackAll, always_bind]
      apply returnQuietly_spec
      intro returned
      rw [onEnd_ok]
      refine ih.mono ?_
      rintro t x ⟨ht, hasked, hx⟩
      exact ⟨returns_one.append ht, congrArg (List.cons _) hasked, hx⟩

theorem depth_spec {Q : Trace → Except Raised (Option ℕ) → Prop}
    (h : ∀ answer : Except Failure ℕ, Q [⟨.messageCount o.queue, answer⟩] (.ok answer.toOption)) :
    (depth o).Always Answered Q := by
  rw [depth, always_onException, always_bind, messageCount, always_call]
  intro answer hanswer
  cases answer with
  | ok n => exact h (.ok n)
  | error f =>
      have hexception : (Raised.exception f).isException = true := hanswer f rfl
      rw [raising, onEnd_error, onEnd_error, if_pos hexception]
      exact h (.error f)

/-- A trace that hands nothing back and ends with a value. -/
def Waits {α : Type} (t : Trace) (x : Except Raised α) : Prop := Returns [] t ∧ ∃ a, x = .ok a

theorem awaitRound_spec (expected : ℕ) (expires : ℚ) :
    (awaitRound o expected expires).Always Answered Waits := by
  rw [awaitRound, bind_eq, always_bind]
  apply depth_spec
  intro answer
  rw [onEnd_ok]
  cases answer.toOption with
  | none => exact ⟨returns_count, _, rfl⟩
  | some n =>
      dsimp only
      split
      · exact ⟨returns_count, _, rfl⟩
      · rw [bind_eq, always_bind, always_clock]
        intro time
        rw [onEnd_ok]
        split
        · exact ⟨returns_count.append returns_clock, _, rfl⟩
        · intro u _
          exact ⟨returns_count.append (returns_clock.append returns_sleep), _, rfl⟩

theorem awaitReturned_spec (fuel expected : ℕ) (expires : ℚ) :
    (awaitReturned o fuel expected expires).Always Answered Waits := by
  refine always_iterate (fun t _ ↦ Returns [] t) ?_ ?_ fuel [] () returns_nil
  · intro t u ht
    refine (awaitRound_spec expected expires).mono ?_
    rintro t' x ⟨ht', a, rfl⟩
    have happend : Returns [] (t ++ t') := ht.append ht'
    cases a with
    | inl u => exact happend
    | inr u => exact ⟨happend, _, rfl⟩
  · intro t u ht
    exact ⟨ht, _, rfl⟩

theorem returnDeclined_spec (fuel : ℕ) (declined : List Delivery) :
    (returnDeclined o fuel declined).Always Answered fun t x ↦
      Returns declined t ∧ ∃ a, x = .ok a := by
  rw [returnDeclined]
  split
  case isTrue hempty =>
    obtain rfl := List.isEmpty_iff.mp hempty
    exact ⟨returns_nil, _, rfl⟩
  case isFalse =>
    rw [bind_eq, always_bind]
    apply depth_spec
    intro answer
    rw [onEnd_ok, bind_eq, always_bind]
    refine (nackAll_spec declined).mono ?_
    rintro t x ⟨ht, -, rfl⟩
    rw [onEnd_ok]
    have hreturned : Returns declined ([⟨.messageCount o.queue, answer⟩] ++ t) :=
      returns_count.append ht
    cases answer.toOption with
    | none => exact ⟨by simpa using hreturned, _, rfl⟩
    | some before =>
        dsimp only
        split
        · exact ⟨by simpa using hreturned, _, rfl⟩
        · rw [bind_eq, always_bind, always_clock]
          intro time
          rw [onEnd_ok]
          refine (awaitReturned_spec fuel _ _).mono ?_
          rintro t' x ⟨ht', u, rfl⟩
          have hclock : Returns [] [⟨.clock, time⟩] := returns_clock
          have hwaited := (hreturned.append hclock).append ht'
          exact ⟨by simpa using hwaited, _, rfl⟩

end Replay

end AcemqAmqp
