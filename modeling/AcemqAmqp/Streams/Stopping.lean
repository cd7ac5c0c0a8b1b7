import AcemqAmqp.Consumer.Runtime
import AcemqAmqp.Streams.Reader

/-!
# A reader leaves its stream alone, and stops for good

The questions a delivery can ask are read off the functions it goes through:
none of them publishes to the stream itself, and once the handler has failed
none is left but halting and returning the delivery.  Runs of the reader keep
both, delivery by delivery.
-/

namespace AcemqAmqp

namespace Streams

open Interaction Program Consumer

variable {Payload : Type} {S : Interface}

/-! ## What is asked after the handler -/

/-- Not a question to the handler, and not a message for the stream. -/
def Calm (c : Consumer) : Consumer.Act Payload → Prop
  | .invoke _ => False
  | .publish _ key _ => key ≠ c.queue
  | _ => True

section conclude

variable {c : Consumer} {d : Delivery} {e : Envelope} {A : Assumption (Consumer.Broker Payload)}

theorem asks_ack : (ack d : Consumer.Step Payload Unit).Asks A fun _ q ↦ Calm c q :=
  (asks_call _ _).mpr trivial

theorem asks_nack (requeue : Bool) : (nack d requeue : Consumer.Step Payload Unit).Asks A fun _ q ↦ Calm c q :=
  (asks_call _ _).mpr trivial

theorem asks_republished {key : String} (hkey : key ≠ c.queue) :
    (c.republished d key e : Consumer.Step Payload Bool).Asks A fun _ q ↦ Calm c q := by
  unfold republished republish
  refine Asks.rescue (Asks.bind (Asks.rescue ((asks_call _ _).mpr hkey) fun refused ↦ ?_)
    fun result ↦ ?_) fun failure ↦ ?_
  · split <;> trivial
  · trivial
  · split <;> trivial

theorem asks_setAside {target : String} (htarget : target ≠ c.queue) (reason : String) :
    (c.setAside d e target reason : Consumer.Step Payload Unit).Asks A fun _ q ↦ Calm c q := by
  unfold setAside
  refine Asks.bind (asks_republished htarget) fun delivered ↦ ?_
  split
  · exact asks_ack
  · exact Asks.bind ((asks_perform _).mpr trivial) fun _ ↦ asks_nack true

/-- Without a retry policy a decision that does not put the message back has no wait. -/
theorem decide_asks (hretry : c.retry = noRetry) (a : Ack) :
    (c.decide e a : Consumer.Step Payload _).Asks A (fun _ q ↦ Calm c q) ∧
      (c.decide e a : Consumer.Step Payload _).Always A fun _ x ↦
        onEnd x (fun decided ↦ a.action ≠ .inProgress → decided.2 = none) fun _ ↦ True := by
  unfold Consumer.decide
  cases haction : a.action with
  | accept | reject | park => exact ⟨trivial, fun _ ↦ rfl⟩
  | inProgress => exact ⟨trivial, fun h ↦ absurd rfl h⟩
  | retry =>
      dsimp only
      split
      · exact ⟨trivial, fun _ ↦ rfl⟩
      · split
        · exact ⟨trivial, fun _ ↦ rfl⟩
        · rw [hretry]
          simp only [nextWait_noRetry]
          exact ⟨⟨trivial, fun _ _ ↦ ⟨trivial, fun _ _ ↦ trivial⟩⟩, fun _ _ _ _ _ ↦ rfl⟩

theorem carryOut_asks (settlement : Settlement) :
    (c.carryOut d e settlement none : Consumer.Step Payload Unit).Asks A fun _ q ↦ Calm c q := by
  unfold carryOut
  split
  · exact asks_ack
  · exact Asks.bind ((asks_perform _).mpr trivial) fun _ ↦ asks_nack true
  · exact asks_setAside parkedQueue_ne_self _
  · exact asks_setAside deadLetterQueue_ne_self _
  · contradiction
  · contradiction

theorem conclude_asks (hretry : c.retry = noRetry) {answer : Except Failure Decision}
    (hback : ¬PutsBack answer) : (c.conclude d e answer).Asks A fun _ q ↦ Calm c q := by
  have hdecided : ∀ a : Ack, a.action ≠ .inProgress →
      ((c.decide e a).bind fun decided ↦ c.carryOut d e decided.1 decided.2 : Consumer.Step Payload Unit).Asks A
        fun _ q ↦ Calm c q := by
    intro a haction
    obtain ⟨hasks, halways⟩ := @decide_asks Payload c e A hretry a
    refine (asks_bind _ _).mpr ⟨hasks, halways.mono fun _ x hx ↦ ?_⟩
    cases x with
    | ok decided =>
        have hnone : decided.2 = none := hx haction
        rw [onEnd_ok, hnone]
        exact carryOut_asks decided.1
    | error failure => trivial
  rcases answer with failure | (a | typeName)
  · show (if failure.isException then _ else _ : Consumer.Step Payload Unit).Asks A _
    split
    · exact hdecided (.retry (some failure)) fun haction ↦ nomatch haction
    · trivial
  · exact hdecided a hback
  · exact carryOut_asks (c := c) ⟨.deadLettered, _, none⟩

/-- A delivery the reader stops at is returned, once the consumer is halted. -/
theorem conclude_stops {answer : Except Failure Decision} (h : Stops answer) :
    c.conclude d e answer = (halt.bind fun _ ↦ nack d true : Consumer.Step Payload Unit) := by
  have hdecided : ∀ a : Ack, a.action = .retry → a.error.any Failure.isStopReading = true →
      ((c.decide e a).bind fun decided ↦ c.carryOut d e decided.1 decided.2 : Consumer.Step Payload Unit) =
        halt.bind fun _ ↦ nack d true := by
    intro a haction hstop
    have hstopped : (c.decide e a : Consumer.Step Payload (Settlement × Option Wait)) =
        .ret (⟨.stopped, some ("the reader stopped at it: " ++ describe a.error), none⟩, none) := by
      unfold Consumer.decide
      simp only [haction]
      exact if_pos hstop
    rw [hstopped]
    rfl
  rcases answer with failure | (a | typeName)
  · have hexception : failure.isException = true := by
      have hkind : failure.kind = .stopReading := of_decide_eq_true h
      simp [Failure.isException, hkind]
    show (if failure.isException then _ else _ : Consumer.Step Payload Unit) = _
    rw [if_pos hexception]
    exact hdecided (.retry (some failure)) rfl h
  · exact hdecided a h.1 h.2
  · exact h.elim

end conclude

/-! ## What one delivery asks -/

/-- Not a message for the stream. -/
def Leaves (c : Consumer) : (Around Payload S).Act → Prop
  | .inl (.publish _ key _) => key ≠ c.queue
  | _ => True

/-- What is left to ask once the handler has failed. -/
def Ends (tag : ℕ) : (Around Payload S).Act → Prop
  | .inl .halt => True
  | .inl (.nack tag' requeue) => tag' = tag ∧ requeue = true
  | .inl _ => False
  | .inr _ => True

section work

variable {c : Consumer} {chain : ConsumeNext Payload S} {d : Delivery} {e : Envelope}
  {A : Assumption (Around Payload S)} {G : (Around Payload S).Act → Prop}

theorem asks_answering (hG : ∀ q : Consumer.Act Payload, Calm c q → G (.inl q)) (q : Consumer.Act Payload)
    (hq : Calm c q) : (answering chain q).Asks A fun _ q' ↦ G q' := by
  cases q with
  | invoke => exact hq.elim
  | decode | now | random | publish | sleep | halt | ack | nack => exact ⟨hG _ hq, fun _ _ ↦ trivial⟩

/-- Nothing that a delivery asks is a message for the stream. -/
theorem work_leaves (hretry : c.retry = noRetry) {stop : Bool} (hchain : Keeps stop chain) (fresh : String)
    (read : Instant) (d : Delivery) :
    (c.work chain fresh read d).Asks (Anything _) fun _ q ↦ Leaves c q := by
  have hcalm : ∀ q : Consumer.Act Payload, Calm c q → Leaves (S := S) c (.inl q) := by
    intro q hq
    cases q with
    | publish => exact hq
    | invoke | decode | now | random | sleep | halt | ack | nack => trivial
  cases hread : arrive fresh read d with
  | error failure =>
      rw [work_unreadable hread]
      trivial
  | ok e =>
      cases hhalted : c.halted with
      | true =>
          rw [work_halted hhalted hread]
          exact (asks_call _ _).mpr trivial
      | false =>
          rw [work_decodes hhalted hread]
          refine ⟨trivial, fun decoded _ ↦ ?_⟩
          cases decoded with
          | error failure =>
              refine asks_expand (P := Calm c) ?_ (asks_answering hcalm)
              split
              · exact asks_setAside parkedQueue_ne_self _
              · trivial
          | ok payload =>
              refine asks_andThen (asks_beside (fun _ _ ↦ trivial) _) ?_
              refine (always_beside (fun _ _ _ ↦ trivial) (hchain _)).mono fun t x hx ↦ ?_
              cases x with
              | ok answered => exact asks_expand (conclude_asks hretry hx.2.1) (asks_answering hcalm)
              | error impossible => exact impossible.elim

/-- A question of the consumer's own. -/
def Own : (Around Payload S).Act → Prop
  | .inl _ => True
  | .inr _ => False

theorem outers_of_own {t : List (Event (Around Payload S))} (h : ∀ event ∈ t, Own event.1) :
    outers t = [] := by
  refine List.filterMap_eq_nil_iff.mpr fun event hevent ↦ ?_
  obtain ⟨q | q, r⟩ := event
  · rfl
  · exact (h _ hevent).elim

/-- The handler has failed, with nothing that cannot be caught. -/
def Over (t : List (Event (Around Payload S))) : Prop := Catchable (outers t) ∧ Failed (outers t)

/-- The consumer was halted. -/
def Halts (t : List (Event (Around Payload S))) : Prop := ∃ event ∈ t, event.1 = .inl .halt

/-- After the events `t`: once the handler has failed there is nothing left but
to halt and to return the delivery, and halting does come. -/
structure StopsAt (tag : ℕ) (t : List (Event (Around Payload S)))
    (rest : Program (Around Payload S) Failure Unit) : Prop where
  asks : rest.Asks (Anything _) fun t' q ↦ Over (t ++ t') → Ends tag q
  halts : rest.Always (Anything _) fun t' _ ↦ Over (t ++ t') → Halts (t ++ t')

section stopsAt

variable {tag : ℕ} {t : List (Event (Around Payload S))}

theorem not_over_nil : ¬Over ([] : List (Event (Around Payload S))) := by
  rintro ⟨-, message, outcome, hmem, -⟩
  exact absurd hmem List.not_mem_nil

theorem not_over_own {t' : List (Event (Around Payload S))} (h : ∀ event ∈ t', Own event.1)
    (hfine : ¬Over t) : ¬Over (t ++ t') := by
  rwa [Over, outers_append, outers_of_own h, List.append_nil]

theorem stopsAt_own {rest : Program (Around Payload S) Failure Unit}
    (h : rest.Asks (Anything _) fun _ q ↦ Own q) (hfine : ¬Over t) : StopsAt tag t rest where
  asks := h.history.mono fun _ _ hown hover ↦ absurd hover (not_over_own hown.1 hfine)
  halts := h.always.mono fun _ _ hown hover ↦ absurd hover (not_over_own hown hfine)

theorem stopsAt_ask {q : (Around Payload S).Act}
    {next : (Around Payload S).Ans q → Program (Around Payload S) Failure Unit} :
    StopsAt tag t (.ask q next) ↔ (Over t → Ends tag q) ∧ ∀ r, StopsAt tag (t ++ [⟨q, r⟩]) (next r) := by
  constructor
  · rintro ⟨⟨hq, hasks⟩, hhalts⟩
    refine ⟨by simpa using hq, fun r ↦ ⟨?_, ?_⟩⟩
    · simpa only [List.append_assoc, List.singleton_append] using hasks r trivial
    · simpa only [List.append_assoc, List.singleton_append] using hhalts r trivial
  · rintro ⟨hq, hnext⟩
    refine ⟨⟨by simpa using hq, fun r _ ↦ ?_⟩, fun r _ ↦ ?_⟩
    · simpa only [List.append_assoc, List.singleton_append] using (hnext r).asks
    · simpa only [List.append_assoc, List.singleton_append] using (hnext r).halts

theorem stopsAt_andThen {ρ : Type} {p : Program (Around Payload S) Empty ρ}
    {f : ρ → Program (Around Payload S) Failure Unit}
    (hasks : p.Asks (Anything _) fun t' q ↦ Over (t ++ t') → Ends tag q)
    (hf : p.Always (Anything _) fun t' x ↦ onEnd x (fun r ↦ StopsAt tag (t ++ t') (f r)) fun _ ↦ True) :
    StopsAt tag t (p.andThen f) := by
  constructor
  · refine asks_andThen hasks (hf.mono fun t' x hx ↦ ?_)
    cases x with
    | ok r =>
        rw [onEnd_ok] at hx ⊢
        simpa only [List.append_assoc] using hx.asks
    | error impossible => exact impossible.elim
  · refine always_andThen (hf.mono fun t' x hx ↦ ?_)
    cases x with
    | ok r =>
        rw [onEnd_ok] at hx ⊢
        simpa only [List.append_assoc] using hx.halts
    | error impossible => exact impossible.elim

/-- The consumer halts, and returns the delivery. -/
theorem stopsAt_halting {chain : ConsumeNext Payload S} {d : Delivery} :
    StopsAt d.tag t ((halt.bind fun _ ↦ nack d true : Consumer.Step Payload Unit).expand (answering chain)) := by
  refine stopsAt_ask.mpr ⟨fun _ ↦ trivial, fun halted ↦ stopsAt_ask.mpr ⟨fun _ ↦ ⟨rfl, rfl⟩, fun answer ↦ ?_⟩⟩
  have hhalts : ∀ t', Halts (t ++ [⟨.inl .halt, halted⟩] ++ t') := by
    intro t'
    exact ⟨⟨.inl .halt, halted⟩, by simp, rfl⟩
  cases answer with
  | ok _ | error _ =>
      refine ⟨trivial, fun _ ↦ ?_⟩
      rw [List.append_nil]
      exact hhalts _

end stopsAt

theorem work_stops (hretry : c.retry = noRetry) (hchain : Keeps true chain) (fresh : String)
    (read : Instant) (d : Delivery) : StopsAt d.tag [] (c.work chain fresh read d) := by
  cases hread : arrive fresh read d with
  | error failure =>
      rw [work_unreadable hread]
      exact stopsAt_own trivial not_over_nil
  | ok e =>
      cases hhalted : c.halted with
      | true =>
          rw [work_halted hhalted hread]
          exact stopsAt_own ((asks_call _ _).mpr trivial) not_over_nil
      | false =>
          have hcalm : ∀ q : Consumer.Act Payload, Calm c q → Own (S := S) (.inl q) := fun _ _ ↦ trivial
          rw [work_decodes hhalted hread]
          refine stopsAt_ask.mpr ⟨fun hover ↦ absurd hover not_over_nil, fun decoded ↦ ?_⟩
          have hdecoded : ¬Over ([⟨.inl (.decode d.body d.contentType), decoded⟩] :
              List (Event (Around Payload S))) := not_over_nil
          cases decoded with
          | error failure =>
              refine stopsAt_own (asks_expand (P := Calm c) ?_ (asks_answering hcalm)) hdecoded
              split
              · exact asks_setAside parkedQueue_ne_self _
              · trivial
          | ok payload =>
              refine stopsAt_andThen (asks_beside (fun _ _ _ ↦ trivial) _) ?_
              refine (always_beside (fun _ _ _ ↦ trivial) (hchain _)).mono fun t x hx ↦ ?_
              cases x with
              | error impossible => exact impossible.elim
              | ok answered =>
                  obtain ⟨-, hback, hstops⟩ := hx
                  by_cases hover : Over t
                  · rw [onEnd_ok, conclude_stops (hstops rfl hover.1 hover.2)]
                    exact stopsAt_halting
                  · exact stopsAt_own (asks_expand (conclude_asks hretry hback) (asks_answering hcalm)) hover

end work

end Streams

end AcemqAmqp
