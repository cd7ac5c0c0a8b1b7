import AcemqAmqp.Streams.Stopping

/-!
# Stopping is final

A reader with one worker, from the moment its handler fails on: what is left of
that delivery halts the consumer, and every delivery that waits is returned, by
the worker or by closing, and nothing else is done about it.
-/

namespace AcemqAmqp

namespace Streams

open Interaction Program Consumer

variable {Payload : Type} {S : Interface} {c : Consumer} {chain : ConsumeNext Payload S}

/-- A call of the handler that raised raised an `Exception`. -/
def Caught (event : Event (Around Payload S)) : Prop :=
  ∀ (message : Message Payload) (failure : Failure),
    event = ⟨.inr (.inl message), .error failure⟩ → failure.isException = true

theorem mem_outers {t : List (Event (Around Payload S))} {q : (Inside Payload S).Act}
    {r : (Inside Payload S).Ans q} :
    (⟨q, r⟩ : Event (Inside Payload S)) ∈ outers t ↔ (⟨.inr q, r⟩ : Event (Around Payload S)) ∈ t := by
  simp only [outers, List.mem_filterMap]
  constructor
  · rintro ⟨⟨q' | q', r'⟩, hmem, heq⟩
    · cases heq
    · cases heq
      exact hmem
  · exact fun hmem ↦ ⟨_, hmem, rfl⟩

theorem Over.snoc {t : List (Event (Around Payload S))} {event : Event (Around Payload S)} (h : Over t)
    (hevent : Caught event) : Over (t ++ [event]) := by
  obtain ⟨hcatchable, message, outcome, hmem, hfails⟩ := h
  constructor
  · intro message' failure hraised
    rcases List.mem_append.mp (mem_outers.mp hraised) with hold | hnew
    · exact hcatchable message' failure (mem_outers.mpr hold)
    · exact hevent message' failure (List.mem_singleton.mp hnew).symm
  · refine ⟨message, outcome, mem_outers.mpr ?_, hfails⟩
    exact List.mem_append_left _ (mem_outers.mp hmem)

/-- The worker, once the handler has failed at the delivery `m`: it ends with
`m`, or the consumer is halted and it returns what it takes. -/
inductive Shut (m : ℕ) (halted : Bool) : Worker Payload S → Prop
  | idle : halted = true → Shut m halted .waiting
  | stopping {d : Delivery} {rest : Program (Around Payload S) Failure Unit}
      {t : List (Event (Around Payload S))} : d.tag = m → StopsAt m t rest → Over t →
      (Halts t → halted = true) → Shut m halted (.handling d rest)
  | returning {d : Delivery} {rest : Program (Around Payload S) Failure Unit} : halted = true →
      rest.Asks (Anything _) (fun _ q ↦ q = .inl (.nack d.tag true)) → Shut m halted (.handling d rest)
  | gone {w : Worker Payload S} : w.over → halted = true → Shut m halted w
  | cancelled : Shut m halted .cancelled

section shut

variable {m : ℕ} {s s' : Running Payload S 1} {e : List (Happening Payload S)}

theorem work_returns (hhalted : c.halted = true) (fresh : String) (read : Instant) (d : Delivery) :
    (c.work chain fresh read d).Asks (Anything _) fun _ q ↦ q = .inl (.nack d.tag true) := by
  cases hread : arrive fresh read d with
  | error failure =>
      rw [work_unreadable hread]
      trivial
  | ok envelope =>
      rw [work_halted hhalted hread]
      exact (asks_call _ _).mpr rfl

/-- A question of the worker, and the answer to it. -/
theorem Shut.asked {d : Delivery} {q : (Around Payload S).Act}
    {next : (Around Payload S).Ans q → Program (Around Payload S) Failure Unit}
    (hs : Shut m s.halted (.handling d (.ask q next))) (r : (Around Payload S).Ans q) :
    (d.tag = m ∧ Ends m q ∨ q = .inl (.nack d.tag true)) ∧
      (Caught ⟨q, r⟩ → Shut m (s.after q).halted (.handling d (next r))) := by
  cases hs with
  | @stopping _ _ t htag hstops hover hhalts =>
      obtain ⟨hends, hnext⟩ := stopsAt_ask.mp hstops
      refine ⟨.inl ⟨htag, hends hover⟩, fun hcaught ↦ .stopping htag (hnext r) (hover.snoc hcaught) ?_⟩
      rintro ⟨event, hmem, hhalt⟩
      rcases List.mem_append.mp hmem with hold | hnew
      · have hhalted := hhalts ⟨event, hold, hhalt⟩
        unfold Running.after
        split
        · rfl
        · exact hhalted
      · rw [List.mem_singleton.mp hnew] at hhalt
        change q = .inl .halt at hhalt
        rw [hhalt]
        rfl
  | returning hhalted hasks =>
      obtain ⟨rfl, hrest⟩ := hasks
      exact ⟨.inr rfl, fun _ ↦ .returning hhalted (hrest r trivial)⟩
  | gone h _ => exact h.elim

/-- A delivery is over with once the consumer is halted. -/
theorem Shut.halted {d : Delivery} {rest : Program (Around Payload S) Failure Unit} {halted : Bool}
    (hs : Shut m halted (.handling d rest)) (hrest : rest = .ret () ∨ ∃ failure, rest = .raise failure) :
    halted = true := by
  cases hs with
  | @stopping _ _ t htag hstops hover hhalts =>
      have hends : Over (t ++ []) → Halts (t ++ []) := by
        rcases hrest with rfl | ⟨failure, rfl⟩
        · exact hstops.halts
        · exact hstops.halts
      rw [List.append_nil] at hends
      exact hhalts (hends hover)
  | returning hhalted _ | gone _ hhalted => exact hhalted

theorem Shut.halted_of_waiting {halted : Bool} (hs : Shut m halted (.waiting : Worker Payload S)) :
    halted = true := by
  cases hs with
  | idle h | gone _ h => exact h

theorem Shut.move (hs : Shut m s.halted (s.workers 0)) (hmove : Move c chain s e s')
    (hcaught : ∀ tag event, .asked tag event ∈ e → Caught event) : Shut m s'.halted (s'.workers 0) := by
  cases hmove with
  | deliver | close | stopped | giveBack | skip | drained | joined | cutOff => exact hs
  | @take i d later fresh read hworker =>
      obtain rfl := Subsingleton.elim i 0
      rw [hworker] at hs
      have hhalted : s.halted = true := hs.halted_of_waiting
      rw [set_workers_self]
      exact .returning hhalted (work_returns hhalted fresh read d)
  | @leave i later hworker =>
      obtain rfl := Subsingleton.elim i 0
      rw [hworker] at hs
      rw [set_workers_self]
      exact .gone trivial hs.halted_of_waiting
  | @ask i d q next r hworker =>
      obtain rfl := Subsingleton.elim i 0
      rw [hworker] at hs
      rw [set_workers_self]
      exact (hs.asked r).2 (hcaught _ _ (List.mem_singleton_self _))
  | @settled i d hworker =>
      obtain rfl := Subsingleton.elim i 0
      rw [hworker] at hs
      rw [set_workers_self]
      exact .idle (hs.halted (.inl rfl))
  | @unsettled i d failure hworker =>
      obtain rfl := Subsingleton.elim i 0
      rw [hworker] at hs
      rw [set_workers_self]
      exact .idle (hs.halted (.inr ⟨failure, rfl⟩))
  | @dies i d failure hworker =>
      obtain rfl := Subsingleton.elim i 0
      rw [hworker] at hs
      rw [set_workers_self]
      exact .gone trivial (hs.halted (.inr ⟨failure, rfl⟩))
  | release =>
      change Shut m s.halted (Running.cut (s.workers 0))
      cases hworker : s.workers 0 with
      | waiting | handling => exact .cancelled
      | finished | died | cancelled =>
          rw [hworker] at hs
          exact hs

/-- What is asked once the handler has failed at `m`: the rest of `m`, and the
return of other deliveries. -/
theorem Shut.quiet (hs : Shut m s.halted (s.workers 0)) (hmove : Move c chain s e s') {tag : ℕ}
    {event : Event (Around Payload S)} (hevent : .asked tag event ∈ e) :
    tag = m ∧ Ends m event.1 ∨ event.1 = .inl (.nack tag true) := by
  obtain ⟨i, d, next, hworker, rfl, -⟩ := hmove.asked hevent
  obtain rfl := Subsingleton.elim i 0
  rw [hworker] at hs
  exact (hs.asked event.2).1

/-- What has been asked for a delivery, and what is left of it. -/
theorem carried_stops (hretry : c.retry = noRetry) (hchain : Keeps true chain) :
    Carried c chain fun h d rest ↦ ∃ t, StopsAt d.tag t rest ∧ ∀ event ∈ t, .asked d.tag event ∈ h where
  start _ halted fresh read d := by
    have hretry' : { c with halted := halted }.retry = noRetry := hretry
    have hstops := work_stops hretry' hchain fresh read d
    exact ⟨[], hstops, fun _ hmem ↦ absurd hmem List.not_mem_nil⟩
  ask := by
    rintro h d q next r ⟨t, hstops, hasked⟩
    refine ⟨t ++ [⟨q, r⟩], (stopsAt_ask.mp hstops).2 r, fun event hmem ↦ ?_⟩
    rcases List.mem_append.mp hmem with hold | hnew
    · exact List.mem_append_left _ (hasked event hold)
    · rw [List.mem_singleton.mp hnew]
      exact List.mem_append_right _ (List.mem_singleton_self _)
  more := by
    rintro h e d rest ⟨t, hstops, hasked⟩
    exact ⟨t, hstops, fun event hmem ↦ List.mem_append_left _ (hasked event hmem)⟩

theorem shut_of_fails (hretry : c.retry = noRetry) (hchain : Keeps true chain)
    {h : List (Happening Payload S)} (hgoes : Goes c chain (.initial Payload S 1) h s)
    {message : Message Payload} {outcome : Except Failure Decision}
    (hmove : Move c chain s [.asked m ⟨.inr (.inl message), outcome⟩] s') (hfails : Fails outcome)
    (hcaught : ∀ tag event, .asked tag event ∈ h ++ [.asked m ⟨.inr (.inl message), outcome⟩] →
      Caught event) : Shut m s'.halted (s'.workers 0) := by
  obtain ⟨i, d, next, hworker, rfl, -, rfl⟩ := hmove.asked (List.mem_singleton_self _)
  obtain rfl := Subsingleton.elim i 0
  obtain ⟨t, hstops, hasked⟩ := Goes.carried (carried_stops hretry hchain) hgoes hworker
  rw [set_workers_self]
  refine .stopping rfl ((stopsAt_ask.mp hstops).2 outcome) ⟨?_, message, outcome, ?_, hfails⟩ ?_
  · intro message' failure hraised
    rcases List.mem_append.mp (mem_outers.mp hraised) with hold | hnew
    · exact hcaught _ _ (List.mem_append_left _ (hasked _ hold)) message' failure rfl
    · refine hcaught d.tag _ (List.mem_append_right _ (List.mem_singleton_self _)) message' failure ?_
      exact (List.mem_singleton.mp hnew).symm
  · exact mem_outers.mpr (List.mem_append_right _ (List.mem_singleton_self _))
  · rintro ⟨event, hmem, hhalt⟩
    rcases List.mem_append.mp hmem with hold | hnew
    · show s.halted = true
      exact hgoes.halted (hasked event hold) hhalt
    · rw [List.mem_singleton.mp hnew] at hhalt
      cases hhalt

end shut

/-! ## What becomes of a delivery that waits -/

/-- All that was done about a delivery. -/
def about (tag : ℕ) (h : List (Happening Payload S)) : List (Happening Payload S) :=
  h.filter fun happening ↦ happening.tag = tag

/-- A delivery is returned to the broker. -/
inductive Returns (tag : ℕ) : Happening Payload S → Prop
  | nacked (answer : Except Failure Unit) : Returns tag (.asked tag ⟨.inl (.nack tag true), answer⟩)
  | gaveBack (answer : Except Failure Unit) : Returns tag (.gaveBack tag answer)

/-- Nothing more is asked for a delivery. -/
def Done (tag : ℕ) (w : Worker Payload S) : Prop :=
  ∀ d rest, w = .handling d rest → d.tag = tag → ∀ q next, rest ≠ .ask q next

/-- Where a delivery is that waited when the reader stopped.  `late` says that
closing had emptied the queue before it came. -/
inductive Fate (c : Consumer) (chain : ConsumeNext Payload S) (late : Prop) (d : Delivery)
    (h : List (Happening Payload S)) (s : Running Payload S 1) : Prop
  | waits : some d ∈ s.work → (s.closing.Emptied → late) → about d.tag h = [] → Fate c chain late d h s
  | taken (fresh : String) (read : Instant) : (fromMillis (millis read)).isSome = true →
      s.workers 0 = .handling d (work { c with halted := true } chain fresh read d) →
      about d.tag h = [] → Fate c chain late d h s
  | returned {happening : Happening Payload S} : d.tag < s.taken → Done d.tag (s.workers 0) →
      about d.tag h = [happening] → Returns d.tag happening → Fate c chain late d h s
  | left : d.tag < s.taken → Done d.tag (s.workers 0) → about d.tag h = [] →
      ¬Envelope.Legible d.headers ∨ s.closing = .released false → Fate c chain late d h s

section fate

variable {s s' : Running Payload S 1} {h e : List (Happening Payload S)} {d : Delivery} {late : Prop}

theorem about_append (tag : ℕ) (h e : List (Happening Payload S)) :
    about tag (h ++ e) = about tag h ++ about tag e := List.filter_append ..

theorem about_eq_nil {tag : ℕ} (he : ∀ happening ∈ e, happening.tag ≠ tag) : about tag e = [] :=
  List.filter_eq_nil_iff.mpr fun happening hmem ↦ by simpa using he happening hmem

/-- Nothing is done about a delivery that goes on waiting. -/
theorem about_waiting (hs : Ordered h s) (hmove : Move c chain s e s') (hd : some d ∈ s'.work) :
    about d.tag e = [] := by
  have hs' := hs.move hmove
  refine about_eq_nil fun happening hmem htag ↦ ?_
  have hseen := hs'.seen happening (List.mem_append_right _ hmem)
  have hwaits := hs'.le_of_mem hd
  omega

theorem Done.move {tag : ℕ} (hdone : Done tag (s.workers 0)) (hs : Ordered h s) (htag : tag < s.taken)
    (hmove : Move c chain s e s') : tag < s'.taken ∧ Done tag (s'.workers 0) ∧ about tag e = [] := by
  refine ⟨?_, ?_, about_eq_nil fun happening hmem hsame ↦ ?_⟩
  · obtain ⟨htaken, -⟩ | ⟨htaken, -⟩ | ⟨htaken, -⟩ := hmove.queued <;> omega
  · intro d' rest hworker hd'
    rcases hmove.handling hworker with hold | ⟨-, later, fresh, read, hwork, -, -, -⟩ |
      ⟨q, next, r, hask, -, -⟩
    · exact hdone d' rest hold hd'
    · have hnext := (hs.next hwork).1
      omega
    · exact absurd rfl (hdone d' _ hask hd' q next)
  · cases happening with
    | asked tag' event =>
        obtain ⟨i, d', next, hworker, hd', -⟩ := hmove.asked hmem
        obtain rfl := Subsingleton.elim i 0
        exact hdone d' _ hworker (hd'.trans hsame) event.1 next rfl
    | gaveBack tag' answer =>
        obtain ⟨d', later, hwork, hd'⟩ := hmove.gaveBack hmem
        have hnext := (hs.next hwork).1
        change tag' = tag at hsame
        omega

/-- A delivery that waits goes on waiting, is taken, or is given back. -/
theorem fate_of_waits (hs : Ordered h s) (hshut : s.halted = true ∨ s.workers 0 ≠ .waiting)
    (hmove : Move c chain s e s')
    (hd : some d ∈ s.work) (hlate : s.closing.Emptied → late) (habout : about d.tag h = []) :
    Fate c chain late d (h ++ e) s' := by
  have hstays : some d ∈ s'.work → Fate c chain late d (h ++ e) s' := by
    intro hd'
    refine .waits hd' (fun hemptied ↦ ?_) ?_
    · rcases hmove.emptied hemptied with hbefore | hnone
      · exact hlate hbefore
      · rw [hnone] at hd
        exact absurd hd List.not_mem_nil
    · rw [about_append, habout, about_waiting hs hmove hd', List.append_nil]
  rcases hmove.queued with ⟨-, -, -, d', -, hwork⟩ | ⟨htaken, -, d', hwork, hnext⟩ | ⟨-, -, hwork, -⟩
  · exact hstays (hwork ▸ List.mem_append_left _ hd)
  · have htag := (hs.next hwork).1
    rw [hwork, List.mem_cons, Option.some.injEq] at hd
    rcases hd with rfl | hd
    · rcases hnext with ⟨i, fresh, read, hwaiting, hread, rfl, hs'⟩ | ⟨answer, rfl, hworkers⟩
      · obtain rfl := Subsingleton.elim i 0
        have hhalted := hshut.resolve_right (not_not_intro hwaiting)
        refine .taken fresh read hread ?_ (by rw [List.append_nil, habout])
        rw [hs', set_workers_self, hhalted]
      · refine .returned (by omega) ?_ ?_ (.gaveBack answer)
        · intro d' rest hworker hsame
          have hhandled := hs.handled 0 d' rest (hworkers ▸ hworker)
          omega
        · rw [about_append, habout, List.nil_append]
          exact List.filter_cons_of_pos (by simp [Happening.tag])
    · exact hstays hd
  · exact hstays (List.reduceOption_mem_iff.mp (hwork ▸ List.reduceOption_mem_iff.mpr hd))

/-- A reader that has stopped ends with a delivery at once only when it cannot read it. -/
theorem not_legible_of_over {fresh : String} {read : Instant} (hread : (fromMillis (millis read)).isSome = true)
    {rest : Program (Around Payload S) Failure Unit} (hrest : rest = .ret () ∨ ∃ failure, rest = .raise failure)
    (hwork : work { c with halted := true } chain fresh read d = rest) : ¬Envelope.Legible d.headers := by
  cases henvelope : arrive fresh read d with
  | error failure => exact not_legible_of_arrive hread henvelope
  | ok envelope =>
      rw [work_halted rfl henvelope] at hwork
      obtain rfl | ⟨failure, rfl⟩ := hrest
      · cases hwork
      · cases hwork

/-- All that it asks is to give the delivery back, and it ends with the answer. -/
theorem givesBack_of_asks {fresh : String} {read : Instant} {q : (Around Payload S).Act}
    {next : (Around Payload S).Ans q → Program (Around Payload S) Failure Unit}
    (hwork : work { c with halted := true } chain fresh read d = .ask q next) (r : (Around Payload S).Ans q) :
    Returns d.tag (.asked d.tag ⟨q, r⟩) ∧ ∀ q' next', next r ≠ .ask q' next' := by
  cases henvelope : arrive fresh read d with
  | error failure =>
      rw [work_unreadable henvelope] at hwork
      cases hwork
  | ok envelope =>
      rw [work_halted rfl henvelope] at hwork
      cases hwork
      refine ⟨.nacked r, fun q' next' hrest ↦ ?_⟩
      cases r with
      | ok | error => cases hrest

theorem set_only (s : Running Payload S 1) (i : Fin 1) (w : Worker Payload S) : (s.set i w).workers 0 = w := by
  rw [Subsingleton.elim i 0, set_workers_self]

/-- The worker returns what it takes, unless reading it raises. -/
theorem fate_of_taken (hs : Ordered h s) (hclosed : Closed s) (hmove : Move c chain s e s')
    {fresh : String} {read : Instant} (hread : (fromMillis (millis read)).isSome = true)
    (hworker : s.workers 0 = .handling d (work { c with halted := true } chain fresh read d))
    (habout : about d.tag h = []) : Fate c chain late d (h ++ e) s' := by
  have htaken := hs.handled 0 d _ hworker
  have hsame : (∀ happening ∈ e, happening.tag ≠ d.tag) → s'.workers 0 = s.workers 0 →
      Fate c chain late d (h ++ e) s' := by
    intro hother hworkers
    refine .taken fresh read hread (hworkers.trans hworker) ?_
    rw [about_append, habout, about_eq_nil hother, List.append_nil]
  have hnone : ∀ happening ∈ ([] : List (Happening Payload S)), happening.tag ≠ d.tag :=
    fun _ hmem ↦ absurd hmem List.not_mem_nil
  have hleaves : s'.taken = s.taken → e = [] → (∀ d rest, s'.workers 0 ≠ .handling d rest) →
      ¬Envelope.Legible d.headers ∨ s'.closing = .released false →
      Fate c chain late d (h ++ e) s' := by
    rintro htaken' rfl hover hwhy
    refine .left (htaken' ▸ htaken) (fun d' rest hd' ↦ absurd hd' (hover d' rest)) ?_ hwhy
    rw [List.append_nil, habout]
  have hworks : ∀ {i : Fin 1} {w : Worker Payload S}, s.workers i = w →
      .handling d (work { c with halted := true } chain fresh read d) = w := by
    intro i w hi
    rw [← hi, Subsingleton.elim i 0, hworker]
  cases hmove with
  | deliver | close | stopped | skip | drained | joined | cutOff => exact hsame hnone rfl
  | @giveBack d' later answer _ hwork =>
      refine hsame (fun happening hmem ↦ ?_) rfl
      have hnext := (hs.next hwork).1
      rw [List.mem_singleton.mp hmem, Happening.tag]
      omega
  | take _ hwaiting | leave hwaiting => cases hworks hwaiting
  | @ask i d' q next r hask =>
      obtain ⟨rfl, hwork⟩ := Worker.handling.inj (hworks hask)
      obtain ⟨hreturns, hends⟩ := givesBack_of_asks hwork r
      refine .returned ((after_taken _).symm ▸ htaken) ?_ ?_ hreturns
      · intro d' rest hd' _ q' next' hrest
        rw [set_only, hrest] at hd'
        exact hends q' next' (Worker.handling.inj hd').2
      · rw [about_append, habout, List.nil_append]
        exact List.filter_cons_of_pos (by simp [Happening.tag])
  | @settled i d' hret =>
      obtain ⟨rfl, hwork⟩ := Worker.handling.inj (hworks hret)
      refine hleaves rfl rfl (fun d' rest hd' ↦ ?_) (.inl (not_legible_of_over hread (.inl rfl) hwork))
      rw [set_only] at hd'
      cases hd'
  | @unsettled i d' failure hraise | @dies i d' failure hraise =>
      obtain ⟨rfl, hwork⟩ := Worker.handling.inj (hworks hraise)
      refine hleaves rfl rfl (fun d' rest hd' ↦ ?_) (.inl (not_legible_of_over hread (.inr ⟨failure, rfl⟩) hwork))
      rw [set_only] at hd'
      cases hd'
  | @release clean hclosing =>
      refine hleaves rfl rfl (fun d' rest hd' ↦ ?_) (.inr ?_)
      · change Running.cut (s.workers 0) = _ at hd'
        rw [hworker] at hd'
        cases hd'
      · cases clean with
        | false => rfl
        | true =>
            have hover := hclosed.left (hclosing ▸ trivial) 0
            rw [hworker] at hover
            exact hover.elim

theorem Fate.move (hfate : Fate c chain late d h s) (hs : Ordered h s) (hclosed : Closed s)
    (hshut : s.halted = true ∨ s.workers 0 ≠ .waiting) (hmove : Move c chain s e s') :
    Fate c chain late d (h ++ e) s' := by
  cases hfate with
  | waits hd hlate habout => exact fate_of_waits hs hshut hmove hd hlate habout
  | taken fresh read hread hworker habout => exact fate_of_taken hs hclosed hmove hread hworker habout
  | returned htaken hdone habout hreturns =>
      obtain ⟨htaken', hdone', hquiet⟩ := hdone.move hs htaken hmove
      refine .returned htaken' hdone' ?_ hreturns
      rw [about_append, habout, hquiet, List.append_nil]
  | left htaken hdone habout hwhy =>
      obtain ⟨htaken', hdone', hquiet⟩ := hdone.move hs htaken hmove
      refine .left htaken' hdone' ?_ (hwhy.imp_right fun hreleased ↦ hmove.released hreleased)
      rw [about_append, habout, hquiet, List.append_nil]

end fate

/-! ## Runs of a reader -/

/-- Nothing that was asked is a message for `name`. -/
def LeavesAlone (name : String) (h : List (Happening Payload S)) : Prop :=
  ∀ tag exchange message answer, .asked tag ⟨.inl (.publish exchange name message), answer⟩ ∉ h

/-- Nothing but `m` is handled any more, nothing is published, and the consumer
is closing once it is done with `m`. -/
structure Stopped {n : ℕ} (m : ℕ) (h : List (Happening Payload S)) (s : Running Payload S n) : Prop where
  unhandled : ∀ tag message answer, .asked tag ⟨.inr (.inl message), answer⟩ ∈ h → tag = m
  unpublished : ∀ tag exchange key message answer,
    .asked tag ⟨.inl (.publish exchange key message), answer⟩ ∉ h
  closing : (∀ i d rest, s.workers i = .handling d rest → d.tag ≠ m) → s.closing ≠ .no

/-- All that is done about a delivery is to return it, once.  Closing that is
not cut off has returned it, unless reading it raises; the broker takes back what
is left when the channel goes. -/
structure GivenBack {n : ℕ} (late : Prop) (d : Delivery) (h : List (Happening Payload S))
    (s : Running Payload S n) : Prop where
  once : about d.tag h = [] ∨ ∃ happening, about d.tag h = [happening] ∧ Returns d.tag happening
  returned : s.closing = .released true → ¬late → Envelope.Legible d.headers →
    about d.tag h ≠ []

section runs

variable {s s' : Running Payload S 1} {m : ℕ} {h e : List (Happening Payload S)} {d : Delivery} {late : Prop}

theorem Fate.givenBack (hfate : Fate c chain late d h s) (hclosed : Closed s) : GivenBack late d h s := by
  cases hfate with
  | waits hd hlate habout =>
      exact ⟨.inl habout, fun hreleased hnot ↦ absurd (hlate (hreleased ▸ trivial)) hnot⟩
  | taken fresh read hread hworker habout =>
      refine ⟨.inl habout, fun hreleased ↦ ?_⟩
      have hover := hclosed.left (hreleased ▸ trivial) 0
      rw [hworker] at hover
      exact hover.elim
  | returned _ _ habout hreturns =>
      refine ⟨.inr ⟨_, habout, hreturns⟩, fun _ _ _ ↦ ?_⟩
      rw [habout]
      exact List.cons_ne_nil _ _
  | left _ _ habout hwhy =>
      refine ⟨.inl habout, fun hreleased _ hlegible ↦ ?_⟩
      rcases hwhy with hillegible | hcut
      · exact absurd hlegible hillegible
      · rw [hreleased] at hcut
        cases hcut

/-- The consumer is closing once it is done with the delivery its handler failed at. -/
theorem Shut.closing (hs : Shut m s.halted (s.workers 0)) (hclosed : Closed s)
    (hdone : ∀ i d rest, s.workers i = .handling d rest → d.tag ≠ m) : s.closing ≠ .no := by
  cases hworker : s.workers 0 with
  | cancelled => exact hclosed.cancelled 0 hworker
  | handling d rest =>
      rw [hworker] at hs
      cases hs with
      | stopping htag => exact absurd htag (hdone 0 d rest hworker)
      | returning hhalted | gone _ hhalted => exact hclosed.halted hhalted
  | waiting => exact hclosed.halted (hworker ▸ hs).halted_of_waiting
  | finished | died =>
      rw [hworker] at hs
      cases hs with
      | gone _ hhalted => exact hclosed.halted hhalted

/-- What holds from the failure on. -/
structure Since (c : Consumer) (chain : ConsumeNext Payload S) (m : ℕ) (h e : List (Happening Payload S))
    (s s' : Running Payload S 1) : Prop where
  ordered : Ordered (h ++ e) s'
  closed : Closed s'
  shut : Shut m s'.halted (s'.workers 0)
  quiet : ∀ tag event, .asked tag event ∈ e → tag = m ∧ Ends m event.1 ∨ event.1 = .inl (.nack tag true)
  fate : ∀ {late : Prop} {d : Delivery}, Fate c chain late d h s → Fate c chain late d (h ++ e) s'

theorem Shut.since (hs : Shut m s.halted (s.workers 0)) (hordered : Ordered h s) (hclosed : Closed s)
    (hgoes : Goes c chain s e s') (hcaught : ∀ tag event, .asked tag event ∈ e → Caught event) :
    Since c chain m h e s s' := by
  induction hgoes with
  | refl =>
      have hnil : h = h ++ [] := (List.append_nil h).symm
      exact ⟨hnil ▸ hordered, hclosed, hs, fun _ _ hmem ↦ absurd hmem List.not_mem_nil, fun hfate ↦ hnil ▸ hfate⟩
  | @step s₁ s₂ e₁ e₂ hgoes hmove ih =>
      have hsince := ih fun tag event hmem ↦ hcaught tag event (List.mem_append_left _ hmem)
      have hawake : s₁.halted = true ∨ s₁.workers 0 ≠ .waiting := by
        by_cases hworker : s₁.workers 0 = .waiting
        · exact .inl (hworker ▸ hsince.shut).halted_of_waiting
        · exact .inr hworker
      have hcaught₂ : ∀ tag event, .asked tag event ∈ e₂ → Caught event :=
        fun tag event hmem ↦ hcaught tag event (List.mem_append_right _ hmem)
      have hassoc : h ++ e₁ ++ e₂ = h ++ (e₁ ++ e₂) := List.append_assoc ..
      constructor
      case ordered => exact hassoc ▸ hsince.ordered.move hmove
      case closed => exact hsince.closed.move hmove
      case shut => exact hsince.shut.move hmove hcaught₂
      case quiet =>
        intro tag event hmem
        rcases List.mem_append.mp hmem with hold | hnew
        · exact hsince.quiet tag event hold
        · exact hsince.shut.quiet hmove hnew
      case fate =>
        exact fun hfate ↦ hassoc ▸ (hsince.fate hfate).move hsince.ordered hsince.closed hawake hmove

theorem Since.stopped (hsince : Since c chain m h e s s') : Stopped m e s' := by
  constructor
  case unhandled =>
    intro tag message answer hmem
    rcases hsince.quiet tag _ hmem with ⟨htag, -⟩ | hnack
    · exact htag
    · cases hnack
  case unpublished =>
    intro tag exchange key message answer hmem
    rcases hsince.quiet tag _ hmem with ⟨-, hends⟩ | hnack
    · exact hends
    · cases hnack
  case closing => exact hsince.shut.closing hsince.closed

end runs

theorem stopped_of_fails {n : ℕ} (hn : n = 1) (hretry : c.retry = noRetry) (hchain : Keeps true chain)
    {s₁ s₂ s₃ s₄ : Running Payload S n} {h₁ h₂ h₃ : List (Happening Payload S)} {m : ℕ}
    {message : Message Payload} {outcome : Except Failure Decision}
    (hgoes : Goes c chain (.initial Payload S n) h₁ s₁)
    (hmove : Move c chain s₁ [.asked m ⟨.inr (.inl message), outcome⟩] s₂) (hfails : Fails outcome)
    (hgoes₂ : Goes c chain s₂ h₂ s₃) (hgoes₃ : Goes c chain s₃ h₃ s₄)
    (hcaught : ∀ tag event,
      .asked tag event ∈ h₁ ++ [.asked m ⟨.inr (.inl message), outcome⟩] ++ h₂ ++ h₃ → Caught event) :
    Stopped m (h₂ ++ h₃) s₄ ∧ ∀ d, some d ∈ s₃.work →
      GivenBack s₃.closing.Emptied d
        (h₁ ++ [.asked m ⟨.inr (.inl message), outcome⟩] ++ h₂ ++ h₃) s₄ := by
  subst hn
  have hcaught₂ : ∀ tag event, .asked tag event ∈ h₂ → Caught event := fun tag event hmem ↦
    hcaught tag event (List.mem_append_left _ (List.mem_append_right _ hmem))
  have hcaught₃ : ∀ tag event, .asked tag event ∈ h₃ → Caught event := fun tag event hmem ↦
    hcaught tag event (List.mem_append_right _ hmem)
  have hshut := shut_of_fails hretry hchain hgoes hmove hfails fun tag event hmem ↦
    hcaught tag event (List.mem_append_left _ (List.mem_append_left _ hmem))
  have hsince₂ := hshut.since (hgoes.ordered.move hmove) (hgoes.closed.move hmove) hgoes₂ hcaught₂
  have hsince₃ := hsince₂.shut.since hsince₂.ordered hsince₂.closed hgoes₃ hcaught₃
  refine ⟨⟨fun tag message' answer hmem ↦ ?_, fun tag exchange key message' answer hmem ↦ ?_,
    hsince₃.stopped.closing⟩, fun d hd ↦ ?_⟩
  · rcases List.mem_append.mp hmem with hmem | hmem
    · exact hsince₂.stopped.unhandled tag message' answer hmem
    · exact hsince₃.stopped.unhandled tag message' answer hmem
  · rcases List.mem_append.mp hmem with hmem | hmem
    · exact hsince₂.stopped.unpublished tag exchange key message' answer hmem
    · exact hsince₃.stopped.unpublished tag exchange key message' answer hmem
  · refine (hsince₃.fate (.waits hd id (about_eq_nil fun happening hmem htag ↦ ?_))).givenBack hsince₃.closed
    have hseen := hsince₂.ordered.seen happening hmem
    have hwaits := hsince₂.ordered.le_of_mem hd
    omega

theorem readStream_ok {connection : Connection} {name onFailure : String} {prefetch concurrency : ℤ}
    {r : Reader} (h : readStream connection name prefetch concurrency onFailure = .ok r) :
    r = ⟨⟨connection, name, noRetry, false⟩, onFailure = "stop", concurrency.toNat⟩ := by
  unfold readStream at h
  split at h
  · cases h
  · split at h
    · cases h
    · exact (Except.ok.inj h).symm

/-- A reader publishes nothing to its stream, and one that stops at a failure
stops for good, as long as the interceptors leave to it what the handler asked
for, and what a handler raises is an `Exception`. -/
theorem readStream_stops {connection : Connection} {name onFailure : String} {prefetch concurrency : ℤ}
    {r : Reader} (hreader : readStream connection name prefetch concurrency onFailure = .ok r)
    (repr : Failure → String) {interceptors : List (ConsumeInterceptor Payload S)}
    (hpasses : ∀ interceptor ∈ interceptors, Passes r.stop interceptor) :
    (∀ h s, Goes r.consumer (r.chain repr interceptors) (.initial Payload S r.concurrency) h s →
      LeavesAlone name h) ∧
    (onFailure = "stop" → concurrency = 1 → ∀ h₁ s₁ m message outcome s₂ h₂ s₃ h₃ s₄,
      Goes r.consumer (r.chain repr interceptors) (.initial Payload S r.concurrency) h₁ s₁ →
      Move r.consumer (r.chain repr interceptors) s₁ [.asked m ⟨.inr (.inl message), outcome⟩] s₂ →
      Fails outcome →
      Goes r.consumer (r.chain repr interceptors) s₂ h₂ s₃ →
      Goes r.consumer (r.chain repr interceptors) s₃ h₃ s₄ →
      (∀ tag event,
        .asked tag event ∈ h₁ ++ [.asked m ⟨.inr (.inl message), outcome⟩] ++ h₂ ++ h₃ → Caught event) →
      Stopped m (h₂ ++ h₃) s₄ ∧ ∀ d, some d ∈ s₃.work →
        GivenBack s₃.closing.Emptied d
          (h₁ ++ [.asked m ⟨.inr (.inl message), outcome⟩] ++ h₂ ++ h₃) s₄) := by
  have hchain := r.keeps_chain repr hpasses
  have hr := readStream_ok hreader
  have hname : r.consumer.queue = name := by rw [hr]
  have hretry : r.consumer.retry = noRetry := by rw [hr]
  constructor
  · intro h s hgoes tag exchange message answer hmem
    have hretry' : ∀ halted, { r.consumer with halted := halted }.retry = noRetry := fun _ ↦ hretry
    have hleaves := hgoes.asks (P := Leaves r.consumer)
      (fun halted fresh read d ↦ work_leaves (hretry' halted) hchain fresh read d) hmem
    exact hleaves hname.symm
  · intro hstop hone h₁ s₁ m message outcome s₂ h₂ s₃ h₃ s₄ hgoes hmove hfails hgoes₂ hgoes₃ hcaught
    have hstops : r.stop = true := by rw [hr, hstop]; rfl
    have hworkers : r.concurrency = 1 := by rw [hr, hone]; rfl
    exact stopped_of_fails hworkers hretry (hstops ▸ hchain) hgoes hmove hfails hgoes₂ hgoes₃ hcaught

/-- Two deliveries arrive, and the first is taken and decoded. -/
theorem exists_decoded (c : Consumer) (chain : ConsumeNext Payload S) (hhalted : c.halted = false)
    {first second : Delivery} (hfirst : first.tag = 0) (hsecond : second.tag = 1) {fresh : String}
    {read : Instant} {e : Envelope} (hclock : (fromMillis (millis read)).isSome = true)
    (hread : arrive fresh read first = .ok e)
    (payload : Payload) :
    ∃ s, Goes c chain (.initial Payload S 1)
        [.asked 0 ⟨.inl (.decode first.body first.contentType), .ok payload⟩] s ∧
      s.work = [some second] ∧ s.workers 0 = .handling first
        ((beside (chain (c.contextOf first e payload))).andThen fun answered ↦
          (c.conclude first answered.1.envelope answered.2).expand (answering chain)) := by
  obtain ⟨connection, queue, retry, halted⟩ := c
  obtain rfl : halted = false := hhalted
  have hopen : ∀ clean, Closing.no ≠ .released clean := fun _ ↦ Closing.noConfusion
  have hstart : Goes ⟨connection, queue, retry, false⟩ chain (.initial Payload S 1) [] (.initial Payload S 1) :=
    .refl
  have hgoes := Goes.step (.step (.step hstart (.deliver (d := first) hopen hfirst))
    (.deliver (d := second) hopen hsecond)) (.take (i := 0) fresh rfl rfl hclock)
  have hdecodes : Consumer.work ⟨connection, queue, retry, false⟩ chain fresh read first = _ :=
    work_decodes rfl hread
  have hdecoded := Goes.step hgoes (.ask (i := 0) (d := first)
    (q := .inl (.decode first.body first.contentType)) (.ok payload)
    ((set_workers_self _ _).trans (congrArg (Worker.handling first) hdecodes)))
  rw [hfirst] at hdecoded
  exact ⟨_, hdecoded, rfl, set_workers_self ..⟩

/-- The handler raises at the first of two deliveries, and the second is given back. -/
theorem readStream_stops_events :
    ∃ (r : Reader) (chain : ConsumeNext Unit ⟨Empty, fun _ ↦ Empty⟩)
      (h₁ : List (Happening Unit ⟨Empty, fun _ ↦ Empty⟩)) (s₁ s₂ : Running Unit _ r.concurrency)
      (message : Message Unit) (outcome : Except Failure Decision) (d : Delivery),
      Goes r.consumer chain (.initial Unit _ r.concurrency) h₁ s₁ ∧
      Move r.consumer chain s₁ [.asked 0 ⟨.inr (.inl message), outcome⟩] s₂ ∧ Fails outcome ∧
      some d ∈ s₂.work ∧ ∀ h₂ s₃, Goes r.consumer chain s₂ h₂ s₃ →
        (∀ tag event, .asked tag event ∈ h₁ ++ [.asked 0 ⟨.inr (.inl message), outcome⟩] ++ [] ++ h₂ →
          Caught event) →
        Stopped 0 ([] ++ h₂) s₃ ∧ GivenBack s₂.closing.Emptied d
          (h₁ ++ [.asked 0 ⟨.inr (.inl message), outcome⟩] ++ [] ++ h₂) s₃ := by
  let r : Reader := ⟨⟨⟨5000000, 1000⟩, "events", noRetry, false⟩, true, 1⟩
  let first : Delivery := ⟨0, [104, 105], none, "events", "m1", ∅, false, ""⟩
  let second : Delivery := ⟨1, [104, 106], none, "events", "m2", ∅, false, ""⟩
  have hreader : readStream ⟨5000000, 1000⟩ "events" 10 1 "stop" = .ok r := rfl
  have hpasses : ∀ interceptor ∈ ([] : List (ConsumeInterceptor Unit ⟨Empty, fun _ ↦ Empty⟩)),
      Passes r.stop interceptor := fun _ hmem ↦ absurd hmem List.not_mem_nil
  let chain : ConsumeNext Unit ⟨Empty, fun _ ↦ Empty⟩ := r.chain Failure.text []
  let e := Envelope.new "m1" "events" 0
  obtain ⟨s₁, hgoes, hwork, hworker⟩ := exists_decoded r.consumer chain rfl (e := e) (rfl : first.tag = 0)
    (rfl : second.tag = 1) isSome_fromMillis_epoch
    (arrive_empty rfl : arrive "" 0 first = _) ()
  have hfails : Move r.consumer chain s₁ _ _ :=
    .ask (q := .inr (.inl (r.consumer.contextOf first e ()).message))
      (.error (valueError "no such account")) hworker
  have hstops := (readStream_stops hreader Failure.text hpasses).2 rfl rfl
  have hwaits : some second ∈ s₁.work := hwork ▸ List.mem_singleton_self _
  refine ⟨r, chain, _, _, _, _, _, second, hgoes, hfails, trivial, hwaits, fun h₂ s₃ hgoes₂ hcaught ↦ ?_⟩
  obtain ⟨hstopped, hback⟩ := hstops _ _ _ _ _ _ _ _ _ _ hgoes hfails trivial .refl hgoes₂ hcaught
  exact ⟨hstopped, hback second hwaits⟩

/-- An interceptor that answers for the handler has the message appended to the stream. -/
theorem readStream_appends :
    ∃ (connection : Connection) (r : Reader) (interceptor : ConsumeInterceptor Unit ⟨Empty, fun _ ↦ Empty⟩)
      (h : List (Happening Unit ⟨Empty, fun _ ↦ Empty⟩)) (s : Running Unit _ r.concurrency),
      readStream connection "events" 10 1 "stop" = .ok r ∧
      Goes r.consumer (r.chain Failure.text [interceptor]) (.initial Unit _ r.concurrency) h s ∧
      ¬LeavesAlone "events" h := by
  let r : Reader := ⟨⟨⟨5000000, 1000⟩, "events", noRetry, false⟩, true, 1⟩
  let first : Delivery := ⟨0, [104, 105], none, "events", "m1", ∅, false, ""⟩
  let second : Delivery := ⟨1, [104, 106], none, "events", "m2", ∅, false, ""⟩
  let busy : ConsumeInterceptor Unit ⟨Empty, fun _ ↦ Empty⟩ :=
    fun _ context ↦ .ret (context, .ok (.ack (.inProgress 0)))
  let e := Envelope.new "m1" "events" 0
  obtain ⟨s₁, hgoes, -, hworker⟩ := exists_decoded r.consumer (r.chain Failure.text [busy]) rfl (e := e)
    (rfl : first.tag = 0) (rfl : second.tag = 1) isSome_fromMillis_epoch
    (arrive_empty rfl : arrive "" 0 first = _) ()
  have hpublishes : Move r.consumer (r.chain Failure.text [busy]) s₁ _ _ :=
    .ask (q := .inl (.publish "" "events" (hop first e))) (.answered ⟨"m1", true, true, ""⟩) hworker
  refine ⟨⟨5000000, 1000⟩, r, busy, _, _, rfl, .step hgoes hpublishes, fun hleaves ↦ ?_⟩
  exact hleaves _ _ _ _ (List.mem_append_right _ (List.mem_singleton_self _))

end Streams

end AcemqAmqp
