import AcemqAmqp.Idempotency.Guard

/-!
# Deliveries under one guard

Any number of deliveries go through the guard, one question at a time, and their
store may lose its own claims in between.  What the guard needs of the store is
that only a confirmation makes a key confirmed, and that a claim which finds the
key claimed at every question of it is told so.
-/

namespace AcemqAmqp

namespace Idempotency

open Interaction

section claims

variable {σ : Type} {J : Interface} (Finds : σ → J.Act → Prop)
  (answers : σ → (q : J.Act) → J.Ans q → σ → Prop) (Fails : Interaction.Event J → Prop)

/-- A claim that is told that its key is in progress, as long as whatever it asks finds a live claim
at the time. -/
def Barred : Program J Failure Claim → Prop
  | .ret answer => answer = .inProgress
  | .raise _ => False
  | .ask q next => ∀ s r s', Finds s q → answers s q r s' → Fails ⟨q, r⟩ ∨ Barred (next r)

/-- What finds a live claim is barred from there on, and once it is decided, for good. -/
def BarredIfFound (Decides : J.Act → Prop) : Program J Failure Claim → Prop
  | .ret _ | .raise _ => True
  | .ask q next => ∀ s r s', Finds s q → answers s q r s' →
      (Fails ⟨q, r⟩ ∨ Barred Finds answers Fails (next r)) ∧
        (Decides q → (next r).Always (Anything J) fun _ x ↦ x ≠ .ok .claimed)

end claims

/-- A store that deliveries share, and what its questions and answers say of a key.  In its own
vocabulary: a question may confirm a key, an answer may report that a key is confirmed, a state may
show to a question of a claim that another claim is alive and not confirmed, and a question may be
the one that decides whether the claim is made. -/
structure Store (D σ : Type) (J : Interface) where
  calls : D → Calls J
  answer : Sharing σ D J
  release : D → String → J.Act
  released : (d : D) → (key : String) → J.Ans (release d key) → Except Failure Unit
  Confirms : J.Act → String → Prop
  Reports : Interaction.Event J → String → Prop
  Fails : Interaction.Event J → Prop
  Confirmed : σ → String → Prop
  Finds : σ → J.Act → String → Prop
  Decides : J.Act → Prop
  claim_asks : ∀ d key, ((calls d).claim key).Asks (Anything J) fun _ q ↦
    (∀ other, ¬Confirms q other) ∧ ∀ other, q ≠ release d other
  claim_reports : ∀ d key, ((calls d).claim key).Always (Anything J) fun t x ↦
    x = .ok .duplicate → ∃ e ∈ t, Reports e key
  claim_found : ∀ d key, ((calls d).claim key).Stays (Anything J)
    (BarredIfFound (fun s q ↦ Finds s q key) (fun s q r s' ↦ answer s d q r s') Fails Decides)
  confirm_asks : ∀ d key, ((calls d).confirm key).Asks (Anything J) fun _ q ↦
    (∀ other, Confirms q other → other = key) ∧ ∀ s other, ¬Finds s q other
  forget_eq : ∀ d key, (calls d).forget key = .call (release d key) (released d key)
  release_confirms : ∀ d key other, ¬Confirms (release d key) other
  release_finds : ∀ d key s other, ¬Finds s (release d key) other
  confirmed_of_answer : ∀ s d q r s' key, answer s d q r s' → Confirmed s' key → Confirmed s key ∨ Confirms q key
  confirmed_of_reports : ∀ s d q r s' key, answer s d q r s' → Reports ⟨q, r⟩ key → Confirmed s key

namespace Store

variable {D σ Payload : Type} {J : Interface} (store : Store D σ J)

/-- The store answers what is asked of it, and the handlers answer what they like. -/
def answers : Sharing σ D (Guarding Payload J)
  | s, _, .inl _, _, s' => s' = s
  | s, d, .inr q, r, s' => store.answer s d q r s'

/-- Leases run out, rows are purged, and whatever else may happen that confirms nothing. -/
def Drifts (s s' : σ) : Prop := ∀ key, store.Confirmed s' key → store.Confirmed s key

variable (key : Option (Message Payload → Except Failure String)) (inProgressDelay : Duration)
  (messages : D → Message Payload)

/-- The guard of one delivery. -/
def delivery (d : D) : Program (Guarding Payload J) Failure Ack :=
  guarded (store.calls d) key inProgressDelay (messages d)

/-- Some run of the handler for this key has returned accept. -/
def Done (h : List (D × Interaction.Event (Guarding Payload J))) (identity : String) : Prop :=
  ∃ d decided, identify key (messages d) = .ok identity ∧ (d, ⟨.inl (messages d), decided⟩) ∈ h ∧ Accepts decided

/-- What is left of a delivery puts it back in progress and does not run the handler, as long as
whatever it asks finds a live claim at the time, whatever happens in between. -/
def PutsBack (d : D) (identity : String) : Program (Guarding Payload J) Failure Ack → Prop
  | .ret a => a = .inProgress inProgressDelay
  | .raise _ | .ask (.inl _) _ => False
  | .ask (.inr q) next => ∀ s r s', store.Finds s q identity → store.answer s d q r s' →
      store.Fails ⟨q, r⟩ ∨ PutsBack d identity (next r)

/-- What is left of a delivery never runs the handler. -/
def Unhandled (p : Program (Guarding Payload J) Failure Ack) : Prop :=
  p.Asks (Anything _) fun _ q ↦ ∀ m, q ≠ .inl m

/-- What the guard promises of every delivery.  `found` is about the claim: as long as each of its
questions finds a live claim, the delivery is put back, and if the one that decides does, its
handler is not run. -/
structure Guards [DecidableEq D] (s : σ) (h : List (D × Interaction.Event (Guarding Payload J)))
    (ps : D → Program (Guarding Payload J) Failure Ack) : Prop where
  accepted : ∀ d a, ps d = .ret a → a.action = .accept →
    ∃ identity, identify key (messages d) = .ok identity ∧ Done key messages h identity
  found : ∀ d identity q next, identify key (messages d) = .ok identity → ps d = .ask (.inr q) next →
    store.Finds s q identity → (∀ decided, (d, ⟨.inl (messages d), decided⟩) ∉ h) ∧
      ∀ r s', store.answer s d q r s' →
        (store.Fails ⟨q, r⟩ ∨ store.PutsBack inProgressDelay d identity (next r)) ∧
          (store.Decides q → Unhandled (next r))
  released : ∀ d decided y, (d, ⟨.inl (messages d), decided⟩) ∈ h → ¬Accepts decided → ps d = .ofExcept y →
    ∃ identity t r, identify key (messages d) = .ok identity ∧
      project d h = t ++ [⟨.inr (store.release d identity), r⟩] ∧
      (∀ e ∈ t, e.1 ≠ .inr (store.release d identity)) ∧ y = seen decided (store.released d identity r)

variable {store} {key} {inProgressDelay} {messages}

/-! ## What is asked -/

theorem asks_quietly {work : Program J Failure Unit} {P : J.Act → Prop}
    (hwork : work.Asks (Anything J) fun _ q ↦ P q) :
    (quietly work : Program (Guarding Payload J) Failure Unit).Asks (Anything _)
      fun _ q ↦ ∃ q', q = .inr q' ∧ P q' := by
  refine Program.Asks.rescue (hwork.beside fun _ _ _ ↦ trivial) fun failure ↦ ?_
  split <;> trivial

theorem asks_forget {P : J.Act → Prop} {d : D} {identity : String} (h : P (store.release d identity)) :
    ((store.calls d).forget identity).Asks (Anything J) fun _ q ↦ P q := by
  rw [store.forget_eq]
  exact (Program.asks_call _ _).mpr h

variable (store) (key) (messages) in
/-- A confirmation is asked for only after the handler has returned accept. -/
def Licensed (d : D) (t : List (Interaction.Event (Guarding Payload J))) (q : (Guarding Payload J).Act) : Prop :=
  ∀ q' other, q = .inr q' → store.Confirms q' other → identify key (messages d) = .ok other ∧
    ∃ decided, ⟨.inl (messages d), decided⟩ ∈ t ∧ Accepts decided

variable {d : D} {t : List (Interaction.Event (Guarding Payload J))} {q : (Guarding Payload J).Act}
  {identity : String}

theorem licensed_of_silent (h : ∃ q', q = .inr q' ∧ ∀ other, ¬store.Confirms q' other) :
    Licensed store key messages d t q := by
  obtain ⟨q, rfl, hsilent⟩ := h
  intro q' other hq hconfirms
  obtain rfl := Sum.inr.inj hq
  exact absurd hconfirms (hsilent other)

theorem asks_underClaim (hidentity : identify key (messages d) = .ok identity)
    (t : List (Interaction.Event (Guarding Payload J))) :
    (underClaim (store.calls d) identity (messages d)).Asks (Anything _) fun t' ↦
      Licensed store key messages d (t ++ t') := by
  have hforget : ∀ u, (quietly ((store.calls d).forget identity)).Asks (Anything _) fun t' ↦
      Licensed store key messages d (t ++ (u ++ t')) :=
    fun u ↦ (asks_quietly (asks_forget (store.release_confirms d identity))).mono fun _ _ ↦ licensed_of_silent
  have hconfirm : ∀ a : Ack, a.action = .accept → (quietly ((store.calls d).confirm identity)).Asks (Anything _)
      fun t' ↦ Licensed store key messages d (t ++ ([⟨.inl (messages d), .ok a⟩] ++ t')) := by
    intro a haccept
    refine (asks_quietly (store.confirm_asks d identity)).mono ?_
    rintro t' _ ⟨q, rfl, hown, -⟩ q' other hq hconfirms
    obtain rfl := Sum.inr.inj hq
    obtain rfl := hown other hconfirms
    exact ⟨hidentity, .ok a, by simp, a, rfl, haccept⟩
  have hhandler : Licensed store key messages d (t ++ []) (.inl (messages d)) :=
    fun _ _ heq ↦ absurd heq Sum.inl_ne_inr
  rw [underClaim, Program.bind_eq, Program.asks_bind, Program.asks_rescue, Program.always_rescue]
  refine ⟨⟨(Program.asks_call _ _).mpr hhandler, (Program.always_call _ _).mpr fun decided _ ↦ ?_⟩,
    (Program.always_call _ _).mpr fun decided _ ↦ ?_⟩
  · rcases decided with failure | a
    · refine (Program.asks_bind _ _).mpr ⟨hforget _, Program.always_iff_runs.mpr fun u x _ ↦ ?_⟩
      cases x <;> trivial
    · trivial
  · rcases decided with failure | a
    · change ((quietly ((store.calls d).forget identity)).bind fun _ ↦ .raise failure).Always (Anything _) _
      refine (Program.always_bind _ _).mpr (Program.always_iff_runs.mpr fun u x _ ↦ ?_)
      cases x <;> trivial
    · refine (Program.asks_bind _ _).mpr ⟨?_, Program.always_iff_runs.mpr fun u x _ ↦ ?_⟩
      · rw [settle]
        split
        · rename_i haccept
          exact hconfirm a haccept
        · exact hforget _
      · cases x <;> trivial

theorem asks_delivery (d : D) :
    (store.delivery key inProgressDelay messages d).Asks (Anything _) (Licensed store key messages d) := by
  rw [delivery, guarded, Program.bind_eq, Program.asks_bind]
  cases hidentity : identify key (messages d) with
  | error failure => exact ⟨trivial, trivial⟩
  | ok identity =>
      refine ⟨trivial, ?_⟩
      change Program.Asks (Anything _) (if identity = "" then _ else _) _
      split
      · trivial
      refine (Program.asks_bind _ _).mpr ⟨(Program.asks_attempt _).mpr ?_, ?_⟩
      · refine ((store.claim_asks d identity).beside fun _ _ _ ↦ trivial).mono ?_
        rintro t _ ⟨q, rfl, hsilent, -⟩
        exact licensed_of_silent ⟨q, rfl, hsilent⟩
      · rw [Program.always_attempt, Program.always_iff_runs]
        intro t claimed _
        rw [Program.onEnd_ok]
        rcases claimed with failure | claim
        · rw [onClaim]
          split <;> trivial
        · cases claim with
          | duplicate | inProgress => trivial
          | claimed => exact asks_underClaim hidentity t

/-! ## What a whole delivery says -/

/-- What holds of a call of the store holds of it beside the handler, which it does not ask. -/
theorem runsBeside_iff {α : Type} {work : Program J Failure α}
    {Q : List (Interaction.Event J) → Except Failure α → Prop}
    (hwork : work.Always (Anything J) Q) {x : Except Failure α} (hrun : RunsBeside work t x) :
    (∀ m (decided : Except Failure Ack), (⟨.inl m, decided⟩ : Interaction.Event (Guarding Payload J)) ∉ t) ∧
      Q (outers t) x := by
  obtain ⟨hnone, hQ⟩ := Program.always_iff_runs.mp (Program.always_beside (fun _ _ _ ↦ trivial) hwork) t x hrun
  refine ⟨fun m decided hmem ↦ ?_, hQ⟩
  have hinner := mem_inners.mpr hmem
  rw [hnone] at hinner
  exact absurd hinner List.not_mem_nil

/-- An event of a call of the store that the call does not ask for. -/
theorem notMem_of_asks {α : Type} {work : Program J Failure α} {P : J.Act → Prop}
    (hwork : work.Asks (Anything J) fun _ q ↦ P q) {x : Except Failure α} (hrun : RunsBeside work t x) {q : J.Act}
    {r : J.Ans q} (hq : ¬P q) : (⟨.inr q, r⟩ : Interaction.Event (Guarding Payload J)) ∉ t :=
  fun hmem ↦ hq ((runsBeside_iff hwork.always hrun).2 _ (mem_outers.mpr hmem))

/-! ## What finds its key claimed -/

variable (store) (key) (inProgressDelay) (messages) in
/-- What is left of a delivery that asks something which finds a live claim is put back. -/
def PutsBackIfFound (d : D) (identity : String) : Program (Guarding Payload J) Failure Ack → Prop
  | .ret _ | .raise _ | .ask (.inl _) _ => True
  | .ask (.inr q) next => ∀ s r s', store.Finds s q identity → store.answer s d q r s' →
      (store.Fails ⟨q, r⟩ ∨ store.PutsBack inProgressDelay d identity (next r)) ∧
        (store.Decides q → Unhandled (next r))

/-- A question that finds a live claim is asked before the handler is run. -/
def Unstarted (store : Store D σ J) (message : Message Payload) (t : List (Interaction.Event (Guarding Payload J)))
    (q : (Guarding Payload J).Act) : Prop :=
  ∀ q' s other, q = .inr q' → store.Finds s q' other → ∀ decided, ⟨.inl message, decided⟩ ∉ t

/-- The handler, and what is asked of the store once it is run. -/
theorem asks_underClaim_blind (d : D) (identity : String) :
    (underClaim (store.calls d) identity (messages d)).Asks (Anything _) fun _ q ↦
      ∀ q' s other, q = .inr q' → ¬store.Finds s q' other := by
  have hblind : ∀ {work : Program J Failure Unit},
      work.Asks (Anything J) (fun _ q ↦ ∀ s other, ¬store.Finds s q other) →
      (quietly work : Program (Guarding Payload J) Failure Unit).Asks (Anything _) fun _ q ↦
        ∀ q' s other, q = .inr q' → ¬store.Finds s q' other := by
    intro work hwork
    refine (asks_quietly hwork).mono ?_
    rintro _ _ ⟨q, rfl, hblind⟩ q' s other heq
    obtain rfl := Sum.inr.inj heq
    exact hblind s other
  have hforget := hblind (asks_forget (P := fun q ↦ ∀ s other, ¬store.Finds s q other)
    (store.release_finds d identity))
  have hconfirm := hblind ((store.confirm_asks d identity).mono fun _ _ h ↦ h.2)
  have hhandler : ∀ q' s other, (Sum.inl (messages d) : (Guarding Payload J).Act) = .inr q' →
      ¬store.Finds s q' other := fun _ _ _ heq ↦ absurd heq Sum.inl_ne_inr
  refine Program.Asks.bind (Program.Asks.rescue ((Program.asks_call _ _).mpr hhandler) fun failure ↦ ?_) fun a ↦ ?_
  · exact Program.Asks.bind hforget fun _ ↦ trivial
  · refine Program.Asks.bind ?_ fun _ ↦ trivial
    rw [settle]
    split
    · exact hconfirm
    · exact hforget

/-- The claim of a delivery, and what follows it. -/
def claiming (store : Store D σ J) (inProgressDelay : Duration) (messages : D → Message Payload) (d : D)
    (identity : String) (claim : Program J Failure Claim) : Program (Guarding Payload J) Failure Ack :=
  (Program.beside claim).attempt.bind (onClaim (store.calls d) inProgressDelay identity (messages d))

theorem unhandled_claiming {claim : Program J Failure Claim}
    (h : claim.Always (Anything J) fun _ x ↦ x ≠ .ok .claimed) :
    Unhandled (claiming store inProgressDelay messages d identity claim) := by
  induction claim with
  | ret answer =>
      cases answer with
      | claimed => exact absurd rfl h
      | duplicate | inProgress => trivial
  | raise failure =>
      change Unhandled (if failure.isException then _ else _)
      split
      · trivial
      · trivial
  | ask q next ih => exact ⟨fun _ ↦ Sum.inr_ne_inl, fun r _ ↦ ih r (h r trivial)⟩

theorem putsBack_claiming {claim : Program J Failure Claim}
    (h : Barred (fun s q ↦ store.Finds s q identity) (fun s q r s' ↦ store.answer s d q r s') store.Fails claim) :
    store.PutsBack inProgressDelay d identity (claiming store inProgressDelay messages d identity claim) := by
  induction claim with
  | ret answer =>
      obtain rfl : answer = .inProgress := h
      rfl
  | raise failure => exact False.elim h
  | ask q next ih => exact fun s r s' hfinds hanswer ↦ (h s r s' hfinds hanswer).imp_right (ih r)

theorem stays_claiming {claim : Program J Failure Claim} (h : claim.Stays (Anything J)
      (BarredIfFound (fun s q ↦ store.Finds s q identity) (fun s q r s' ↦ store.answer s d q r s') store.Fails
        store.Decides)) :
    (claiming store inProgressDelay messages d identity claim).Stays (Anything _)
      (store.PutsBackIfFound inProgressDelay d identity) := by
  induction claim with
  | ret answer =>
      cases answer with
      | duplicate | inProgress => trivial
      | claimed =>
          refine (asks_underClaim_blind d identity).stays (fun q next hblind ↦ ?_) (fun _ ↦ trivial) fun _ ↦ trivial
          rcases q with m | q
          · trivial
          · exact fun s _ _ hfinds ↦ absurd hfinds (hblind q s identity rfl)
  | raise failure =>
      change Program.Stays _ _ (if failure.isException then _ else _)
      split
      · trivial
      · trivial
  | ask q next ih =>
      refine ⟨fun s r s' hfinds hanswer ↦ ?_, fun r _ ↦ ih r (h.2 r trivial)⟩
      obtain ⟨hbarred, hdecided⟩ := h.1 s r s' hfinds hanswer
      exact ⟨hbarred.imp_right putsBack_claiming, fun hdecides ↦ unhandled_claiming (hdecided hdecides)⟩

theorem unstarted_claiming (claim : Program J Failure Claim) (t : List (Interaction.Event (Guarding Payload J)))
    (ht : ∀ decided, ⟨.inl (messages d), decided⟩ ∉ t) :
    (claiming store inProgressDelay messages d identity claim).Asks (Anything _) fun t' ↦
      Unstarted store (messages d) (t ++ t') := by
  induction claim generalizing t with
  | ret answer =>
      cases answer with
      | duplicate | inProgress => trivial
      | claimed =>
          refine (asks_underClaim_blind d identity).mono fun t' q hblind q' s other heq hfinds ↦ ?_
          exact absurd hfinds (hblind q' s other heq)
  | raise failure =>
      change Program.Asks _ (if failure.isException then _ else _) _
      split
      · trivial
      · trivial
  | ask q next ih =>
      refine ⟨fun _ _ _ _ _ ↦ by rwa [List.append_nil], fun r _ ↦ ?_⟩
      refine (ih r (t ++ [⟨.inr q, r⟩]) fun decided hmem ↦ ?_).mono fun t' q' h ↦ by
        rwa [List.append_assoc] at h
      obtain hmem | hmem := List.mem_append.mp hmem
      · exact ht decided hmem
      · cases List.mem_singleton.mp hmem

theorem delivery_eq (hidentity : identify key (messages d) = .ok identity) (hne : identity ≠ "") :
    store.delivery key inProgressDelay messages d =
      claiming store inProgressDelay messages d identity ((store.calls d).claim identity) := by
  rw [delivery, guarded, hidentity]
  exact if_neg hne

/-- A question of a delivery that finds a live claim. -/
theorem found_of_residual (hidentity : identify key (messages d) = .ok identity)
    {q : J.Act} {next : J.Ans q → Program (Guarding Payload J) Failure Ack} {s : σ}
    (hres : Program.Residual (Anything _) (store.delivery key inProgressDelay messages d) t (.ask (.inr q) next))
    (hfinds : store.Finds s q identity) : (∀ decided, ⟨.inl (messages d), decided⟩ ∉ t) ∧
      ∀ r s', store.answer s d q r s' →
        (store.Fails ⟨q, r⟩ ∨ store.PutsBack inProgressDelay d identity (next r)) ∧
          (store.Decides q → Unhandled (next r)) := by
  by_cases hne : identity = ""
  · -- a message without a key asks nothing
    have hdelivery : store.delivery key inProgressDelay messages d = .ret (withoutKey (messages d)) := by
      rw [delivery, guarded, hidentity]
      exact if_pos hne
    rw [hdelivery] at hres
    exact False.elim (hres.asks (G := fun _ _ ↦ False) trivial)
  · rw [delivery_eq hidentity hne] at hres
    have hasks := hres.asks (unstarted_claiming _ [] fun _ ↦ List.not_mem_nil)
    exact ⟨hasks q s identity rfl hfinds,
      fun r s' hanswer ↦ (hres.stays (stays_claiming (store.claim_found d identity))).holds s r s' hfinds hanswer⟩

/-- A call of the store that is one question. -/
theorem runsBeside_call {α : Type} {q : J.Act} {answer : J.Ans q → Except Failure α} {x : Except Failure α}
    (hrun : RunsBeside (Program.call q answer) t x) : ∃ r, t = [⟨.inr q, r⟩] ∧ x = answer r := by
  have hone : (Program.beside (Program.call q answer) : Program (Guarding Payload J) Failure α).Always (Anything _)
      fun t x ↦ ∃ r, t = [⟨.inr q, r⟩] ∧ x = answer r := by
    intro r _
    beta_reduce
    split <;> rename_i heq <;> exact ⟨r, rfl, heq.symm⟩
  exact Program.always_iff_runs.mp hone t x hrun

/-- A run of the handler that does not accept is followed by one release, and by nothing else. -/
theorem released_of_handled {decided : Except Failure Ack} (hother : ¬Accepts decided) :
    (store.delivery key inProgressDelay messages d).Always (Anything _) fun t y ↦ ⟨.inl (messages d), decided⟩ ∈ t →
      ∃ identity u r, identify key (messages d) = .ok identity ∧
        t = u ++ [⟨.inr (store.release d identity), r⟩] ∧ (∀ e ∈ u, e.1 ≠ .inr (store.release d identity)) ∧
        y = seen decided (store.released d identity r) := by
  refine (guarded_course _ _ _ _).mono fun t y hcourse hmem ↦ ?_
  have hclaim : ∀ {other : String} {u : List (Interaction.Event (Guarding Payload J))} {x : Except Failure Claim},
      RunsBeside ((store.calls d).claim other) u x → ⟨.inl (messages d), decided⟩ ∉ u :=
    fun hrun ↦ (runsBeside_iff (store.claim_reports d _) hrun).1 _ _
  cases hcourse with
  | unnamed | empty => exact absurd hmem List.not_mem_nil
  | unclaimed _ hrun | duplicate _ hrun | inProgress _ hrun => exact absurd hmem (hclaim hrun)
  | accepted _ hrun haccept hconfirm =>
      obtain hmem | hmem := List.mem_append.mp hmem
      · exact absurd hmem (hclaim hrun)
      · obtain heq | hmem := List.mem_cons.mp hmem
        · cases heq
          exact absurd ⟨_, rfl, haccept⟩ hother
        · exact absurd hmem ((runsBeside_iff (store.confirm_asks d _).always hconfirm).1 _ _)
  | @released identity c u decided' x hidentity hrun _ hforget =>
      rw [store.forget_eq] at hforget
      obtain ⟨r, rfl, rfl⟩ := runsBeside_call hforget
      obtain rfl : decided' = decided := by
        obtain hmem | hmem := List.mem_append.mp hmem
        · exact absurd hmem (hclaim hrun)
        · obtain heq | hmem := List.mem_cons.mp hmem
          · cases heq
            rfl
          · cases List.mem_singleton.mp hmem
      refine ⟨identity, c ++ [⟨.inl (messages d), decided'⟩], r, hidentity, by simp, ?_, rfl⟩
      rw [List.forall_mem_append, List.forall_mem_singleton]
      refine ⟨fun e hmem heq ↦ ?_, nofun⟩
      obtain ⟨_ | q, r'⟩ := e
      · cases heq
      · exact notMem_of_asks (store.claim_asks d identity) hrun (fun hasked ↦ hasked.2 _ (Sum.inr.inj heq)) hmem

/-- A delivery that is accepted was handled, or the store reported that its key is confirmed. -/
theorem accepted_of_delivery : (store.delivery key inProgressDelay messages d).Always (Anything _) fun t x ↦
    Accepts x → ∃ identity, identify key (messages d) = .ok identity ∧
      ((∃ decided, ⟨.inl (messages d), decided⟩ ∈ t ∧ Accepts decided) ∨
        ∃ q r, ⟨.inr q, r⟩ ∈ t ∧ store.Reports ⟨q, r⟩ identity) := by
  refine (guarded_course _ _ _ _).mono fun t x hcourse haccepts ↦ ?_
  cases hcourse with
  | unnamed =>
      obtain ⟨a, heq, -⟩ := haccepts
      cases heq
  | empty | inProgress =>
      obtain ⟨a, heq, haction⟩ := haccepts
      obtain rfl := Except.ok.inj heq
      cases haction
  | unclaimed =>
      obtain ⟨a, heq, haction⟩ := haccepts
      split at heq
      · obtain rfl := Except.ok.inj heq
        cases haction
      · cases heq
  | duplicate hidentity hrun =>
      obtain ⟨⟨q, r⟩, hmem, hreports⟩ := (runsBeside_iff (store.claim_reports d _) hrun).2 rfl
      exact ⟨_, hidentity, .inr ⟨q, r, mem_outers.mp hmem, hreports⟩⟩
  | accepted hidentity _ haccept =>
      exact ⟨_, hidentity, .inl ⟨_, List.mem_append_right _ List.mem_cons_self, _, rfl, haccept⟩⟩
  | @released _ _ _ decided settled _ _ hother =>
      obtain ⟨a, heq, haction⟩ := haccepts
      rw [seen] at heq
      cases hhushed : hushed settled with
      | error _ =>
          rw [hhushed] at heq
          cases heq
      | ok _ =>
          rw [hhushed] at heq
          exact absurd ⟨a, heq, haction⟩ hother

/-! ## All deliveries -/

section deliveries

variable [DecidableEq D] {init s : σ} {h : List (D × Interaction.Event (Guarding Payload J))}
  {ps : D → Program (Guarding Payload J) Failure Ack}

omit [DecidableEq D] in
theorem Done.append (hdone : Done key messages h identity) (h' : List (D × Interaction.Event (Guarding Payload J))) :
    Done key messages (h ++ h') identity := by
  obtain ⟨d, decided, hidentity, hmem, haccepts⟩ := hdone
  exact ⟨d, decided, hidentity, List.mem_append_left _ hmem, haccepts⟩

/-- Keys are confirmed, and reported to be, only when they are done. -/
theorem done_of_confirmed (hinit : ∀ identity, ¬store.Confirmed init identity)
    (hI : Interleaved (store.delivery key inProgressDelay messages) store.answers store.Drifts init s h ps) :
    (∀ identity, store.Confirmed s identity → Done key messages h identity) ∧
      ∀ d q r identity, (d, ⟨.inr q, r⟩) ∈ h → store.Reports ⟨q, r⟩ identity → Done key messages h identity := by
  refine hI.invariant (fun s h ↦ (∀ identity, store.Confirmed s identity → Done key messages h identity) ∧
      ∀ d q r identity, (d, ⟨.inr q, r⟩) ∈ h → store.Reports ⟨q, r⟩ identity → Done key messages h identity)
    ⟨fun identity hconfirmed ↦ absurd hconfirmed (hinit identity), nofun⟩ ?_ ?_
  · rintro s h ps d (m | q) next r s' hI ⟨hconfirmed, hreports⟩ hps hanswer
    · obtain rfl : s' = s := hanswer
      refine ⟨fun identity hidentity ↦ (hconfirmed identity hidentity).append _, ?_⟩
      intro d' q' r' identity hmem hreport
      obtain hmem | hmem := List.mem_append.mp hmem
      · exact (hreports d' q' r' identity hmem hreport).append _
      · cases List.mem_singleton.mp hmem
    · have hbefore : ∀ identity, store.Confirmed s' identity → Done key messages h identity := by
        intro identity hidentity
        obtain hold | hconfirms := store.confirmed_of_answer s d q r s' identity hanswer hidentity
        · exact hconfirmed identity hold
        · have hres := hI.residual (A := Anything _) (fun _ _ _ _ _ _ ↦ trivial) d
          rw [hps] at hres
          obtain ⟨hkey, decided, hmem, haccepts⟩ := hres.asks (asks_delivery d) q identity rfl hconfirms
          exact ⟨d, decided, hkey, mem_project.mp hmem, haccepts⟩
      refine ⟨fun identity hidentity ↦ (hbefore identity hidentity).append _, ?_⟩
      intro d' q' r' identity hmem hreport
      obtain hmem | hmem := List.mem_append.mp hmem
      · exact (hreports d' q' r' identity hmem hreport).append _
      · cases List.mem_singleton.mp hmem
        exact (hconfirmed identity (store.confirmed_of_reports s d q r s' identity hanswer hreport)).append _
  · exact fun s h s' ⟨hconfirmed, hreports⟩ hdrifts ↦
      ⟨fun identity hidentity ↦ hconfirmed identity (hdrifts identity hidentity), hreports⟩

/-- Whatever the interleaving, the guard keeps its promises. -/
theorem guards (hinit : ∀ identity, ¬store.Confirmed init identity)
    (hI : Interleaved (store.delivery key inProgressDelay messages) store.answers store.Drifts init s h ps) :
    store.Guards key inProgressDelay messages s h ps := by
  have hres : ∀ d, Program.Residual (Anything _) _ (project d h) (ps d) :=
    hI.residual fun _ _ _ _ _ _ ↦ trivial
  refine ⟨fun d a hps haccept ↦ ?_, fun d identity q next hidentity hps hfinds ↦ ?_,
    fun d decided y hmem hother hps ↦ ?_⟩
  · have hrun : Program.Runs (Anything _) (store.delivery key inProgressDelay messages d) (project d h ++ []) (.ok a) :=
      (hps ▸ hres d).runs (.ret a)
    rw [List.append_nil] at hrun
    obtain ⟨identity, hidentity, ⟨decided, hmem, haccepts⟩ | ⟨q, r, hmem, hreports⟩⟩ :=
      Program.always_iff_runs.mp accepted_of_delivery _ _ hrun ⟨a, rfl, haccept⟩
    · exact ⟨identity, hidentity, d, decided, hidentity, mem_project.mp hmem, haccepts⟩
    · exact ⟨identity, hidentity, (done_of_confirmed hinit hI).2 d q r identity (mem_project.mp hmem) hreports⟩
  · obtain ⟨hnone, hfound⟩ := found_of_residual hidentity (hps ▸ hres d) hfinds
    exact ⟨fun decided hmem ↦ hnone decided (mem_project.mpr hmem), hfound⟩
  · have hend : Program.Runs (Anything _) (Program.ofExcept y : Program (Guarding Payload J) Failure Ack) [] y := by
      cases y with
      | ok a => exact .ret a
      | error e => exact .raise e
    have hrun := (hps ▸ hres d).runs hend
    rw [List.append_nil] at hrun
    exact Program.always_iff_runs.mp (released_of_handled hother) _ _ hrun (mem_project.mpr hmem)

end deliveries

end Store

end Idempotency

end AcemqAmqp
