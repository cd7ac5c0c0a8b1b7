import AcemqAmqp.Foundations.Program
import Mathlib.Logic.Function.Basic

/-!
# Interleavings of programs over a shared state

Any number of programs run against one shared state, one question at a time.
A program that is never scheduled again is one that crashed, so crashes need
no rule of their own.  The history records who asked what and what the answer
was; everything known about one program's own events (`Asks`, `Always`) carries
over to its projection of the history.
-/

namespace Interaction

namespace Program

variable {I : Interface} {ε α β : Type} {A : Assumption I}

/-- `Residual A p t p'`: after the events `t` the program `p` has become `p'`. -/
inductive Residual (A : Assumption I) (p : Program I ε α) :
    List (Event I) → Program I ε α → Prop
  | start : Residual A p [] p
  | step {t : List (Event I)} {q : I.Act} {next : I.Ans q → Program I ε α} {r : I.Ans q} :
      Residual A p t (ask q next) → A q r → Residual A p (t ++ [⟨q, r⟩]) (next r)

/-- Whenever the program asks `q` after the events `t`, `G t q` holds. -/
def Asks (A : Assumption I) : Program I ε α → (List (Event I) → I.Act → Prop) → Prop
  | ret _, _ => True
  | raise _, _ => True
  | ask q next, G => G [] q ∧ ∀ r, A q r → (next r).Asks A fun t q' ↦ G (⟨q, r⟩ :: t) q'

variable {G : List (Event I) → I.Act → Prop}

@[simp] theorem asks_ret (a : α) : (ret a : Program I ε α).Asks A G := trivial

@[simp] theorem asks_raise (e : ε) : (raise e : Program I ε α).Asks A G := trivial

@[simp] theorem asks_ask (q : I.Act) (next : I.Ans q → Program I ε α) :
    (ask q next).Asks A G ↔
      G [] q ∧ ∀ r, A q r → (next r).Asks A fun t q' ↦ G (⟨q, r⟩ :: t) q' :=
  Iff.rfl

@[simp] theorem asks_perform (q : I.Act) :
    (perform q : Program I ε _).Asks A G ↔ G [] q := by
  simp [perform]

@[simp] theorem asks_call {ρ : Type} (q : I.Act) (answer : I.Ans q → Except ε ρ) :
    (call q answer).Asks A G ↔ G [] q := by
  simp only [call, asks_ask, and_iff_left_iff_imp]
  intro _ r _
  split <;> trivial

theorem asks_bind (p : Program I ε α) (f : α → Program I ε β) :
    (p.bind f).Asks A G ↔ p.Asks A G ∧ p.Always A fun t x ↦
      onEnd x (fun a ↦ (f a).Asks A fun t' ↦ G (t ++ t')) fun _ ↦ True := by
  induction p generalizing G with
  | ret a => simp
  | raise e => simp
  | ask q next ih =>
      simp only [ask_bind, asks_ask, ih, always_ask, List.cons_append, and_assoc]
      refine and_congr_right fun _ ↦ ⟨fun h ↦ ⟨fun r hA ↦ (h r hA).1, fun r hA ↦ (h r hA).2⟩, ?_⟩
      exact fun h r hA ↦ ⟨h.1 r hA, h.2 r hA⟩

theorem asks_rescue (p : Program I ε α) (h : ε → Program I ε α) :
    (p.rescue h).Asks A G ↔ p.Asks A G ∧ p.Always A fun t x ↦
      onEnd x (fun _ ↦ True) fun e ↦ (h e).Asks A fun t' ↦ G (t ++ t') := by
  induction p generalizing G with
  | ret a => simp [rescue]
  | raise e => simp [rescue]
  | ask q next ih =>
      simp only [rescue, asks_ask, ih, always_ask, List.cons_append, and_assoc]
      refine and_congr_right fun _ ↦ ⟨fun h ↦ ⟨fun r hA ↦ (h r hA).1, fun r hA ↦ (h r hA).2⟩, ?_⟩
      exact fun h r hA ↦ ⟨h.1 r hA, h.2 r hA⟩

theorem asks_attempt (p : Program I ε α) : p.attempt.Asks A G ↔ p.Asks A G := by
  induction p generalizing G with
  | ret a => rfl
  | raise e => rfl
  | ask q next ih => exact and_congr_right fun _ ↦ forall_congr' fun r ↦ imp_congr_right fun _ ↦ ih r

/-- A guarantee that does not look back, of a sequence. -/
theorem Asks.bind {P : I.Act → Prop} {p : Program I ε α} {f : α → Program I ε β}
    (hp : p.Asks A fun _ q ↦ P q) (hf : ∀ a, (f a).Asks A fun _ q ↦ P q) :
    (p.bind f).Asks A fun _ q ↦ P q := by
  refine (asks_bind p f).mpr ⟨hp, always_iff_runs.mpr fun t x _ ↦ ?_⟩
  cases x with
  | ok a => exact hf a
  | error e => trivial

theorem Asks.rescue {P : I.Act → Prop} {p : Program I ε α} {h : ε → Program I ε α}
    (hp : p.Asks A fun _ q ↦ P q) (hh : ∀ e, (h e).Asks A fun _ q ↦ P q) :
    (p.rescue h).Asks A fun _ q ↦ P q := by
  refine (asks_rescue p h).mpr ⟨hp, always_iff_runs.mpr fun t x _ ↦ ?_⟩
  cases x with
  | ok a => trivial
  | error e => exact hh e

theorem Asks.mono {p : Program I ε α} {G' : List (Event I) → I.Act → Prop}
    (h : p.Asks A G) (hG : ∀ t q, G t q → G' t q) : p.Asks A G' := by
  induction p generalizing G G' with
  | ret a => trivial
  | raise e => trivial
  | ask q next ih => exact ⟨hG _ _ h.1, fun r hA ↦ ih r (h.2 r hA) fun t q' ↦ hG _ q'⟩

/-- What remains of a program after some of its events keeps the guarantees of
the whole, with those events put in front. -/
theorem Residual.asks_always {p p' : Program I ε α} {t : List (Event I)}
    {Q : List (Event I) → Except ε α → Prop} (h : Residual A p t p')
    (hG : p.Asks A G) (hQ : p.Always A Q) :
    (p'.Asks A fun t' ↦ G (t ++ t')) ∧ p'.Always A fun t' ↦ Q (t ++ t') := by
  induction h with
  | start => exact ⟨hG, hQ⟩
  | step _ hA ih => simpa using And.intro (ih.1.2 _ hA) (ih.2 _ hA)

theorem Residual.asks {p : Program I ε α} {t : List (Event I)} {q : I.Act}
    {next : I.Ans q → Program I ε α} (h : Residual A p t (ask q next)) (hG : p.Asks A G) :
    G t q := by
  have hQ : p.Always A fun _ _ ↦ True := always_iff_runs.mpr fun _ _ _ ↦ trivial
  simpa using (h.asks_always hG hQ).1.1

theorem Residual.runs {p p' : Program I ε α} {t t' : List (Event I)} {x : Except ε α}
    (h : Residual A p t p') (hr : Runs A p' t' x) : Runs A p (t ++ t') x := by
  induction h generalizing t' with
  | start => exact hr
  | step _ hA ih => simpa using ih (.ask hA hr)

/-- Whatever is left of the program, before it starts and after every answer, is as `P` says. -/
def Stays (A : Assumption I) (P : Program I ε α → Prop) : Program I ε α → Prop
  | ret a => P (ret a)
  | raise e => P (raise e)
  | ask q next => P (ask q next) ∧ ∀ r, A q r → (next r).Stays A P

theorem Stays.holds {P : Program I ε α → Prop} {p : Program I ε α} (h : p.Stays A P) : P p := by
  cases p with
  | ret a | raise e => exact h
  | ask q next => exact h.1

theorem Residual.stays {P : Program I ε α → Prop} {p p' : Program I ε α} {t : List (Event I)}
    (h : Residual A p t p') (hp : p.Stays A P) : p'.Stays A P := by
  induction h with
  | start => exact hp
  | step _ hA ih => exact ih.2 _ hA

/-- What is left of a program does what the program does. -/
theorem Asks.stays {P : Program I ε α → Prop} {p : Program I ε α} {G : I.Act → Prop}
    (h : p.Asks A fun _ q ↦ G q) (hask : ∀ q next, G q → P (ask q next)) (hret : ∀ a, P (ret a))
    (hraise : ∀ e, P (raise e)) : p.Stays A P := by
  induction p with
  | ret a => exact hret a
  | raise e => exact hraise e
  | ask q next ih => exact ⟨hask q next h.1, fun r hA ↦ ih r (h.2 r hA)⟩

end Program

/-! ## Shared states -/

/-- How a shared state answers a question one party asks of it, and the state
it is left in. -/
abbrev Sharing (σ D : Type) (I : Interface) := σ → D → (q : I.Act) → I.Ans q → σ → Prop

variable {I : Interface} {D σ ε α : Type} [DecidableEq D]

/-- The states, histories and remaining programs that some interleaving of the
programs `start` reaches.  `drift` is what the state does on its own. -/
inductive Interleaved (start : D → Program I ε α) (answer : Sharing σ D I)
    (drift : σ → σ → Prop) (init : σ) :
    σ → List (D × Event I) → (D → Program I ε α) → Prop
  | init : Interleaved start answer drift init init [] start
  | step {s s' : σ} {h : List (D × Event I)} {ps : D → Program I ε α} {d : D} {q : I.Act}
      {next : I.Ans q → Program I ε α} {r : I.Ans q} :
      Interleaved start answer drift init s h ps → ps d = .ask q next → answer s d q r s' →
      Interleaved start answer drift init s' (h ++ [(d, ⟨q, r⟩)])
        (Function.update ps d (next r))
  | drift {s s' : σ} {h : List (D × Event I)} {ps : D → Program I ε α} :
      Interleaved start answer drift init s h ps → drift s s' →
      Interleaved start answer drift init s' h ps

/-- The events of one party. -/
def project (d : D) (h : List (D × Event I)) : List (Event I) :=
  h.filterMap fun e ↦ if e.1 = d then some e.2 else none

@[simp] theorem project_nil (d : D) : project d ([] : List (D × Event I)) = [] := rfl

@[simp] theorem project_append (d : D) (h h' : List (D × Event I)) :
    project d (h ++ h') = project d h ++ project d h' := List.filterMap_append ..

@[simp] theorem project_self (d : D) (e : Event I) : project d [(d, e)] = [e] := by
  simp [project]

theorem project_other {d d' : D} (hd : d' ≠ d) (e : Event I) : project d [(d', e)] = [] := by
  simp [project, hd]

theorem mem_project {d : D} {h : List (D × Event I)} {e : Event I} :
    e ∈ project d h ↔ (d, e) ∈ h := by
  simp only [project, List.mem_filterMap]
  constructor
  · rintro ⟨⟨d', e'⟩, hmem, he⟩
    split at he
    · obtain rfl : d' = d := ‹_›
      obtain rfl : e' = e := by simpa using he
      exact hmem
    · cases he
  · exact fun hmem ↦ ⟨_, hmem, by simp⟩

variable {start : D → Program I ε α} {answer : Sharing σ D I} {drift : σ → σ → Prop}
  {init : σ} {A : Assumption I}

/-- Each party has run its own program and nothing else. -/
theorem Interleaved.residual {s : σ} {h : List (D × Event I)} {ps : D → Program I ε α}
    (hA : ∀ s d q r s', answer s d q r s' → A q r)
    (hI : Interleaved start answer drift init s h ps) (d : D) :
    Program.Residual A (start d) (project d h) (ps d) := by
  induction hI with
  | init => exact .start
  | @step s s' h ps d' q next r _ hps hans ih =>
      by_cases hd : d' = d
      · subst hd
        rw [hps] at ih
        simpa using ih.step (hA _ _ _ _ _ hans)
      · simpa [project_other hd, Function.update_of_ne (Ne.symm hd)] using ih
  | drift _ _ ih => exact ih

/-- A party that has asked nothing has not begun. -/
theorem Interleaved.eq_start {s : σ} {h : List (D × Event I)} {ps : D → Program I ε α} {d : D}
    (hI : Interleaved start answer drift init s h ps) (hd : d ∉ h.map Prod.fst) : ps d = start d := by
  induction hI with
  | init => rfl
  | @step _ _ h _ d' _ _ _ _ _ _ ih =>
      rw [List.map_append, List.mem_append, not_or] at hd
      have hne : d ≠ d' := fun heq ↦ hd.2 (List.mem_singleton.mpr heq)
      rw [Function.update_of_ne hne, ih hd.1]
  | drift _ _ ih => exact ih hd

/-- The rule for invariants that speak about the shared state and the history. -/
theorem Interleaved.invariant (Inv : σ → List (D × Event I) → Prop) (hinit : Inv init [])
    (hstep : ∀ s h ps d q next r s', Interleaved start answer drift init s h ps → Inv s h →
      ps d = .ask q next → answer s d q r s' → Inv s' (h ++ [(d, ⟨q, r⟩)]))
    (hdrift : ∀ s h s', Inv s h → drift s s' → Inv s' h)
    {s : σ} {h : List (D × Event I)} {ps : D → Program I ε α}
    (hI : Interleaved start answer drift init s h ps) : Inv s h := by
  induction hI with
  | init => exact hinit
  | step hI hps hans ih => exact hstep _ _ _ _ _ _ _ _ hI ih hps hans
  | drift _ hd ih => exact hdrift _ _ _ ih hd

/-- What the shared state makes of the events of one party, when nobody else asks anything. -/
inductive Follows (answer : Sharing σ D I) (d : D) : σ → List (Event I) → σ → Prop
  | nil (s : σ) : Follows answer d s [] s
  | cons {s s' s'' : σ} {q : I.Act} {r : I.Ans q} {t : List (Event I)} :
      answer s d q r s' → Follows answer d s' t s'' → Follows answer d s (⟨q, r⟩ :: t) s''

/-- One party can run to its end while the others wait. -/
theorem Interleaved.runs {s s' : σ} {h : List (D × Event I)} {ps : D → Program I ε α} {d : D}
    {p : Program I ε α} {t : List (Event I)} {x : Except ε α}
    (hI : Interleaved start answer drift init s h ps) (hp : ps d = p) (hr : Program.Runs A p t x)
    (hf : Follows answer d s t s') :
    Interleaved start answer drift init s' (h ++ t.map (d, ·)) (Function.update ps d (.ofExcept x)) := by
  induction hr generalizing s h ps with
  | ret | raise =>
      cases hf
      have hsame : Function.update ps d (ps d) = ps := Function.update_eq_self d ps
      rw [hp] at hsame
      rw [List.map_nil, List.append_nil]
      exact hsame.symm ▸ hI
  | ask _ _ ih =>
      cases hf with
      | cons hanswer hrest =>
          have hnext := ih (hI.step hp hanswer) (Function.update_self ..) hrest
          rw [List.append_assoc, Function.update_idem] at hnext
          exact hnext

end Interaction
