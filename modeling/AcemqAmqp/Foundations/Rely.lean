import AcemqAmqp.Foundations.Interleaving

/-!
# Programs that rely on one another

Programs that share a state agree on a pact: what always holds of the state, what
each of them may do to it, and what each may rely on while it waits.  A program is
then looked at alone.  `Meets` says that it keeps the pact, and what holds when it
ends; `Interleaved.meets` says that programs that all keep it keep it together.
-/

namespace Interaction

variable {D σ : Type} {I : Interface} {ε α β ρ : Type}

/-- What the parties `D` that share a state have agreed on. -/
structure Pact (D σ : Type) where
  inv : σ → Prop
  rely : D → σ → σ → Prop
  keeps : D → σ → σ → Prop
  rely_refl : ∀ d s, rely d s s
  rely_trans : ∀ d s s' s'', rely d s s' → rely d s' s'' → rely d s s''
  rely_of_keeps : ∀ d d' s s', inv s → d ≠ d' → keeps d s s' → rely d' s s'

/-- What a party can count on to stay as it is. -/
def Pact.Stable (pact : Pact D σ) (d : D) (P : σ → Prop) : Prop :=
  ∀ s s', pact.inv s' → pact.rely d s s' → P s → P s'

namespace Pact

variable {pact : Pact D σ} {d : D} {P P' : σ → Prop}

theorem stable_const (p : Prop) : pact.Stable d fun _ ↦ p := fun _ _ _ _ ↦ id

theorem Stable.and (h : pact.Stable d P) (h' : pact.Stable d P') : pact.Stable d fun s ↦ P s ∧ P' s :=
  fun s s' hinv hrely hs ↦ ⟨h s s' hinv hrely hs.1, h' s s' hinv hrely hs.2⟩

theorem Stable.or (h : pact.Stable d P) (h' : pact.Stable d P') : pact.Stable d fun s ↦ P s ∨ P' s :=
  fun s s' hinv hrely hs ↦ hs.imp (h s s' hinv hrely) (h' s s' hinv hrely)

theorem Stable.all {p : α → Prop} {P : α → σ → Prop} (h : ∀ a, p a → pact.Stable d (P a)) :
    pact.Stable d fun s ↦ ∀ a, p a → P a s :=
  fun s s' hinv hrely hs a ha ↦ h a ha s s' hinv hrely (hs a ha)

theorem Stable.exists {P : α → σ → Prop} (h : ∀ a, pact.Stable d (P a)) :
    pact.Stable d fun s ↦ ∃ a, P a s :=
  fun s s' hinv hrely ⟨a, ha⟩ ↦ ⟨a, h a s s' hinv hrely ha⟩

end Pact

namespace Program

variable {pact : Pact D σ} {answer : Sharing σ D I} {d : D} {s s' : σ}

/-- From the state `s` on, the party `d` keeps the pact, and when it ends, `Q` holds. -/
def Meets (pact : Pact D σ) (answer : Sharing σ D I) (d : D) :
    Program I ε α → (Except ε α → σ → Prop) → σ → Prop
  | ret a, Q, s => ∀ s', pact.inv s' → pact.rely d s s' → Q (.ok a) s'
  | raise e, Q, s => ∀ s', pact.inv s' → pact.rely d s s' → Q (.error e) s'
  | ask q next, Q, s => ∀ s', pact.inv s' → pact.rely d s s' → ∀ r s'', answer s' d q r s'' →
      pact.inv s'' ∧ pact.keeps d s' s'' ∧ (next r).Meets pact answer d Q s''

variable {Q R : Except ε α → σ → Prop}

theorem Meets.stable {p : Program I ε α} (h : p.Meets pact answer d Q s) (hrely : pact.rely d s s') :
    p.Meets pact answer d Q s' := by
  cases p with
  | ret a | raise e => exact fun s'' hinv hrely' ↦ h s'' hinv (pact.rely_trans _ _ _ _ hrely hrely')
  | ask q next => exact fun s'' hinv hrely' ↦ h s'' hinv (pact.rely_trans _ _ _ _ hrely hrely')

theorem Meets.mono {p : Program I ε α} (h : p.Meets pact answer d Q s) (hQ : ∀ x s', Q x s' → R x s') :
    p.Meets pact answer d R s := by
  induction p generalizing s with
  | ret a | raise e => exact fun s' hinv hrely ↦ hQ _ _ (h s' hinv hrely)
  | ask q next ih =>
      intro s' hinv hrely r s'' hanswer
      obtain ⟨hinv', hkeeps, hnext⟩ := h s' hinv hrely r s'' hanswer
      exact ⟨hinv', hkeeps, ih r hnext⟩

/-- What always holds holds in the end. -/
theorem Meets.and_inv {p : Program I ε α} (h : p.Meets pact answer d Q s) :
    p.Meets pact answer d (fun x s' ↦ pact.inv s' ∧ Q x s') s := by
  induction p generalizing s with
  | ret a | raise e => exact fun s' hinv hrely ↦ ⟨hinv, h s' hinv hrely⟩
  | ask q next ih =>
      intro s' hinv hrely r s'' hanswer
      obtain ⟨hinv', hkeeps, hnext⟩ := h s' hinv hrely r s'' hanswer
      exact ⟨hinv', hkeeps, ih r hnext⟩

theorem Meets.bind {p : Program I ε α} {f : α → Program I ε β} {Q : Except ε β → σ → Prop}
    (hinv : pact.inv s) (h : p.Meets pact answer d (fun x s' ↦ onEnd x
      (fun a ↦ (f a).Meets pact answer d Q s') fun e ↦ (raise e : Program I ε β).Meets pact answer d Q s') s) :
    (p.bind f).Meets pact answer d Q s := by
  induction p generalizing s with
  | ret a => exact h s hinv (pact.rely_refl d s)
  | raise e => exact h s hinv (pact.rely_refl d s)
  | ask q next ih =>
      intro s' hinv' hrely r s'' hanswer
      obtain ⟨hinv'', hkeeps, hnext⟩ := h s' hinv' hrely r s'' hanswer
      exact ⟨hinv'', hkeeps, ih r hinv'' hnext⟩

theorem Meets.rescue {p : Program I ε α} {handler : ε → Program I ε α} (hinv : pact.inv s)
    (h : p.Meets pact answer d (fun x s' ↦ onEnd x
      (fun a ↦ (ret a : Program I ε α).Meets pact answer d Q s') fun e ↦ (handler e).Meets pact answer d Q s') s) :
    (p.rescue handler).Meets pact answer d Q s := by
  induction p generalizing s with
  | ret a => exact h s hinv (pact.rely_refl d s)
  | raise e => exact h s hinv (pact.rely_refl d s)
  | ask q next ih =>
      intro s' hinv' hrely r s'' hanswer
      obtain ⟨hinv'', hkeeps, hnext⟩ := h s' hinv' hrely r s'' hanswer
      exact ⟨hinv'', hkeeps, ih r hinv'' hnext⟩

theorem Meets.ensure {p : Program I ε α} {f : Program I ε Unit} (hinv : pact.inv s)
    (h : p.Meets pact answer d (fun x s' ↦ f.Meets pact answer d (fun y s'' ↦ onEnd y
      (fun _ ↦ (ofExcept x : Program I ε α).Meets pact answer d Q s'')
      fun e ↦ (raise e : Program I ε α).Meets pact answer d Q s'') s') s) :
    (p.ensure f).Meets pact answer d Q s := by
  induction p generalizing s with
  | ret a => exact .bind hinv (h s hinv (pact.rely_refl d s))
  | raise e => exact .bind hinv (h s hinv (pact.rely_refl d s))
  | ask q next ih =>
      intro s' hinv' hrely r s'' hanswer
      obtain ⟨hinv'', hkeeps, hnext⟩ := h s' hinv' hrely r s'' hanswer
      exact ⟨hinv'', hkeeps, ih r hinv'' hnext⟩

/-- A party none of whose questions can break the pact keeps it, whatever its program. -/
theorem meets_of_steps (hstep : ∀ s q r s', pact.inv s → answer s d q r s' → pact.inv s' ∧ pact.keeps d s s')
    (p : Program I ε α) (s : σ) : p.Meets pact answer d (fun _ _ ↦ True) s := by
  induction p generalizing s with
  | ret a | raise e => exact fun _ _ _ ↦ trivial
  | ask q next ih =>
      intro s' hinv _ r s'' hanswer
      obtain ⟨hinv', hkeeps⟩ := hstep s' q r s'' hinv hanswer
      exact ⟨hinv', hkeeps, ih r s''⟩

theorem meets_ret {a : α} (hQ : pact.Stable d (Q (.ok a))) (h : Q (.ok a) s) :
    (ret a : Program I ε α).Meets pact answer d Q s := fun s' hinv hrely ↦ hQ s s' hinv hrely h

theorem meets_raise {e : ε} (hQ : pact.Stable d (Q (.error e))) (h : Q (.error e) s) :
    (raise e : Program I ε α).Meets pact answer d Q s := fun s' hinv hrely ↦ hQ s s' hinv hrely h

theorem meets_ofExcept {x : Except ε α} (hQ : pact.Stable d (Q x)) (h : Q x s) :
    (ofExcept x : Program I ε α).Meets pact answer d Q s := by
  cases x with
  | ok a => exact meets_ret hQ h
  | error e => exact meets_raise hQ h

/-- One question, whose answer is the end of the program. -/
theorem meets_call {q : I.Act} {result : I.Ans q → Except ε α} (hQ : ∀ x, pact.Stable d (Q x))
    (h : ∀ s', pact.inv s' → pact.rely d s s' → ∀ r s'', answer s' d q r s'' →
      pact.inv s'' ∧ pact.keeps d s' s'' ∧ Q (result r) s'') :
    (call q result).Meets pact answer d Q s := by
  intro s' hinv hrely r s'' hanswer
  obtain ⟨hinv', hkeeps, hresult⟩ := h s' hinv hrely r s'' hanswer
  have hend : (ofExcept (result r) : Program I ε α).Meets pact answer d Q s'' := meets_ofExcept (hQ _) hresult
  refine ⟨hinv', hkeeps, ?_⟩
  beta_reduce
  split <;> rename_i heq <;> rw [heq] at hend <;> exact hend

end Program

variable [DecidableEq D] {pact : Pact D σ} {answer : Sharing σ D I} {drift : σ → σ → Prop}
  {start : D → Program I ε α} {init s : σ} {h : List (D × Event I)} {ps : D → Program I ε α}
  {Q : D → Except ε α → σ → Prop}

/-- Programs that keep a pact alone keep it together. -/
theorem Interleaved.meets (hinit : pact.inv init)
    (hstart : ∀ d, (start d).Meets pact answer d (Q d) init)
    (hdrift : ∀ s s', drift s s' → pact.inv s → pact.inv s' ∧ ∀ d, pact.rely d s s')
    (hI : Interleaved start answer drift init s h ps) :
    pact.inv s ∧ ∀ d, (ps d).Meets pact answer d (Q d) s := by
  induction hI with
  | init => exact ⟨hinit, hstart⟩
  | @step s s' h ps d q next r _ hps hanswer ih =>
      obtain ⟨hinv, hmeets⟩ := ih
      have hasks := hmeets d
      rw [hps] at hasks
      obtain ⟨hinv', hkeeps, hnext⟩ := hasks s hinv (pact.rely_refl d s) r s' hanswer
      refine ⟨hinv', fun d' ↦ ?_⟩
      by_cases hd : d' = d
      · subst hd
        rwa [Function.update_self]
      · rw [Function.update_of_ne hd]
        exact (hmeets d').stable (pact.rely_of_keeps d d' s s' hinv (Ne.symm hd) hkeeps)
  | drift _ hdrifts ih =>
      obtain ⟨hinv, hrely⟩ := hdrift _ _ hdrifts ih.1
      exact ⟨hinv, fun d ↦ (ih.2 d).stable (hrely d)⟩

end Interaction
