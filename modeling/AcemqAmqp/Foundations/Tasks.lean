import AcemqAmqp.Foundations.Interleaving

/-!
# Tasks of an event loop

A task that is given an answer goes on until it has to wait for another one:
what it asks in between is answered at once, by the state the tasks share, and
nothing else happens meanwhile.
-/

namespace Interaction

namespace Program

variable {I : Interface} {ε α σ : Type} {A : Assumption I}

/-- How the questions that are answered at once are answered; the others are waited for. -/
abbrev AtOnce (σ : Type) (I : Interface) := (q : I.Act) → Option (σ → I.Ans q × σ)

/-- A task after going on until it waits: what it asked, what is left of it, and the state. -/
structure Advanced (I : Interface) (ε α σ : Type) where
  events : List (Event I)
  rest : Program I ε α
  state : σ

def advance (now : AtOnce σ I) : Program I ε α → σ → Advanced I ε α σ
  | ret a, s => ⟨[], ret a, s⟩
  | raise e, s => ⟨[], raise e, s⟩
  | ask q next, s =>
      match now q with
      | none => ⟨[], ask q next, s⟩
      | some f =>
          let gone := advance now (next (f s).1) (f s).2
          ⟨⟨q, (f s).1⟩ :: gone.events, gone.rest, gone.state⟩

variable {now : AtOnce σ I}

@[simp] theorem advance_ret (a : α) (s : σ) : advance now (ret a : Program I ε α) s = ⟨[], ret a, s⟩ := rfl

@[simp] theorem advance_raise (e : ε) (s : σ) :
    advance now (raise e : Program I ε α) s = ⟨[], raise e, s⟩ := rfl

@[simp] theorem advance_ofExcept (x : Except ε α) (s : σ) :
    advance now (ofExcept x : Program I ε α) s = ⟨[], ofExcept x, s⟩ := by
  cases x with
  | ok a => rfl
  | error e => rfl

theorem ofExcept_ne_ask {x : Except ε α} {q : I.Act} {next : I.Ans q → Program I ε α} :
    ofExcept x ≠ ask q next := by
  cases x with
  | ok a => nofun
  | error e => nofun

theorem ofExcept_injective : Function.Injective (ofExcept : Except ε α → Program I ε α) := by
  intro x y h
  cases x with
  | ok a =>
      cases y with
      | ok b =>
          injection h with hab
          rw [hab]
      | error e => cases h
  | error e =>
      cases y with
      | ok b => cases h
      | error e' =>
          injection h with he
          rw [he]

theorem advance_wait {q : I.Act} (hq : now q = none) (next : I.Ans q → Program I ε α) (s : σ) :
    advance now (ask q next) s = ⟨[], ask q next, s⟩ := by
  rw [advance, hq]

theorem advance_now {q : I.Act} {f : σ → I.Ans q × σ} (hq : now q = some f)
    (next : I.Ans q → Program I ε α) (s : σ) :
    advance now (ask q next) s =
      ⟨⟨q, (f s).1⟩ :: (advance now (next (f s).1) (f s).2).events,
        (advance now (next (f s).1) (f s).2).rest, (advance now (next (f s).1) (f s).2).state⟩ := by
  rw [advance, hq]

end Program

end Interaction
