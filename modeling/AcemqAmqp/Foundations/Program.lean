import Mathlib.Tactic.Common

/-!
# Programs that act on an environment

A program is a well-founded tree.  At a node it asks its environment to do
something and continues with the answer; at a leaf it returns or raises.  The
environment is not part of the program, so one program has many runs: `Runs`
lists them, `Always` is the rule for what holds of all of them, and `interp`
is the run against one environment that keeps a state.

Only the answers an assumption admits count, so a guarantee can be stated
against a well-behaved environment without changing the program.
-/

namespace Interaction

/-- What can be asked of an environment, and what each question is answered with. -/
structure Interface where
  Act : Type
  Ans : Act → Type

/-- One question together with the answer it got. -/
abbrev Event (I : Interface) := Σ q : I.Act, I.Ans q

/-- Which answers an environment may give. -/
abbrev Assumption (I : Interface) := (q : I.Act) → I.Ans q → Prop

/-- The environment that may answer anything. -/
def Anything (I : Interface) : Assumption I := fun _ _ ↦ True

inductive Program (I : Interface) (ε α : Type) : Type
  | ret (a : α)
  | raise (e : ε)
  | ask (q : I.Act) (next : I.Ans q → Program I ε α)

namespace Program

variable {I : Interface} {ε α β γ σ : Type}

def bind : Program I ε α → (α → Program I ε β) → Program I ε β
  | ret a, f => f a
  | raise e, _ => raise e
  | ask q next, f => ask q fun r ↦ (next r).bind f

instance : Monad (Program I ε) where
  pure := ret
  bind := bind

/-- Ask one question and return the answer. -/
def perform (q : I.Act) : Program I ε (I.Ans q) := ask q ret

/-- Ask a question whose answer may be an exception, which is raised. -/
def call {ρ : Type} (q : I.Act) (answer : I.Ans q → Except ε ρ) : Program I ε ρ :=
  ask q fun r ↦ match answer r with
    | .ok a => ret a
    | .error e => raise e

/-- A computation that asks nothing. -/
def ofExcept : Except ε α → Program I ε α
  | .ok a => ret a
  | .error e => raise e

/-- `try: p except e: h e`. -/
def rescue : Program I ε α → (ε → Program I ε α) → Program I ε α
  | ret a, _ => ret a
  | raise e, h => h e
  | ask q next, h => ask q fun r ↦ (next r).rescue h

/-- `try: p finally: f`.  What `f` raises replaces what `p` ended with. -/
def ensure : Program I ε α → Program I ε Unit → Program I ε α
  | ret a, f => f.bind fun _ ↦ ret a
  | raise e, f => f.bind fun _ ↦ raise e
  | ask q next, f => ask q fun r ↦ (next r).ensure f

/-- `while True: body`, for at most `fuel` rounds.  A round ends with the next
loop state or with the answer; `none` says that the rounds ran out. -/
def iterate (body : σ → Program I ε (σ ⊕ α)) : ℕ → σ → Program I ε (Option α)
  | 0, _ => ret none
  | fuel + 1, s => (body s).bind fun
      | .inl s' => iterate body fuel s'
      | .inr a => ret (some a)

@[simp] theorem pure_eq (a : α) : (pure a : Program I ε α) = ret a := rfl

@[simp] theorem bind_eq (p : Program I ε α) (f : α → Program I ε β) :
    p >>= f = p.bind f := rfl

@[simp] theorem map_eq (p : Program I ε α) (f : α → β) :
    f <$> p = p.bind fun a ↦ ret (f a) := rfl

@[simp] theorem ret_bind (a : α) (f : α → Program I ε β) : (ret a).bind f = f a := rfl

@[simp] theorem raise_bind (e : ε) (f : α → Program I ε β) :
    (raise e : Program I ε α).bind f = raise e := rfl

@[simp] theorem ask_bind (q : I.Act) (next : I.Ans q → Program I ε α)
    (f : α → Program I ε β) : (ask q next).bind f = ask q fun r ↦ (next r).bind f := rfl

@[simp] theorem bind_ret (p : Program I ε α) : p.bind ret = p := by
  induction p with
  | ret a => rfl
  | raise e => rfl
  | ask q next ih => simp [ih]

theorem bind_assoc (p : Program I ε α) (f : α → Program I ε β) (g : β → Program I ε γ) :
    (p.bind f).bind g = p.bind fun a ↦ (f a).bind g := by
  induction p with
  | ret a => rfl
  | raise e => rfl
  | ask q next ih => simp [ih]

instance : LawfulMonad (Program I ε) :=
  LawfulMonad.mk' _ (by intros; simp) (by intros; rfl) (by intros; exact bind_assoc _ _ _)

/-! ## Runs -/

/-- `Runs A p t x`: under an environment whose answers satisfy `A`, the program
`p` can exchange the events `t` and end with `x`. -/
inductive Runs (A : Assumption I) : Program I ε α → List (Event I) → Except ε α → Prop
  | ret (a : α) : Runs A (ret a) [] (.ok a)
  | raise (e : ε) : Runs A (raise e) [] (.error e)
  | ask {q : I.Act} {next : I.Ans q → Program I ε α} {r : I.Ans q} {t : List (Event I)}
      {x : Except ε α} : A q r → Runs A (next r) t x → Runs A (ask q next) (⟨q, r⟩ :: t) x

/-- `Q` holds of the events and the end of every run under `A`. -/
def Always (A : Assumption I) : Program I ε α → (List (Event I) → Except ε α → Prop) → Prop
  | ret a, Q => Q [] (.ok a)
  | raise e, Q => Q [] (.error e)
  | ask q next, Q => ∀ r, A q r → (next r).Always A fun t x ↦ Q (⟨q, r⟩ :: t) x

/-- One proposition for each way to end. -/
def onEnd (x : Except ε α) (returned : α → Prop) (raised : ε → Prop) : Prop :=
  match x with
  | .ok a => returned a
  | .error e => raised e

@[simp] theorem onEnd_ok (a : α) (returned : α → Prop) (raised : ε → Prop) :
    onEnd (.ok a) returned raised ↔ returned a := Iff.rfl

@[simp] theorem onEnd_error (e : ε) (returned : α → Prop) (raised : ε → Prop) :
    onEnd (.error e) returned raised ↔ raised e := Iff.rfl

variable {A : Assumption I} {Q R : List (Event I) → Except ε α → Prop}

@[simp] theorem always_ret (a : α) : (ret a : Program I ε α).Always A Q ↔ Q [] (.ok a) :=
  Iff.rfl

@[simp] theorem always_raise (e : ε) : (raise e : Program I ε α).Always A Q ↔ Q [] (.error e) :=
  Iff.rfl

@[simp] theorem always_ask (q : I.Act) (next : I.Ans q → Program I ε α) :
    (ask q next).Always A Q ↔
      ∀ r, A q r → (next r).Always A fun t x ↦ Q (⟨q, r⟩ :: t) x :=
  Iff.rfl

@[simp] theorem always_ofExcept (x : Except ε α) : (ofExcept x : Program I ε α).Always A Q ↔ Q [] x := by
  cases x with
  | ok a => rfl
  | error e => rfl

theorem always_iff_runs {p : Program I ε α} :
    p.Always A Q ↔ ∀ t x, Runs A p t x → Q t x := by
  induction p generalizing Q with
  | ret a =>
      refine ⟨fun h t x hr ↦ ?_, fun h ↦ h _ _ (.ret a)⟩
      cases hr
      exact h
  | raise e =>
      refine ⟨fun h t x hr ↦ ?_, fun h ↦ h _ _ (.raise e)⟩
      cases hr
      exact h
  | ask q next ih =>
      refine ⟨fun h t x hr ↦ ?_, fun h r hA ↦ ?_⟩
      · cases hr with
        | ask hA hrun => exact (ih _).mp (h _ hA) _ _ hrun
      · exact (ih r).mpr fun t x hrun ↦ h _ _ (.ask hA hrun)

theorem Always.mono {p : Program I ε α} (h : p.Always A Q) (hQR : ∀ t x, Q t x → R t x) :
    p.Always A R :=
  always_iff_runs.mpr fun t x hr ↦ hQR t x (always_iff_runs.mp h t x hr)

theorem always_bind (p : Program I ε α) (f : α → Program I ε β)
    {Q : List (Event I) → Except ε β → Prop} :
    (p.bind f).Always A Q ↔ p.Always A fun t x ↦
      onEnd x (fun a ↦ (f a).Always A fun t' y ↦ Q (t ++ t') y) fun e ↦ Q t (.error e) := by
  induction p generalizing Q with
  | ret a => simp
  | raise e => simp
  | ask q next ih => simp [ih]

theorem always_rescue (p : Program I ε α) (h : ε → Program I ε α) :
    (p.rescue h).Always A Q ↔ p.Always A fun t x ↦
      onEnd x (fun a ↦ Q t (.ok a)) fun e ↦ (h e).Always A fun t' y ↦ Q (t ++ t') y := by
  induction p generalizing Q with
  | ret a => simp [rescue]
  | raise e => simp [rescue]
  | ask q next ih => simp [rescue, ih]

/-- A computation that asks nothing ends as it does. -/
theorem Runs.of_ofExcept {x y : Except ε α} {t : List (Event I)} (h : Runs A (ofExcept x) t y) :
    t = [] ∧ y = x := by
  cases x with
  | ok a =>
      cases h
      exact ⟨rfl, rfl⟩
  | error e =>
      cases h
      exact ⟨rfl, rfl⟩

theorem Runs.mono {A' : Assumption I} (hA : ∀ q r, A q r → A' q r) {p : Program I ε α}
    {t : List (Event I)} {x : Except ε α} (h : Runs A p t x) : Runs A' p t x := by
  induction h with
  | ret a => exact .ret a
  | raise e => exact .raise e
  | ask hq _ ih => exact .ask (hA _ _ hq) ih

/-- Every answer of a run is one the assumption admits. -/
theorem Runs.answers {p : Program I ε α} {t : List (Event I)} {x : Except ε α}
    (h : Runs A p t x) : ∀ e ∈ t, A e.1 e.2 := by
  induction h with
  | ret a => simp
  | raise e => simp
  | ask hq _ ih => exact List.forall_mem_cons.mpr ⟨hq, ih⟩

/-! Runs of the parts make a run of the whole. -/

theorem Runs.bind_ok {p : Program I ε α} {f : α → Program I ε β} {t t' : List (Event I)} {a : α}
    {x : Except ε β} (h : Runs A p t (.ok a)) (h' : Runs A (f a) t' x) :
    Runs A (p.bind f) (t ++ t') x := by
  generalize hy : Except.ok a = y at h
  induction h with
  | ret b =>
      obtain rfl := Except.ok.inj hy
      exact h'
  | raise e => cases hy
  | ask hA _ ih => exact .ask hA (ih hy)

theorem Runs.bind_error {p : Program I ε α} {f : α → Program I ε β} {t : List (Event I)} {e : ε}
    (h : Runs A p t (.error e)) : Runs A (p.bind f) t (.error e) := by
  generalize hy : Except.error e = y at h
  induction h with
  | ret b => cases hy
  | raise e' =>
      obtain rfl := Except.error.inj hy
      exact .raise e
  | ask hA _ ih => exact .ask hA (ih hy)

theorem Runs.rescue_ok {p : Program I ε α} {h : ε → Program I ε α} {t : List (Event I)} {a : α}
    (hp : Runs A p t (.ok a)) : Runs A (p.rescue h) t (.ok a) := by
  generalize hy : Except.ok a = y at hp
  induction hp with
  | ret b =>
      obtain rfl := Except.ok.inj hy
      exact .ret a
  | raise e => cases hy
  | ask hA _ ih => exact .ask hA (ih hy)

theorem Runs.rescue_error {p : Program I ε α} {h : ε → Program I ε α} {t t' : List (Event I)}
    {e : ε} {x : Except ε α} (hp : Runs A p t (.error e)) (hh : Runs A (h e) t' x) :
    Runs A (p.rescue h) (t ++ t') x := by
  generalize hy : Except.error e = y at hp
  induction hp with
  | ret b => cases hy
  | raise e' =>
      obtain rfl := Except.error.inj hy
      exact hh
  | ask hA _ ih => exact .ask hA (ih hy)

theorem Runs.ensure_ok {p : Program I ε α} {f : Program I ε Unit} {t t' : List (Event I)}
    {x : Except ε α} (hp : Runs A p t x) (hf : Runs A f t' (.ok ())) : Runs A (p.ensure f) (t ++ t') x := by
  induction hp with
  | ret a =>
      have hall : Runs A (f.bind fun _ ↦ Program.ret a) (t' ++ []) (.ok a) := hf.bind_ok (.ret a)
      rwa [List.append_nil] at hall
  | raise e =>
      have hall : Runs A (f.bind fun _ ↦ (Program.raise e : Program I ε α)) (t' ++ []) (.error e) :=
        hf.bind_ok (.raise e)
      rwa [List.append_nil] at hall
  | ask hA _ ih => exact .ask hA ih

theorem Runs.ensure_error {p : Program I ε α} {f : Program I ε Unit} {t t' : List (Event I)}
    {x : Except ε α} {e : ε} (hp : Runs A p t x) (hf : Runs A f t' (.error e)) :
    Runs A (p.ensure f) (t ++ t') (.error e) := by
  induction hp with
  | ret | raise => exact hf.bind_error
  | ask hA _ ih => exact .ask hA ih

@[simp] theorem always_perform (q : I.Act) {Q : List (Event I) → Except ε (I.Ans q) → Prop} :
    (perform q : Program I ε _).Always A Q ↔ ∀ r, A q r → Q [⟨q, r⟩] (.ok r) :=
  Iff.rfl

@[simp] theorem always_call {ρ : Type} (q : I.Act) (answer : I.Ans q → Except ε ρ)
    {Q : List (Event I) → Except ε ρ → Prop} :
    (call q answer).Always A Q ↔ ∀ r, A q r → Q [⟨q, r⟩] (answer r) := by
  simp only [call, always_ask]
  refine forall_congr' fun r ↦ imp_congr_right fun _ ↦ ?_
  split <;> simp_all

/-- The rule for loops that counts the rounds.  `Inv i` relates the events of
the first `i` rounds to the loop state: a round either restores it or
establishes the postcondition, and so does running out of rounds. -/
theorem always_iterate_counted {body : σ → Program I ε (σ ⊕ α)}
    (Inv : ℕ → List (Event I) → σ → Prop) {Q : List (Event I) → Except ε (Option α) → Prop}
    (hround : ∀ i t s, Inv i t s → (body s).Always A fun t' x ↦
      onEnd x (Sum.elim (Inv (i + 1) (t ++ t')) fun a ↦ Q (t ++ t') (.ok (some a)))
        fun e ↦ Q (t ++ t') (.error e)) (fuel : ℕ) :
    ∀ i t s, Inv i t s → (∀ t s, Inv (i + fuel) t s → Q t (.ok none)) →
      (iterate body fuel s).Always A fun t' x ↦ Q (t ++ t') x := by
  induction fuel with
  | zero =>
      intro i t s h hfuel
      simpa [iterate] using hfuel t s h
  | succ fuel ih =>
      intro i t s h hfuel
      rw [iterate, always_bind]
      refine (hround i t s h).mono ?_
      rintro t' (e | s' | a) hx
      · exact hx
      · have hrest := ih (i + 1) (t ++ t') s' hx (by rwa [Nat.add_right_comm])
        simpa [List.append_assoc] using hrest
      · simpa using hx

/-- The rule for loops whose rounds need no counting. -/
theorem always_iterate {body : σ → Program I ε (σ ⊕ α)} (Inv : List (Event I) → σ → Prop)
    {Q : List (Event I) → Except ε (Option α) → Prop}
    (hround : ∀ t s, Inv t s → (body s).Always A fun t' x ↦
      onEnd x (Sum.elim (Inv (t ++ t')) fun a ↦ Q (t ++ t') (.ok (some a)))
        fun e ↦ Q (t ++ t') (.error e))
    (hfuel : ∀ t s, Inv t s → Q t (.ok none)) (fuel : ℕ) (t : List (Event I)) (s : σ)
    (h : Inv t s) : (iterate body fuel s).Always A fun t' x ↦ Q (t ++ t') x :=
  always_iterate_counted (fun _ ↦ Inv) (fun _ ↦ hround) fuel 0 t s h hfuel

/-! ## Questions and what came before them -/

/-- `G` relates every event of the trace to the events before it. -/
def Guarded (G : List (Event I) → Event I → Prop) (t : List (Event I)) : Prop :=
  ∀ pre e post, t = pre ++ e :: post → G pre e

theorem guarded_nil {G : List (Event I) → Event I → Prop} : Guarded G [] := by
  intro pre e post h
  exact absurd h (by simp)

theorem Guarded.snoc {G : List (Event I) → Event I → Prop} {e : Event I} {t : List (Event I)}
    (h : Guarded G t) (he : G t e) : Guarded G (t ++ [e]) := by
  intro pre e' post heq
  rcases List.eq_nil_or_concat post with rfl | ⟨post, last, rfl⟩
  · obtain ⟨rfl, hlast⟩ := List.append_inj' heq rfl
    obtain rfl : e = e' := by simpa using hlast
    exact he
  · have hsplit : t ++ [e] = (pre ++ e' :: post) ++ [last] := by simpa using heq
    exact h pre e' post (List.append_inj' hsplit rfl).1

/-- A guarantee that looks back only so far composes. -/
theorem Guarded.append {G : List (Event I) → Event I → Prop} {t t' : List (Event I)}
    (hmono : ∀ s pre e, G pre e → G (s ++ pre) e) (h : Guarded G t) (h' : Guarded G t') :
    Guarded G (t ++ t') := by
  intro pre e post heq
  rcases List.append_eq_append_iff.mp heq with ⟨rest, rfl, ht'⟩ | ⟨rest, ht, hrest⟩
  · exact hmono t rest e (h' rest e post ht')
  · cases rest with
    | nil =>
        have ht' : t' = [] ++ e :: post := by simpa using hrest.symm
        have hpre : t = pre := by simpa using ht
        have hlast := hmono t [] e (h' [] e post ht')
        rwa [List.append_nil, hpre] at hlast
    | cons e₀ rest =>
        obtain ⟨rfl, -⟩ := List.cons.inj hrest
        exact h pre e rest ht

/-! ## Runs against a stateful environment -/

/-- The run against the environment `h`: the events, the end, and the state the
environment is left in. -/
def interp (h : σ → (q : I.Act) → I.Ans q × σ) :
    Program I ε α → σ → (List (Event I) × Except ε α) × σ
  | ret a, s => (([], .ok a), s)
  | raise e, s => (([], .error e), s)
  | ask q next, s =>
      let (r, s') := h s q
      let ((t, x), s'') := (next r).interp h s'
      ((⟨q, r⟩ :: t, x), s'')

variable {h : σ → (q : I.Act) → I.Ans q × σ}

@[simp] theorem interp_ret (a : α) (s : σ) :
    (ret a : Program I ε α).interp h s = (([], .ok a), s) := rfl

@[simp] theorem interp_raise (e : ε) (s : σ) :
    (raise e : Program I ε α).interp h s = (([], .error e), s) := rfl

@[simp] theorem interp_ask (q : I.Act) (next : I.Ans q → Program I ε α) (s : σ) :
    (ask q next).interp h s =
      ((⟨q, (h s q).1⟩ :: ((next (h s q).1).interp h (h s q).2).1.1,
        ((next (h s q).1).interp h (h s q).2).1.2),
        ((next (h s q).1).interp h (h s q).2).2) := rfl

theorem interp_bind (p : Program I ε α) (f : α → Program I ε β) (s : σ) :
    (p.bind f).interp h s = match p.interp h s with
      | ((t, .ok a), s') => ((t ++ ((f a).interp h s').1.1, ((f a).interp h s').1.2),
          ((f a).interp h s').2)
      | ((t, .error e), s') => ((t, .error e), s') := by
  induction p generalizing s with
  | ret a => rfl
  | raise e => rfl
  | ask q next ih =>
      simp only [ask_bind, interp_ask, ih]
      rcases (next (h s q).1).interp h (h s q).2 with ⟨⟨t, _ | a⟩, s'⟩ <;> rfl

/-- The environment `h` goes from `s` to `s'` while it answers as in the events. -/
def Follows (h : σ → (q : I.Act) → I.Ans q × σ) : σ → List (Event I) → σ → Prop
  | s, [], s' => s = s'
  | s, e :: t, s' => (h s e.1).1 = e.2 ∧ Follows h (h s e.1).2 t s'

@[simp] theorem follows_nil {s s' : σ} : Follows h s ([] : List (Event I)) s' ↔ s = s' := Iff.rfl

@[simp] theorem follows_cons {s s' : σ} {q : I.Act} {r : I.Ans q} {t : List (Event I)} :
    Follows h s (⟨q, r⟩ :: t) s' ↔ (h s q).1 = r ∧ Follows h (h s q).2 t s' := Iff.rfl

theorem follows_append {s s' : σ} {t t' : List (Event I)} :
    Follows h s (t ++ t') s' ↔ ∃ between, Follows h s t between ∧ Follows h between t' s' := by
  induction t generalizing s with
  | nil => simp
  | cons e t ih =>
      obtain ⟨q, r⟩ := e
      simp only [List.cons_append, follows_cons, ih]
      constructor
      · rintro ⟨hr, between, ht, ht'⟩
        exact ⟨between, ⟨hr, ht⟩, ht'⟩
      · rintro ⟨between, ⟨hr, ht⟩, ht'⟩
        exact ⟨hr, between, ht, ht'⟩

theorem interp_follows (p : Program I ε α) (s : σ) :
    Follows h s (p.interp h s).1.1 (p.interp h s).2 := by
  induction p generalizing s with
  | ret a => rfl
  | raise e => rfl
  | ask q next ih => exact ⟨rfl, ih _ _⟩

/-- What every question of a run preserves holds of the environment after it. -/
theorem Follows.invariant {s s' : σ} {t : List (Event I)} (Inv : σ → Prop)
    (hstep : ∀ e ∈ t, ∀ s, Inv s → Inv (h s e.1).2) (hs : Inv s) (ht : Follows h s t s') :
    Inv s' := by
  induction t generalizing s with
  | nil =>
      obtain rfl := ht
      exact hs
  | cons e t ih =>
      obtain ⟨-, ht⟩ := ht
      exact ih (fun e' he' ↦ hstep e' (List.mem_cons_of_mem _ he'))
        (hstep e List.mem_cons_self s hs) ht

/-- A run against a stateful environment is one of the runs. -/
theorem runs_interp (hA : ∀ s q, A q (h s q).1) (p : Program I ε α) (s : σ) :
    Runs A p (p.interp h s).1.1 (p.interp h s).1.2 := by
  induction p generalizing s with
  | ret a => exact .ret a
  | raise e => exact .raise e
  | ask q next ih => exact .ask (hA s q) (ih _ _)

/-! ## Programs that answer programs -/

variable {J : Interface} {B : Assumption J}

/-- The program, with what it raises returned. -/
def attempt : Program I ε α → Program I ε (Except ε α)
  | ret a => ret (.ok a)
  | raise e => ret (.error e)
  | ask q next => ask q fun r ↦ (next r).attempt

theorem always_attempt {p : Program I ε α} {Q : List (Event I) → Except ε (Except ε α) → Prop} :
    p.attempt.Always A Q ↔ p.Always A fun t x ↦ Q t (.ok x) := by
  induction p generalizing Q with
  | ret a => rfl
  | raise e => rfl
  | ask q next ih => exact forall_congr' fun r ↦ imp_congr_right fun _ ↦ ih r

/-- The program with each question put to the program `h`, which keeps a state of its own. -/
def through (h : σ → (q : I.Act) → Program J ε (I.Ans q × σ)) :
    Program I ε α → σ → Program J ε (α × σ)
  | ret a, s => ret (a, s)
  | raise e, _ => raise e
  | ask q next, s => (h s q).bind fun r ↦ (next r.1).through h r.2

variable {h : σ → (q : I.Act) → Program J ε (I.Ans q × σ)}

/-- `Behind h B s u t s'`: the program `h` goes from `s` to `s'` while it answers as in
the events `u`, and `t` is what it asks of its own environment for that. -/
def Behind (h : σ → (q : I.Act) → Program J ε (I.Ans q × σ)) (B : Assumption J) :
    σ → List (Event I) → List (Event J) → σ → Prop
  | s, [], t, s' => t = [] ∧ s = s'
  | s, e :: u, t, s' => ∃ v w between, t = v ++ w ∧ Runs B (h s e.1) v (.ok (e.2, between)) ∧
      Behind h B between u w s'

/-- A run through a program that does not raise is a run of what it answers. -/
theorem Runs.of_through {p : Program I ε α} {s : σ} {t : List (Event J)} {y : Except ε (α × σ)}
    (hh : ∀ s q, (h s q).Always B fun _ y ↦ ∃ r, y = .ok r) (hrun : Runs B (p.through h s) t y) :
    ∃ u x s', Runs (Anything I) p u x ∧ Behind h B s u t s' ∧ y = x.map fun a ↦ (a, s') := by
  induction p generalizing s t y with
  | ret a =>
      cases hrun
      exact ⟨[], .ok a, s, .ret a, ⟨rfl, rfl⟩, rfl⟩
  | raise e =>
      cases hrun
      exact ⟨[], .error e, s, .raise e, ⟨rfl, rfl⟩, rfl⟩
  | ask q next ih =>
      have hsplit : ((h s q).bind fun r ↦ (next r.1).through h r.2).Always B fun t y ↦
          ∃ v w r, t = v ++ w ∧ Runs B (h s q) v (.ok r) ∧ Runs B ((next r.1).through h r.2) w y := by
        rw [always_bind, always_iff_runs]
        rintro v (e | r) hv
        · obtain ⟨r, hr⟩ := always_iff_runs.mp (hh s q) v _ hv
          cases hr
        · rw [onEnd_ok, always_iff_runs]
          exact fun w y hw ↦ ⟨v, w, r, rfl, hv, hw⟩
      obtain ⟨v, w, r, rfl, hv, hw⟩ := always_iff_runs.mp hsplit t y hrun
      obtain ⟨u, x, s', hp, hbehind, rfl⟩ := ih r.1 hw
      exact ⟨⟨q, r.1⟩ :: u, x, s', .ask trivial hp, ⟨v, w, r.2, rfl, hv, hbehind⟩, rfl⟩

end Program

end Interaction
