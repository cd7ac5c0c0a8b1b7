import AcemqAmqp.Foundations.Program

/-!
# Several things, one after another

Several things are ended one after another, whatever any of them raises, and the
first failure is raised in the end.  Several things are started one after
another, and what was started is undone when one of them fails.
-/

namespace Interaction

namespace Program

variable {I : Interface} {ε α β : Type} {A : Assumption I}

def failureOf : Except ε α → Option ε
  | .ok _ => none
  | .error e => some e

/-- The first failure among what several programs ended with. -/
def firstFailure (ends : List (Except ε Unit)) : Except ε Unit :=
  (ends.findSome? failureOf).elim (.ok ()) .error

/-- Each in turn, with the first failure kept. -/
def collect (f : α → Program I ε Unit) : List α → Option ε → Program I ε (Option ε)
  | [], first => ret first
  | a :: as, first => (f a).attempt.bind fun x ↦ collect f as (first.or (failureOf x))

/-- Each in turn, whatever it raises. -/
def each (f : α → Program I ε Unit) (as : List α) : Program I ε Unit :=
  (collect f as none).bind fun
    | none => ret ()
    | some e => raise e

/-- Each in turn; when one cannot be started, what was started is undone. -/
def allOrNone (start : β → Program I ε α) (undo : List α → Program I ε Unit) :
    List β → List α → Program I ε (List α)
  | [], started => ret started
  | b :: bs, started => (start b).attempt.bind fun
      | .ok a => allOrNone start undo bs (started ++ [a])
      | .error e => (undo started).bind fun _ ↦ raise e

/-! ## Ending several things -/

variable {f : α → Program I ε Unit}

/-- The rule for `each`.  `Inv done t` relates what has been ended, and what it ended with, to the events. -/
theorem always_each (Inv : List (α × Except ε Unit) → List (Event I) → Prop)
    (hstep : ∀ done t a, Inv done t → (f a).Always A fun t' x ↦ Inv (done ++ [(a, x)]) (t ++ t'))
    {as : List α} {t : List (Event I)} (ht : Inv [] t) :
    (each f as).Always A fun t' x ↦ ∃ done, done.map Prod.fst = as ∧ Inv done (t ++ t') ∧
      x = firstFailure (done.map Prod.snd) := by
  have hcollect : ∀ as done t, Inv done t →
      (collect f as ((done.map Prod.snd).findSome? failureOf)).Always A fun t' x ↦
        ∃ more, more.map Prod.fst = as ∧ Inv (done ++ more) (t ++ t') ∧
          x = .ok (((done ++ more).map Prod.snd).findSome? failureOf) := by
    intro as
    induction as with
    | nil => exact fun done t ht ↦ ⟨[], rfl, by simpa using ht, by simp⟩
    | cons a as ih =>
        intro done t ht
        rw [collect, always_bind, always_attempt]
        refine (hstep done t a ht).mono fun t' x hx ↦ ?_
        have hnext := ih _ _ hx
        rw [List.map_append, List.findSome?_append] at hnext
        have hkept : ([(a, x)].map Prod.snd).findSome? failureOf = failureOf x := by
          cases x <;> rfl
        rw [onEnd_ok, ← hkept]
        refine hnext.mono ?_
        rintro t'' y ⟨more, rfl, hmore, rfl⟩
        refine ⟨(a, x) :: more, rfl, ?_, ?_⟩
        · simpa only [List.append_assoc, List.singleton_append] using hmore
        · rw [List.append_assoc, List.singleton_append]
  rw [each, always_bind]
  refine (hcollect as [] t ht).mono ?_
  rintro t' y ⟨done, hdone, hinv, rfl⟩
  rw [onEnd_ok, List.nil_append]
  rw [List.nil_append] at hinv
  cases hfirst : (done.map Prod.snd).findSome? failureOf with
  | none =>
      refine ⟨done, hdone, by rwa [List.append_nil], ?_⟩
      rw [firstFailure, hfirst]
      rfl
  | some e =>
      refine ⟨done, hdone, by rwa [List.append_nil], ?_⟩
      rw [firstFailure, hfirst]
      rfl

theorem attempt_collect_bind (g : Option ε → Program I ε β) (as : List α) (first : Option ε) :
    ((collect f as first).bind g).attempt = (collect f as first).bind fun o ↦ (g o).attempt := by
  induction as generalizing first with
  | nil => rfl
  | cons a as ih =>
      have hattempt : ∀ p : Program I ε Unit,
          ((p.attempt.bind fun x ↦ collect f as (first.or (failureOf x))).bind g).attempt =
            (p.attempt.bind fun x ↦ collect f as (first.or (failureOf x))).bind fun o ↦ (g o).attempt := by
        intro p
        induction p with
        | ret u => exact ih _
        | raise e => exact ih _
        | ask q next hnext => exact congrArg (ask q) (funext hnext)
      exact hattempt (f a)

theorem attempt_each (as : List α) :
    (each f as).attempt = (collect f as none).bind fun o ↦ ret (o.elim (.ok ()) .error) := by
  rw [each, attempt_collect_bind]
  congr 1
  funext o
  cases o <;> rfl

/-- A failure that is kept does not matter to what follows it. -/
theorem collect_eq (as : List α) (first : Option ε) :
    collect f as first = (collect f as none).bind fun o ↦ ret (first.or o) := by
  induction as generalizing first with
  | nil => rw [collect, collect, ret_bind, Option.or_none]
  | cons a as ih =>
      rw [collect, collect, bind_assoc]
      congr 1
      funext x
      rw [ih, ih (none.or (failureOf x)), bind_assoc]
      simp only [ret_bind, Option.none_or, Option.or_assoc]

theorem collect_append (as as' : List α) (first : Option ε) :
    collect f (as ++ as') first = (collect f as first).bind (collect f as') := by
  induction as generalizing first with
  | nil => rfl
  | cons a as ih =>
      rw [List.cons_append, collect, collect, bind_assoc]
      exact congrArg _ (funext fun x ↦ ih _)

theorem each_map {γ : Type} (g : γ → α) (cs : List γ) : each (fun c ↦ f (g c)) cs = each f (cs.map g) := by
  have hcollect : ∀ cs first, collect (fun c ↦ f (g c)) cs first = collect f (cs.map g) first := by
    intro cs
    induction cs with
    | nil => exact fun _ ↦ rfl
    | cons c cs ih => exact fun first ↦ congrArg (bind _) (funext fun x ↦ ih _)
  rw [each, hcollect, each]

/-- Several groups are ended like one. -/
theorem each_each (groups : List (List α)) : each (each f) groups = each f groups.flatten := by
  have hcollect : ∀ groups first, collect (each f) groups first = collect f groups.flatten first := by
    intro groups
    induction groups with
    | nil => exact fun _ ↦ rfl
    | cons group groups ih =>
        intro first
        rw [collect, attempt_each, bind_assoc, List.flatten_cons, collect_append, collect_eq group first, bind_assoc]
        congr 1
        funext o
        rw [ret_bind, ret_bind, ih]
        cases o <;> rfl
  rw [each, hcollect, each]

/-! ## Starting several things -/

/-- The rule for `allOrNone`: what could not be started leaves the invariant as it was, and undoing
cleans up. -/
theorem always_allOrNone {start : β → Program I ε α} {undo : List α → Program I ε Unit}
    (Inv : List α → List (Event I) → Prop) (Clean : List (Event I) → Prop)
    (hstart : ∀ started t b, Inv started t → (start b).Always A fun t' x ↦
      onEnd x (fun a ↦ Inv (started ++ [a]) (t ++ t')) fun _ ↦ Inv started (t ++ t'))
    (hundo : ∀ started t, Inv started t → (undo started).Always A fun t' _ ↦ Clean (t ++ t')) :
    ∀ bs started t, Inv started t → (allOrNone start undo bs started).Always A fun t' x ↦
      onEnd x (fun started' ↦ Inv started' (t ++ t')) fun _ ↦ Clean (t ++ t') := by
  intro bs
  induction bs with
  | nil =>
      intro started t ht
      change Inv started (t ++ [])
      rwa [List.append_nil]
  | cons b bs ih =>
      intro started t ht
      rw [allOrNone, always_bind, always_attempt]
      refine (hstart started t b ht).mono fun t' x hx ↦ ?_
      rw [onEnd_ok]
      cases x with
      | ok a => simpa only [List.append_assoc] using ih _ _ hx
      | error e =>
          rw [always_bind]
          refine (hundo started _ hx).mono fun t'' y hy ↦ ?_
          rw [List.append_assoc] at hy
          cases y with
          | ok u => simpa using hy
          | error e' => exact hy

end Program

end Interaction
