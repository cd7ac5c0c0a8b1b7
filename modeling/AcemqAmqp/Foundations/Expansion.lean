import AcemqAmqp.Foundations.Interleaving

/-!
# Programs that answer for others

A question of one program can be answered by running another, over an
interface of its own.  `expand` puts the answering programs in place of the
questions, and a run of the result is a run of the outer program together with
a run of an answering program for each of its questions.
-/

namespace Interaction

/-- Two interfaces side by side. -/
def Interface.sum (I J : Interface) : Interface where
  Act := I.Act ⊕ J.Act
  Ans
    | .inl q => I.Ans q
    | .inr q => J.Ans q

section sides

variable {I J : Interface}

/-- An assumption about each side. -/
def Assumption.sum (A : Assumption I) (B : Assumption J) : Assumption (I.sum J)
  | .inl q, r => A q r
  | .inr q, r => B q r

def inner? : Event (I.sum J) → Option (Event I)
  | ⟨.inl q, r⟩ => some ⟨q, r⟩
  | ⟨.inr _, _⟩ => none

def outer? : Event (I.sum J) → Option (Event J)
  | ⟨.inl _, _⟩ => none
  | ⟨.inr q, r⟩ => some ⟨q, r⟩

/-- The events of the first interface. -/
def inners (t : List (Event (I.sum J))) : List (Event I) := t.filterMap inner?

/-- The events of the second interface. -/
def outers (t : List (Event (I.sum J))) : List (Event J) := t.filterMap outer?

@[simp] theorem inners_nil : inners ([] : List (Event (I.sum J))) = [] := rfl

@[simp] theorem outers_nil : outers ([] : List (Event (I.sum J))) = [] := rfl

theorem mem_inners {t : List (Event (I.sum J))} {q : I.Act} {r : I.Ans q} :
    ⟨q, r⟩ ∈ inners t ↔ (⟨.inl q, r⟩ : Event (I.sum J)) ∈ t := by
  rw [inners, List.mem_filterMap]
  constructor
  · rintro ⟨⟨q' | q', r'⟩, hmem, heq⟩
    · cases heq
      exact hmem
    · cases heq
  · exact fun hmem ↦ ⟨_, hmem, rfl⟩

theorem mem_outers {t : List (Event (I.sum J))} {q : J.Act} {r : J.Ans q} :
    ⟨q, r⟩ ∈ outers t ↔ (⟨.inr q, r⟩ : Event (I.sum J)) ∈ t := by
  rw [outers, List.mem_filterMap]
  constructor
  · rintro ⟨⟨q' | q', r'⟩, hmem, heq⟩
    · cases heq
    · cases heq
      exact hmem
  · exact fun hmem ↦ ⟨_, hmem, rfl⟩

@[simp] theorem inners_append (t t' : List (Event (I.sum J))) :
    inners (t ++ t') = inners t ++ inners t' := List.filterMap_append ..

@[simp] theorem outers_append (t t' : List (Event (I.sum J))) :
    outers (t ++ t') = outers t ++ outers t' := List.filterMap_append ..

end sides

namespace Program

variable {I J : Interface} {ε α ρ : Type}

/-- A program that does not raise, followed by one that may. -/
def andThen : Program J Empty ρ → (ρ → Program J ε α) → Program J ε α
  | ret r, f => f r
  | ask q next, f => ask q fun r ↦ (next r).andThen f

/-- How a program ends, as an answer. -/
def outcome : Program I ε α → Program I Empty (Except ε α)
  | ret a => ret (.ok a)
  | raise e => ret (.error e)
  | ask q next => ask q fun r ↦ (next r).outcome

/-- `p`, with `h q` in place of each question `q`. -/
def expand (h : (q : I.Act) → Program J Empty (I.Ans q)) : Program I ε α → Program J ε α
  | ret a => ret a
  | raise e => raise e
  | ask q next => (h q).andThen fun r ↦ (next r).expand h

/-- A program over one interface, beside another. -/
def beside (p : Program J ε α) : Program (I.sum J) ε α :=
  match p with
  | ret a => ret a
  | raise e => raise e
  | ask q next => .ask (I := I.sum J) (.inr q) fun r ↦ (next r).beside

theorem andThen_assoc {ρ' : Type} (p : Program J Empty ρ) (f : ρ → Program J Empty ρ')
    (g : ρ' → Program J ε α) : (p.andThen f).andThen g = p.andThen fun r ↦ (f r).andThen g := by
  induction p with
  | ret r => rfl
  | raise e => exact e.elim
  | ask q next ih =>
      rw [andThen, andThen, andThen]
      exact congrArg (ask q) (funext ih)

/-! ## Questions of the parts -/

section asks

variable {A : Assumption J}

theorem asks_andThen {G : List (Event J) → J.Act → Prop} {p : Program J Empty ρ}
    {f : ρ → Program J ε α} (hp : p.Asks A G)
    (hf : p.Always A fun t x ↦ onEnd x (fun r ↦ (f r).Asks A fun t' ↦ G (t ++ t')) fun _ ↦ True) :
    (p.andThen f).Asks A G := by
  induction p generalizing G with
  | ret r => exact hf
  | raise e => exact e.elim
  | ask q next ih => exact ⟨hp.1, fun r hA ↦ ih r (hp.2 r hA) (hf r hA)⟩

theorem always_andThen {Q : List (Event J) → Except ε α → Prop} {p : Program J Empty ρ}
    {f : ρ → Program J ε α}
    (hp : p.Always A fun t x ↦ onEnd x (fun r ↦ (f r).Always A fun t' ↦ Q (t ++ t')) fun _ ↦ True) :
    (p.andThen f).Always A Q := by
  induction p generalizing Q with
  | ret r => exact hp
  | raise e => exact e.elim
  | ask q next ih => exact fun r hA ↦ ih r (hp r hA)

/-- A program beside another interface asks only questions of its own. -/
theorem asks_beside {B : Assumption (I.sum J)} {G : List (Event (I.sum J)) → (I.sum J).Act → Prop}
    (hG : ∀ t q, G t (.inr q)) (p : Program J ε α) : (beside p : Program (I.sum J) ε α).Asks B G := by
  induction p generalizing G with
  | ret a => trivial
  | raise e => trivial
  | ask q next ih => exact ⟨hG [] q, fun r _ ↦ ih r fun t q' ↦ hG _ q'⟩

/-- Those questions keep the guarantees of the program. -/
theorem Asks.beside {B : Assumption J} {C : Assumption (I.sum J)} {P : J.Act → Prop} {p : Program J ε α}
    (hC : ∀ (q : J.Act) (r : J.Ans q), C (.inr q) r → B q r) (hp : p.Asks B fun _ q ↦ P q) :
    (Program.beside p : Program (I.sum J) ε α).Asks C fun _ q ↦ ∃ q', q = .inr q' ∧ P q' := by
  induction p with
  | ret a => trivial
  | raise e => trivial
  | ask q next ih => exact ⟨⟨q, rfl, hp.1⟩, fun r hr ↦ ih r (hp.2 r (hC q r hr))⟩

/-- A program beside another interface does what it does by itself. -/
theorem always_beside {B : Assumption J} {C : Assumption (I.sum J)} {p : Program J ε α}
    {Q : List (Event J) → Except ε α → Prop} (hC : ∀ (q : J.Act) (r : J.Ans q), C (.inr q) r → B q r)
    (hp : p.Always B Q) :
    (beside p : Program (I.sum J) ε α).Always C fun t x ↦ inners t = [] ∧ Q (outers t) x := by
  induction p generalizing Q with
  | ret a => exact ⟨rfl, hp⟩
  | raise e => exact ⟨rfl, hp⟩
  | ask q next ih => exact fun r hr ↦ ih r (hp r (hC q r hr))

/-- What is asked of every question of a program, and of those that answer them. -/
theorem asks_expand {h : (q : I.Act) → Program J Empty (I.Ans q)} {P : I.Act → Prop}
    {G : J.Act → Prop} {p : Program I ε α}
    (hp : p.Asks (fun q r ↦ ∃ u, Runs A (h q) u (.ok r)) fun _ q ↦ P q)
    (hG : ∀ q, P q → (h q).Asks A fun _ q' ↦ G q') : (p.expand h).Asks A fun _ q ↦ G q := by
  induction p with
  | ret a => trivial
  | raise e => trivial
  | ask q next ih =>
      refine asks_andThen (hG q hp.1) (always_iff_runs.mpr fun u x hrun ↦ ?_)
      cases x with
      | ok r => exact ih r (hp.2 r ⟨u, hrun⟩)
      | error e => trivial

/-- A guarantee about every question holds of those asked before as well. -/
theorem Asks.history {P : J.Act → Prop} {p : Program J ε α} (hp : p.Asks A fun _ q ↦ P q) :
    p.Asks A fun t q ↦ (∀ e ∈ t, P e.1) ∧ P q := by
  induction p with
  | ret a => trivial
  | raise e => trivial
  | ask q next ih =>
      refine ⟨⟨fun e he ↦ absurd he List.not_mem_nil, hp.1⟩, fun r hA ↦ (ih r (hp.2 r hA)).mono ?_⟩
      rintro t q' ⟨hbefore, hq'⟩
      exact ⟨List.forall_mem_cons.mpr ⟨hp.1, hbefore⟩, hq'⟩

theorem Asks.always {P : J.Act → Prop} {p : Program J ε α} (hp : p.Asks A fun _ q ↦ P q) :
    p.Always A fun t _ ↦ ∀ e ∈ t, P e.1 := by
  induction p with
  | ret a => exact fun e he ↦ absurd he List.not_mem_nil
  | raise e => exact fun e he ↦ absurd he List.not_mem_nil
  | ask q next ih =>
      exact fun r hA ↦ (ih r (hp.2 r hA)).mono fun t _ ht ↦ List.forall_mem_cons.mpr ⟨hp.1, ht⟩

end asks

/-! ## Runs of the parts -/

theorem runs_andThen {A : Assumption J} {p : Program J Empty ρ} {f : ρ → Program J ε α}
    {t : List (Event J)} {x : Except ε α} : Runs A (p.andThen f) t x ↔
      ∃ t₁ t₂ r, t = t₁ ++ t₂ ∧ Runs A p t₁ (.ok r) ∧ Runs A (f r) t₂ x := by
  induction p generalizing t with
  | ret r =>
      constructor
      · exact fun h ↦ ⟨[], t, r, rfl, .ret r, h⟩
      · rintro ⟨t₁, t₂, r, rfl, hp, hf⟩
        cases hp
        exact hf
  | raise e => exact e.elim
  | ask q next ih =>
      constructor
      · intro h
        cases h with
        | ask hA h =>
            obtain ⟨t₁, t₂, r, rfl, hp, hf⟩ := (ih _).mp h
            exact ⟨_ :: t₁, t₂, r, rfl, .ask hA hp, hf⟩
      · rintro ⟨t₁, t₂, r, rfl, hp, hf⟩
        cases hp with
        | ask hA hp => exact .ask hA ((ih _).mpr ⟨_, t₂, r, rfl, hp, hf⟩)

theorem runs_outcome {A : Assumption I} {p : Program I ε α} {t : List (Event I)}
    {x : Except Empty (Except ε α)} :
    Runs A p.outcome t x ↔ ∃ y, x = .ok y ∧ Runs A p t y := by
  induction p generalizing t with
  | ret a =>
      constructor
      · intro h
        cases h
        exact ⟨_, rfl, .ret a⟩
      · rintro ⟨y, rfl, h⟩
        cases h
        exact .ret _
  | raise e =>
      constructor
      · intro h
        cases h
        exact ⟨_, rfl, .raise e⟩
      · rintro ⟨y, rfl, h⟩
        cases h
        exact .ret _
  | ask q next ih =>
      constructor
      · intro h
        cases h with
        | ask hA h =>
            obtain ⟨y, rfl, hrun⟩ := (ih _).mp h
            exact ⟨y, rfl, .ask hA hrun⟩
      · rintro ⟨y, rfl, h⟩
        cases h with
        | ask hA h => exact .ask hA ((ih _).mpr ⟨y, rfl, h⟩)

/-- A run of a program beside another interface is one of its own runs. -/
theorem runs_beside {A : Assumption I} {B : Assumption J} {p : Program J ε α}
    {t : List (Event (I.sum J))} {x : Except ε α} (h : Runs (A.sum B) (beside p) t x) :
    Runs B p (outers t) x ∧ inners t = [] := by
  induction p generalizing t with
  | ret a =>
      cases h
      exact ⟨.ret a, rfl⟩
  | raise e =>
      cases h
      exact ⟨.raise e, rfl⟩
  | ask q next ih =>
      cases h with
      | ask hB h =>
          obtain ⟨hrun, hnone⟩ := ih _ h
          exact ⟨.ask hB hrun, hnone⟩

section expand

variable {A : Assumption J} {h : (q : I.Act) → Program J Empty (I.Ans q)}

/-- The events of a run, and those of the runs that answered its questions. -/
inductive Expands (A : Assumption J) (h : (q : I.Act) → Program J Empty (I.Ans q)) :
    List (Event I) → List (Event J) → Prop
  | nil : Expands A h [] []
  | cons {q : I.Act} {r : I.Ans q} {u : List (Event J)} {s : List (Event I)}
      {t : List (Event J)} : Runs A (h q) u (.ok r) → Expands A h s t →
      Expands A h (⟨q, r⟩ :: s) (u ++ t)

/-- An answer that the answering program can give. -/
def Given (A : Assumption J) (h : (q : I.Act) → Program J Empty (I.Ans q)) : Assumption I :=
  fun q r ↦ ∃ u, Runs A (h q) u (.ok r)

theorem runs_expand {p : Program I ε α} {t : List (Event J)} {x : Except ε α} :
    Runs A (p.expand h) t x ↔ ∃ s, Runs (Given A h) p s x ∧ Expands A h s t := by
  induction p generalizing t with
  | ret a =>
      constructor
      · intro hrun
        cases hrun
        exact ⟨[], .ret a, .nil⟩
      · rintro ⟨s, hrun, hexpands⟩
        cases hrun
        cases hexpands
        exact .ret a
  | raise e =>
      constructor
      · intro hrun
        cases hrun
        exact ⟨[], .raise e, .nil⟩
      · rintro ⟨s, hrun, hexpands⟩
        cases hrun
        cases hexpands
        exact .raise e
  | ask q next ih =>
      rw [expand, runs_andThen]
      constructor
      · rintro ⟨u, t, r, rfl, hanswer, hrest⟩
        obtain ⟨s, hrun, hexpands⟩ := (ih r).mp hrest
        exact ⟨⟨q, r⟩ :: s, .ask ⟨u, hanswer⟩ hrun, .cons hanswer hexpands⟩
      · rintro ⟨s, hrun, hexpands⟩
        cases hrun with
        | ask _ hrun =>
            cases hexpands with
            | cons hanswer hexpands =>
                exact ⟨_, _, _, rfl, hanswer, (ih _).mpr ⟨_, hrun, hexpands⟩⟩

end expand

end Program

end Interaction
