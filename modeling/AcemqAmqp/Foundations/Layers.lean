import AcemqAmqp.Foundations.Expansion

/-!
# Layers of programs

A program that asks questions of the first of two interfaces, and the runs of
programs that are put around others: one after the other, and one answering
for the other with a state of its own.  Two rules for the latter: what every
answer keeps is kept by the whole, and when one layer does what another does
for each question, it does so for every program above it.
-/

namespace Interaction

namespace Program

section aside

variable {I J : Interface} {ε α β : Type}

/-- A program over the first of two interfaces. -/
def aside (p : Program I ε α) : Program (I.sum J) ε α :=
  match p with
  | ret a => ret a
  | raise e => raise e
  | ask q next => .ask (I := I.sum J) (.inl q) fun r ↦ (next r).aside

theorem aside_bind (p : Program I ε α) (f : α → Program I ε β) :
    (aside (p.bind f) : Program (I.sum J) ε β) = (aside p).bind fun a ↦ aside (f a) := by
  induction p with
  | ret a => rfl
  | raise e => rfl
  | ask q next ih => exact congrArg (ask _) (funext ih)

theorem beside_bind (p : Program J ε α) (f : α → Program J ε β) :
    (beside (p.bind f) : Program (I.sum J) ε β) = (beside p).bind fun a ↦ beside (f a) := by
  induction p with
  | ret a => rfl
  | raise e => rfl
  | ask q next ih => exact congrArg (ask _) (funext ih)

/-- An event of the first interface. -/
def inward : Event I → Event (I.sum J)
  | ⟨q, r⟩ => ⟨.inl q, r⟩

/-- An event of the second. -/
def outward : Event J → Event (I.sum J)
  | ⟨q, r⟩ => ⟨.inr q, r⟩

theorem runs_aside_iff {A : Assumption (I.sum J)} {p : Program I ε α} {t : List (Event (I.sum J))} {x : Except ε α} :
    Runs A (aside p) t x ↔ ∃ u, t = u.map inward ∧ Runs (fun q r ↦ A (.inl q) r) p u x := by
  induction p generalizing t with
  | ret a =>
      refine ⟨fun h ↦ ?_, fun ⟨u, ht, h⟩ ↦ ?_⟩
      · cases h
        exact ⟨[], rfl, .ret a⟩
      · cases h
        exact ht ▸ .ret a
  | raise e =>
      refine ⟨fun h ↦ ?_, fun ⟨u, ht, h⟩ ↦ ?_⟩
      · cases h
        exact ⟨[], rfl, .raise e⟩
      · cases h
        exact ht ▸ .raise e
  | ask q next ih =>
      refine ⟨fun h ↦ ?_, fun ⟨u, ht, h⟩ ↦ ?_⟩
      · cases h with
        | ask hA h =>
            obtain ⟨u, rfl, hrun⟩ := (ih _).mp h
            exact ⟨⟨q, _⟩ :: u, rfl, .ask hA hrun⟩
      · cases h with
        | ask hA h => exact ht ▸ .ask hA ((ih _).mpr ⟨_, rfl, h⟩)

theorem runs_beside_iff {A : Assumption (I.sum J)} {p : Program J ε α} {t : List (Event (I.sum J))} {x : Except ε α} :
    Runs A (beside p) t x ↔ ∃ u, t = u.map outward ∧ Runs (fun q r ↦ A (.inr q) r) p u x := by
  induction p generalizing t with
  | ret a =>
      refine ⟨fun h ↦ ?_, fun ⟨u, ht, h⟩ ↦ ?_⟩
      · cases h
        exact ⟨[], rfl, .ret a⟩
      · cases h
        exact ht ▸ .ret a
  | raise e =>
      refine ⟨fun h ↦ ?_, fun ⟨u, ht, h⟩ ↦ ?_⟩
      · cases h
        exact ⟨[], rfl, .raise e⟩
      · cases h
        exact ht ▸ .raise e
  | ask q next ih =>
      refine ⟨fun h ↦ ?_, fun ⟨u, ht, h⟩ ↦ ?_⟩
      · cases h with
        | ask hA h =>
            obtain ⟨u, rfl, hrun⟩ := (ih _).mp h
            exact ⟨⟨q, _⟩ :: u, rfl, .ask hA hrun⟩
      · cases h with
        | ask hA h => exact ht ▸ .ask hA ((ih _).mpr ⟨_, rfl, h⟩)

theorem inners_inward (u : List (Event I)) : inners (u.map inward : List (Event (I.sum J))) = u := by
  rw [inners, List.filterMap_map]
  exact List.filterMap_some

theorem outers_inward (u : List (Event I)) : outers (u.map inward : List (Event (I.sum J))) = [] := by
  rw [outers, List.filterMap_map]
  exact List.filterMap_eq_nil_iff.mpr fun _ _ ↦ rfl

theorem outers_outward (u : List (Event J)) : outers (u.map outward : List (Event (I.sum J))) = u := by
  rw [outers, List.filterMap_map]
  exact List.filterMap_some

theorem inners_outward (u : List (Event J)) : inners (u.map outward : List (Event (I.sum J))) = [] := by
  rw [inners, List.filterMap_map]
  exact List.filterMap_eq_nil_iff.mpr fun _ _ ↦ rfl

/-- A run of a program over one of two interfaces is one of its own runs. -/
theorem runs_aside {A : Assumption (I.sum J)} {p : Program I ε α} {t : List (Event (I.sum J))} {x : Except ε α}
    (h : Runs A (aside p) t x) : Runs (fun q r ↦ A (.inl q) r) p (inners t) x ∧ outers t = [] := by
  obtain ⟨u, rfl, hrun⟩ := runs_aside_iff.mp h
  exact ⟨(inners_inward u).symm ▸ hrun, outers_inward u⟩

theorem outers_of_beside {A : Assumption (I.sum J)} {p : Program J ε α} {t : List (Event (I.sum J))} {x : Except ε α}
    (h : Runs A (beside p) t x) : Runs (fun q r ↦ A (.inr q) r) p (outers t) x ∧ inners t = [] := by
  obtain ⟨u, rfl, hrun⟩ := runs_beside_iff.mp h
  exact ⟨(outers_outward u).symm ▸ hrun, inners_outward u⟩

/-- Where another program answers each question by asking it, nothing is changed. -/
theorem expand_eq_aside {h : (q : I.Act) → Program (I.sum J) Empty (I.Ans q)} {P : I.Act → Prop}
    (hself : ∀ q, P q → h q = .perform (I := I.sum J) (.inl q)) {p : Program I ε α}
    (hp : p.Asks (Anything I) fun _ q ↦ P q) : p.expand h = aside p := by
  induction p with
  | ret a => rfl
  | raise e => rfl
  | ask q next ih =>
      rw [expand, hself q hp.1]
      exact congrArg (ask _) (funext fun r ↦ ih r (hp.2 r trivial))

end aside

section runs

variable {I : Interface} {ε α β : Type} {A : Assumption I}

/-- Fewer answers have to be reckoned with. -/
theorem Asks.restrict {A' : Assumption I} {G : List (Event I) → I.Act → Prop} {p : Program I ε α}
    (hA : ∀ q r, A' q r → A q r) (hp : p.Asks A G) : p.Asks A' G := by
  induction p generalizing G with
  | ret a => trivial
  | raise e => trivial
  | ask q next ih => exact ⟨hp.1, fun r hr ↦ ih r (hp.2 r (hA q r hr))⟩

theorem asks_true (p : Program I ε α) : p.Asks A fun _ _ ↦ True := by
  induction p with
  | ret a => trivial
  | raise e => trivial
  | ask q next ih => exact ⟨trivial, fun r _ ↦ ih r⟩

/-- A run whose answers an assumption admits is one under it. -/
theorem Runs.restrict {A' : Assumption I} {p : Program I ε α} {t : List (Event I)} {x : Except ε α}
    (h : Runs A p t x) (hA : ∀ event ∈ t, A' event.1 event.2) : Runs A' p t x := by
  induction h with
  | ret a => exact .ret a
  | raise e => exact .raise e
  | ask _ _ ih =>
      obtain ⟨hfirst, hrest⟩ := List.forall_mem_cons.mp hA
      exact .ask hfirst (ih hrest)

theorem runs_bind {p : Program I ε α} {f : α → Program I ε β} {t : List (Event I)} {x : Except ε β} :
    Runs A (p.bind f) t x ↔ (∃ e, x = .error e ∧ Runs A p t (.error e)) ∨
      ∃ t₁ t₂ a, t = t₁ ++ t₂ ∧ Runs A p t₁ (.ok a) ∧ Runs A (f a) t₂ x := by
  constructor
  · have hall : (p.bind f).Always A fun t x ↦ (∃ e, x = .error e ∧ Runs A p t (.error e)) ∨
        ∃ t₁ t₂ a, t = t₁ ++ t₂ ∧ Runs A p t₁ (.ok a) ∧ Runs A (f a) t₂ x := by
      rw [always_bind, always_iff_runs]
      intro t y hp
      cases y with
      | ok a => exact always_iff_runs.mpr fun t' x hf ↦ .inr ⟨t, t', a, rfl, hp, hf⟩
      | error e => exact .inl ⟨e, rfl, hp⟩
    exact always_iff_runs.mp hall t x
  · rintro (⟨e, rfl, hp⟩ | ⟨t₁, t₂, a, rfl, hp, hf⟩)
    · exact hp.bind_error
    · exact hp.bind_ok hf

theorem runs_rescue {p : Program I ε α} {h : ε → Program I ε α} {t : List (Event I)} {x : Except ε α} :
    Runs A (p.rescue h) t x ↔ (∃ a, x = .ok a ∧ Runs A p t (.ok a)) ∨
      ∃ t₁ t₂ e, t = t₁ ++ t₂ ∧ Runs A p t₁ (.error e) ∧ Runs A (h e) t₂ x := by
  constructor
  · have hall : (p.rescue h).Always A fun t x ↦ (∃ a, x = .ok a ∧ Runs A p t (.ok a)) ∨
        ∃ t₁ t₂ e, t = t₁ ++ t₂ ∧ Runs A p t₁ (.error e) ∧ Runs A (h e) t₂ x := by
      rw [always_rescue, always_iff_runs]
      intro t y hp
      cases y with
      | ok a => exact .inl ⟨a, rfl, hp⟩
      | error e => exact always_iff_runs.mpr fun t' x hf ↦ .inr ⟨t, t', e, rfl, hp, hf⟩
    exact always_iff_runs.mp hall t x
  · rintro (⟨a, rfl, hp⟩ | ⟨t₁, t₂, e, rfl, hp, hf⟩)
    · exact hp.rescue_ok
    · exact hp.rescue_error hf

end runs

/-! ## Layers with a state -/

section through

variable {I J K : Interface} {ε α σ τ : Type} {B : Assumption J} {C : Assumption K}
  {h : σ → (q : I.Act) → Program J ε (I.Ans q × σ)} {p : Program I ε α}

/-- What every answer keeps is kept by the whole. -/
theorem Runs.through_keeps {P : I.Act → Prop} {R : σ → List (Event J) → σ → Prop} (hrefl : ∀ s, R s [] s)
    (htrans : ∀ {s t between t' s'}, R s t between → R between t' s' → R s (t ++ t') s')
    (hstep : ∀ {q s t r s'}, P q → Runs B (h s q) t (.ok (r, s')) → R s t s')
    (hp : p.Asks (Anything I) fun _ q ↦ P q) {s : σ} {t : List (Event J)} {a : α} {s' : σ}
    (hrun : Runs B (p.through h s) t (.ok (a, s'))) : R s t s' := by
  induction p generalizing s t with
  | ret a =>
      cases hrun
      exact hrefl _
  | raise e => cases hrun
  | ask q next ih =>
      rw [through] at hrun
      rcases runs_bind.mp hrun with ⟨e, hx, -⟩ | ⟨t₁, t₂, r, rfl, hanswer, hrest⟩
      · cases hx
      · exact htrans (hstep hp.1 hanswer) (ih r.1 (hp.2 r.1 trivial) hrest)

/-- A layer that does for each question what another does, read off its events, does so for every
program above it.  What the answers are promised to be, the program gets. -/
theorem Runs.through_simulates {h' : τ → (q : I.Act) → Program K ε (I.Ans q × τ)} {P : I.Act → Prop}
    {D : Assumption I} {sim : σ → τ → Prop} {read : List (Event J) → List (Event K)} (hnil : read [] = [])
    (happend : ∀ t t', read (t ++ t') = read t ++ read t')
    (hstep : ∀ {q s u t r s'}, P q → sim s u → Runs B (h s q) t (.ok (r, s')) →
      D q r ∧ ∃ u', sim s' u' ∧ Runs C (h' u q) (read t) (.ok (r, u')))
    (hp : p.Asks D fun _ q ↦ P q) {s : σ} {u : τ} (hsim : sim s u) {t : List (Event J)} {a : α} {s' : σ}
    (hrun : Runs B (p.through h s) t (.ok (a, s'))) :
    (∃ v, Runs D p v (.ok a)) ∧ ∃ u', sim s' u' ∧ Runs C (p.through h' u) (read t) (.ok (a, u')) := by
  induction p generalizing s u t with
  | ret a =>
      cases hrun
      exact ⟨⟨[], .ret _⟩, u, hsim, hnil ▸ .ret _⟩
  | raise e => cases hrun
  | ask q next ih =>
      rw [through] at hrun ⊢
      rcases runs_bind.mp hrun with ⟨e, hx, -⟩ | ⟨t₁, t₂, r, rfl, hanswer, hrest⟩
      · cases hx
      · obtain ⟨hr, u₁, hsim₁, hanswer'⟩ := hstep hp.1 hsim hanswer
        obtain ⟨⟨v, hv⟩, u', hsim', hrest'⟩ := ih r.1 (hp.2 r.1 hr) hsim₁ hrest
        exact ⟨⟨_, .ask hr hv⟩, u', hsim', happend t₁ t₂ ▸ hanswer'.bind_ok hrest'⟩

end through

/-! ## Layers without one -/

/-- What every answer does is done by the whole. -/
theorem Runs.expand_keeps {I J : Interface} {ε α : Type} {B : Assumption J}
    {h : (q : I.Act) → Program J Empty (I.Ans q)} {P : I.Act → Prop} {R : List (Event J) → Prop} (hnil : R [])
    (happend : ∀ {t t'}, R t → R t' → R (t ++ t'))
    (hstep : ∀ {q t r}, P q → Runs B (h q) t (.ok r) → R t) {p : Program I ε α}
    (hp : p.Asks (Anything I) fun _ q ↦ P q) {t : List (Event J)} {x : Except ε α}
    (hrun : Runs B (p.expand h) t x) : R t := by
  induction p generalizing t with
  | ret a =>
      cases hrun
      exact hnil
  | raise e =>
      cases hrun
      exact hnil
  | ask q next ih =>
      obtain ⟨t₁, t₂, r, rfl, hanswer, hrest⟩ := runs_andThen.mp hrun
      exact happend (hstep hp.1 hanswer) (ih r (hp.2 r trivial) hrest)

end Program

end Interaction
