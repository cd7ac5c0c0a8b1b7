import AcemqAmqp.Core.Failure
import AcemqAmqp.Foundations.Program

/-!
# Sagas

Steps run in order, and when one fails, those before it are compensated in
reverse.  A step is the thing to call, and what is called may return or raise.
-/

namespace AcemqAmqp

open Interaction Program

structure SagaStep (Work : Type) where
  name : String
  action : Work
  compensation : Option Work

/-- A saga as `step` leaves it: no two steps share a name. -/
structure Saga (Work : Type) where
  name : String
  steps : List (SagaStep Work)
  named : name ≠ ""
  steps_named : ∀ step ∈ steps, step.name ≠ ""
  distinct : (steps.map SagaStep.name).Nodup

structure SagaResult where
  saga : String
  completed : List String
  failedAt : Option String
  failure : Option Failure
  unresolved : List String

/-- Calls of actions and compensations, on the subject of the saga. -/
abbrev Calls (T Work : Type) : Interface where
  Act := Work × T
  Ans _ := Except Failure Unit

namespace Saga

variable {T Work : Type}

/-- `Saga(name)`. -/
def new (Work : Type) (name : String) : Except Failure (Saga Work) :=
  if hname : name = "" then .error (valueError "acemq: a saga needs a name")
  else .ok ⟨name, [], hname, fun _ hmem ↦ absurd hmem List.not_mem_nil, List.nodup_nil⟩

variable (saga : Saga Work)

/-- Adds a step. -/
def step (name : String) (action : Work) (compensation : Option Work) : Except Failure (Saga Work) :=
  if hname : name = "" then
    .error (valueError ("acemq: a step of saga " ++ reprText saga.name ++ " needs a name"))
  else if hused : name ∈ saga.steps.map SagaStep.name then
    .error <| valueError <| "acemq: saga " ++ reprText saga.name ++ " already has a step called " ++
      reprText name ++ ". Names identify a step in the compensation report, so two of them would " ++
      "make that report ambiguous"
  else .ok
    { name := saga.name
      steps := saga.steps ++ [⟨name, action, compensation⟩]
      named := saga.named
      steps_named := List.forall_mem_append.mpr ⟨saga.steps_named, by simpa using hname⟩
      distinct := by
        rw [List.map_append, List.nodup_append]
        refine ⟨saga.distinct, List.nodup_singleton _, fun used hmem new hnew ↦ ?_⟩
        rw [List.mem_singleton.mp hnew]
        rintro rfl
        exact hused hmem }

/-- `_call`: what came of it. -/
def call (work : Work) (subject : T) : Program (Calls T Work) Failure (Except Failure Unit) :=
  .perform (I := Calls T Work) (work, subject)

def stepNamed (name : String) : Option (SagaStep Work) := saga.steps.find? (·.name = name)

/-- The loop of `_compensate`, over the names it still has to go. -/
def undo (subject : T) : List String → List String → Program (Calls T Work) Failure (List String)
  | [], unresolved => .ret unresolved
  | name :: rest, unresolved =>
      match saga.stepNamed name with
      | none => .raise ⟨.exception, "AssertionError",
          "acemq: saga " ++ reprText saga.name ++ " has no step called " ++ reprText name⟩
      | some step =>
          match step.compensation with
          | none => undo subject rest unresolved
          | some work => (call work subject).bind fun
              | .ok () => undo subject rest unresolved
              | .error failure =>
                  if failure.isException then undo subject rest (unresolved ++ [name])
                  else .raise failure

/-- Undoes what was done, most recent first. -/
def compensate (subject : T) (completed : List String) : Program (Calls T Work) Failure (List String) :=
  saga.undo subject completed.reverse []

/-- The loop of `run`, over the steps it still has to go. -/
def runSteps (subject : T) :
    List (SagaStep Work) → List String → Program (Calls T Work) Failure SagaResult
  | [], completed => .ret ⟨saga.name, completed, none, none, []⟩
  | step :: rest, completed => (call step.action subject).bind fun
      | .ok () => runSteps subject rest (completed ++ [step.name])
      | .error failure =>
          if failure.isException then (saga.compensate subject completed).bind fun unresolved ↦
            .ret ⟨saga.name, completed, some step.name, some failure, unresolved⟩
          else .raise failure

/-- Runs the steps in order, compensating in reverse if one fails. -/
def run (subject : T) : Program (Calls T Work) Failure SagaResult :=
  if saga.steps = [] then .raise (valueError ("acemq: saga " ++ reprText saga.name ++ " has no steps"))
  else saga.runSteps subject saga.steps []

/-! ## What is called -/

/-- A compensation that was called, for which step, and what came of it. -/
structure Undone (Work : Type) where
  step : String
  work : Work
  outcome : Except Failure Unit

def Undone.event (subject : T) (u : Undone Work) : Event (Calls T Work) := ⟨(u.work, subject), u.outcome⟩

/-- The step, if its compensation raised. -/
def Undone.unresolved? (u : Undone Work) : Option String :=
  match u.outcome with
  | .ok () => none
  | .error _ => some u.step

/-- The compensations there are, with the steps they belong to. -/
def compensations (steps : List (SagaStep Work)) : List (String × Work) :=
  steps.filterMap fun step ↦ step.compensation.map fun work ↦ (step.name, work)

/-- An action that returned. -/
def returned (subject : T) (step : SagaStep Work) : Event (Calls T Work) := ⟨(step.action, subject), .ok ()⟩

section spec

variable {saga} {subject : T} {done : List (SagaStep Work)} {unresolved : List String}

theorem stepNamed_of_mem {step : SagaStep Work} (h : step ∈ saga.steps) :
    saga.stepNamed step.name = some step := by
  obtain ⟨found, hfound⟩ : ∃ found, saga.stepNamed step.name = some found := by
    rw [← Option.isSome_iff_exists, stepNamed, List.find?_isSome]
    exact ⟨step, h, by simp⟩
  have hname : found.name = step.name := by simpa using List.find?_some hfound
  rw [hfound, List.inj_on_of_nodup_map saga.distinct (List.mem_of_find?_eq_some hfound) h hname]

/-- A call raised `f`, which `except Exception` does not catch. -/
def Escaped (t : List (Event (Calls T Work))) (f : Failure) : Prop :=
  f.isException = false ∧ ∃ asked, (⟨asked, .error f⟩ : Event (Calls T Work)) ∈ t

theorem Escaped.append {t t' : List (Event (Calls T Work))} {f : Failure} (h : Escaped t' f) :
    Escaped (t ++ t') f :=
  ⟨h.1, h.2.imp fun _ hmem ↦ List.mem_append_right _ hmem⟩

/-- Every compensation is called, whatever the others do. -/
theorem undo_spec (hdone : ∀ step ∈ done, step ∈ saga.steps) :
    (saga.undo subject (done.map SagaStep.name) unresolved).Always (Anything _) fun t x ↦
      onEnd x (fun names ↦ ∃ undone : List (Undone Work),
          undone.map (fun u ↦ (u.step, u.work)) = compensations done ∧
          t = undone.map (Undone.event subject) ∧
          names = unresolved ++ undone.filterMap Undone.unresolved?) (Escaped t) := by
  induction done generalizing unresolved with
  | nil => exact ⟨[], rfl, rfl, (List.append_nil _).symm⟩
  | cons step done ih =>
      rw [List.forall_mem_cons] at hdone
      rw [List.map_cons, undo]
      simp only [stepNamed_of_mem hdone.1]
      cases hwork : step.compensation with
      | none =>
          have hskip : compensations (step :: done) = compensations done := by
            simp [compensations, hwork]
          rw [hskip]
          exact ih hdone.2
      | some work =>
          have hcons : compensations (step :: done) = (step.name, work) :: compensations done := by
            simp [compensations, hwork]
          have hrest : ∀ (outcome : Except Failure Unit) (names : List String),
              names = unresolved ++ [(⟨step.name, work, outcome⟩ : Undone Work)].filterMap
                Undone.unresolved? →
              (saga.undo subject (done.map SagaStep.name) names).Always (Anything _) fun t x ↦
                onEnd x (fun names ↦ ∃ undone : List (Undone Work),
                    undone.map (fun u ↦ (u.step, u.work)) = compensations (step :: done) ∧
                    ⟨(work, subject), outcome⟩ :: t = undone.map (Undone.event subject) ∧
                    names = unresolved ++ undone.filterMap Undone.unresolved?)
                  (Escaped (⟨(work, subject), outcome⟩ :: t)) := by
            rintro outcome names rfl
            refine (ih hdone.2).mono fun t x hx ↦ ?_
            cases x with
            | ok names =>
                obtain ⟨undone, hcalls, rfl, rfl⟩ := hx
                refine ⟨⟨step.name, work, outcome⟩ :: undone, ?_, rfl, ?_⟩
                · rw [hcons, List.map_cons, hcalls]
                · rw [List.append_assoc, ← List.filterMap_append, List.singleton_append]
            | error f => exact hx.append (t := [⟨(work, subject), outcome⟩])
          intro outcome _
          rcases outcome with failure | ⟨⟩
          · show Always _ (if failure.isException then _ else _) _
            split
            · exact hrest (.error failure) _ rfl
            · rename_i hraised
              exact ⟨eq_false_of_ne_true hraised, _, List.mem_singleton_self _⟩
          · exact hrest (.ok ()) _ (List.append_nil _).symm

end spec

/-- What a run with the events `t` did and reports: every action of `done` ran,
in order, and either nothing is left, or the next step raised and everything
done is undone, most recent first. -/
inductive Undid (saga : Saga Work) (subject : T) : List (Event (Calls T Work)) → SagaResult → Prop
  | complete : Undid saga subject (saga.steps.map (returned subject))
      ⟨saga.name, saga.steps.map SagaStep.name, none, none, []⟩
  | failed {done rest : List (SagaStep Work)} {step : SagaStep Work} {failure : Failure}
      {undone : List (Undone Work)} :
      saga.steps = done ++ step :: rest → failure.isException = true →
      undone.map (fun u ↦ (u.step, u.work)) = compensations done.reverse →
      Undid saga subject
        (done.map (returned subject) ++ ⟨(step.action, subject), .error failure⟩ ::
          undone.map (Undone.event subject))
        ⟨saga.name, done.map SagaStep.name, some step.name, some failure,
          undone.filterMap Undone.unresolved?⟩

theorem runSteps_spec {saga : Saga Work} {subject : T} {done rest : List (SagaStep Work)}
    (hsteps : saga.steps = done ++ rest) :
    (saga.runSteps subject rest (done.map SagaStep.name)).Always (Anything _) fun t x ↦
      onEnd x (Undid saga subject (done.map (returned subject) ++ t)) (Escaped t) := by
  induction rest generalizing done with
  | nil =>
      rw [List.append_nil] at hsteps
      show Undid saga subject (done.map (returned subject) ++ []) _
      rw [List.append_nil, ← hsteps]
      exact .complete
  | cons step rest ih =>
      intro outcome _
      rcases outcome with failure | ⟨⟩
      · show Always _ (if failure.isException then _ else _) _
        split
        · rename_i hexception
          have hdone : ∀ step ∈ done.reverse, step ∈ saga.steps := fun step hmem ↦
            hsteps ▸ List.mem_append_left _ (List.mem_reverse.mp hmem)
          rw [always_bind, compensate, ← List.map_reverse]
          refine (undo_spec hdone).mono fun t x hx ↦ ?_
          cases x with
          | ok names =>
              obtain ⟨undone, hcalls, rfl, rfl⟩ := hx
              show Undid saga subject _ _
              rw [List.append_nil, List.nil_append]
              exact .failed hsteps hexception hcalls
          | error f => exact hx.append (t := [⟨(step.action, subject), .error failure⟩])
        · rename_i hraised
          exact ⟨eq_false_of_ne_true hraised, _, List.mem_singleton_self _⟩
      · have hnext := @ih (done ++ [step]) (by rw [List.append_assoc, List.singleton_append, hsteps])
        rw [List.map_append] at hnext
        refine hnext.mono fun t x hx ↦ ?_
        cases x with
        | ok result =>
            rw [List.map_append, List.append_assoc] at hx
            exact hx
        | error f => exact hx.append (t := [returned subject step])

/-- A run undoes exactly what it did, and raises nothing that a step raised as
an `Exception`. -/
theorem run_undoes (saga : Saga Work) (subject : T) {t : List (Event (Calls T Work))}
    {x : Except Failure SagaResult} (h : Runs (Anything _) (saga.run subject) t x) :
    (∃ result, x = .ok result ∧ saga.steps ≠ [] ∧ Undid saga subject t result) ∨
      (∃ f, x = .error f ∧ Escaped t f) ∨
      saga.steps = [] ∧ t = [] ∧ ∃ f, x = .error f := by
  unfold run at h
  split at h
  · rename_i hnone
    cases h
    exact .inr (.inr ⟨hnone, rfl, _, rfl⟩)
  · rename_i hsome
    have hspec := always_iff_runs.mp (@runSteps_spec T Work saga subject [] saga.steps rfl) t x h
    cases x with
    | ok result => exact .inl ⟨result, rfl, hsome, hspec⟩
    | error f => exact .inr (.inl ⟨f, rfl, hspec⟩)

/-- The fourth step fails, and the compensation of the third. -/
theorem run_undoes_order :
    ∃ (saga : Saga ℕ) (t : List (Event (Calls Unit ℕ))) (result : SagaResult),
      Runs (Anything _) (saga.run ()) t (.ok result) ∧
      (result.completed, result.failedAt, result.unresolved) =
        (["reserve", "look", "charge"], some "notify", ["charge"]) ∧ Undid saga () t result := by
  let saga : Saga ℕ := ⟨"order", [⟨"reserve", 1, some 11⟩, ⟨"look", 2, none⟩, ⟨"charge", 3, some 13⟩,
    ⟨"notify", 4, some 14⟩], by decide, by decide, by decide⟩
  let world : Unit → (asked : ℕ × Unit) → Except Failure Unit × Unit := fun s asked ↦
    (if asked.1 = 4 ∨ asked.1 = 13 then .error (valueError "refused") else .ok (), s)
  have hrun := runs_interp (I := Calls Unit ℕ) (h := world) (A := Anything _) (fun _ _ ↦ trivial)
    (saga.run ()) ()
  have hreport : ((saga.run ()).interp world ()).1.2.toOption.map
      (fun r ↦ (r.completed, r.failedAt, r.unresolved)) =
        some (["reserve", "look", "charge"], some "notify", ["charge"]) := by decide +kernel
  rcases run_undoes saga () hrun with ⟨result, hresult, -, hundid⟩ | ⟨f, hf, -⟩ | ⟨-, -, f, hf⟩
  · rw [hresult] at hrun hreport
    exact ⟨saga, _, result, hrun, Option.some.inj hreport, hundid⟩
  · rw [hf] at hreport
    cases hreport
  · rw [hf] at hreport
    cases hreport

end Saga

end AcemqAmqp
