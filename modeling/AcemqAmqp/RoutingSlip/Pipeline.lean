import AcemqAmqp.RoutingSlip.Follower
import AcemqAmqp.RoutingSlip.WireForms
import AcemqAmqp.Wire.RoundTrip

/-!
# Declared pipelines

An exchange with a queue for each step, bound on the name of the step, and a
handler on each queue that follows the slip of a message.  A message without a
slip is taken to be at the step whose queue it is on.
-/

namespace AcemqAmqp

open Interaction

/-- `_STEP_NAME.fullmatch(name)`. -/
def isStepName (name : String) : Bool :=
  match name.toList with
  | [] => false
  | first :: rest => first.isAlphanum && rest.all fun c ↦ c.isAlphanum || c = '.' || c = '-'

/-- The steps of a pipeline, before it is declared and started. -/
structure PipelineBuilder where
  name : String
  steps : List String
  named : name ≠ ""
  valid : ∀ step ∈ steps, isStepName step = true
  nodup : steps.Nodup

namespace PipelineBuilder

/-- `PipelineBuilder(connection, name)`. -/
def new (name : String) : Except Failure PipelineBuilder :=
  if h : name = "" then
    .error (valueError "acemq: a pipeline needs a name, which is also its exchange")
  else .ok ⟨name, [], h, by simp, .nil⟩

/-- `step`.  Handlers, policies and prefetch counts are left out. -/
def step (b : PipelineBuilder) (name : String) (consumers : ℤ) : Except Failure PipelineBuilder :=
  if hname : isStepName name = false then
    .error <| valueError <| "acemq: pipeline " ++ reprText b.name ++ " has a step named " ++
      reprText name ++ ", which cannot be a routing key: letters, digits, dots and dashes only"
  else if hnew : name ∈ b.steps then
    .error <| valueError <| "acemq: pipeline " ++ reprText b.name ++ " declares the step " ++
      reprText name ++ " twice, and two steps by one name are one queue with two handlers"
  else if consumers < 1 then
    .error <| valueError <| "acemq: step " ++ reprText name ++ " needs at least one consumer"
  else .ok
    { b with
      steps := b.steps ++ [name]
      valid := by
        intro step hstep
        rcases List.mem_append.mp hstep with hold | hlast
        · exact b.valid step hold
        · rw [List.mem_singleton.mp hlast]
          exact eq_true_of_ne_false hname
      nodup := List.nodup_append.mpr ⟨b.nodup, List.nodup_singleton name, by
        rintro step hold last hlast rfl
        exact hnew (List.mem_singleton.mp hlast ▸ hold)⟩ }

end PipelineBuilder

/-- A declared pipeline on a connection.  `contentType` is the connection's codec's, and `room` what the
interpreter has for slips that nest. -/
structure Pipeline extends PipelineBuilder where
  connection : Connection
  origin : String
  contentType : String
  room : Room
  nonempty : steps ≠ []

/-- `build`, but for the declarations and the consumers it starts. -/
def PipelineBuilder.build (b : PipelineBuilder) (connection : Connection)
    (origin contentType : String) (room : Room) : Except Failure Pipeline :=
  if h : b.steps = [] then
    .error (valueError ("acemq: pipeline " ++ reprText b.name ++ " has no steps"))
  else .ok { b with connection, origin, contentType, room, nonempty := h }

namespace Pipeline

/-- `queue_for`, for a step the pipeline has. -/
def queueFor (p : Pipeline) (step : String) : String := p.name ++ "." ++ step

/-- `route`: a slip at the start of the pipeline. -/
def route (p : Pipeline) (runId fresh : String) : RoutingSlip where
  steps := p.steps.map (Step.declared p.name)
  done := []
  runId := orElse runId fresh
  form := .stepNames

/-- What a message without a slip is taken to carry on the queue of the step at
`position`.  The slip is made once, when the pipeline is built. -/
def unslipped (p : Pipeline) (mint : Tick) : ℕ → RoutingSlip
  | 0 => p.route "" mint.run
  | position + 1 => (p.unslipped mint position).advance mint.now

variable (p : Pipeline)

/-- The handler on the queue of the step at `position`. -/
def follower (mint : Tick) (position : ℕ) : Follower where
  connection := p.connection
  origin := p.origin
  contentType := p.contentType
  pipeline := p.name
  form := none
  unslipped := some (p.unslipped mint position)
  room := p.room

/-- The consumers on the queue of a step. -/
def consumer (retry : RetryPolicy) (step : String) : Consumer :=
  ⟨p.connection, p.queueFor step, retry, false⟩

/-- The queue of the step at `position` is where the broker routes a message to:
by the exchange of the pipeline, by the name of the queue, or by that of one of
its retry queues, which it leaves for the queue in the end. -/
def Lands (exchange routingKey : String) (position : ℕ) : Prop :=
  ∃ step, p.steps[position]? = some step ∧
    (exchange = p.name ∧ routingKey = step ∨ exchange = "" ∧
      (routingKey = p.queueFor step ∨ ∃ delay, routingKey = retryQueue (p.queueFor step) delay))

variable {p}

/-! ## The names of its steps -/

theorem strip_eq_self {cs : List Char} (h : ∀ c ∈ cs, isSpace c = false) : strip cs = cs := by
  have hdrop : ∀ cs : List Char, (∀ c ∈ cs, isSpace c = false) → cs.dropWhile isSpace = cs := by
    intro cs h
    cases cs with
    | nil => rfl
    | cons c cs => rw [List.dropWhile_cons, h c List.mem_cons_self, if_neg Bool.false_ne_true]
  rw [strip, hdrop cs h, hdrop cs.reverse fun c hc ↦ h c (List.mem_reverse.mp hc),
    List.reverse_reverse]

theorem isSpace_of_alphanum {c : Char} (h : c.isAlphanum = true) : isSpace c = false := by
  have hrange : 48 ≤ c.toNat ∧ c.toNat ≤ 122 := by
    have hranges : ((decide (65 ≤ c.val ∧ c.val ≤ 90) || (decide (97 ≤ c.val) && decide (c.val ≤ 122))) ||
        (decide (48 ≤ c.val) && decide (c.val ≤ 57))) = true := h
    simp only [Bool.or_eq_true, Bool.and_eq_true, decide_eq_true_eq, UInt32.le_iff_toNat_le,
      UInt32.reduceToNat] at hranges
    change 48 ≤ c.val.toNat ∧ c.val.toNat ≤ 122
    omega
  rw [isSpace, decide_eq_false_iff_not]
  intro hmem
  simp only [List.mem_cons, List.not_mem_nil, or_false] at hmem
  omega

theorem isStepName_spec {name : String} (h : isStepName name = true) :
    name ≠ "" ∧ Trimmed name ∧ ',' ∉ name.toList := by
  have hchar : ∀ c ∈ name.toList, c.isAlphanum = true ∨ c = '.' ∨ c = '-' := by
    unfold isStepName at h
    split at h
    · cases h
    · rename_i first rest hname
      rw [Bool.and_eq_true, List.all_eq_true] at h
      rw [hname, List.forall_mem_cons]
      exact ⟨.inl h.1, fun c hc ↦ by simpa [or_assoc] using h.2 c hc⟩
  have hspace : ∀ c ∈ name.toList, isSpace c = false := by
    intro c hc
    rcases hchar c hc with halnum | rfl | rfl
    · exact isSpace_of_alphanum halnum
    · decide
    · decide
  refine ⟨?_, strip_eq_self hspace, fun hcomma ↦ ?_⟩
  · rintro rfl
    cases h
  · rcases hchar _ hcomma with halnum | hdot | hdash
    · exact absurd halnum (by decide)
    · exact absurd hdot (by decide)
    · exact absurd hdash (by decide)

end Pipeline

end AcemqAmqp
