import AcemqAmqp.Consumer.Draining
import AcemqAmqp.Consumer.Group

/-!
# Running a pipeline

`PipelineBuilder.build` declares a pipeline and starts a consumer group on every
step, or leaves nothing running; `Pipeline.close` closes them.
-/

namespace AcemqAmqp

open Interaction Program
open Consumer (Startup Setup World Closes closings HeldOrUndone ConsumeNext)

variable {Payload : Type} {S : Interface}

/-- `_PipelineStep`; `chain` is what follows the slip of a message around the handler. -/
structure PipelineStep (Payload : Type) (S : Interface) where
  name : String
  chain : ConsumeNext Payload S
  consumers : ℤ
  retry : Option RetryPolicy
  concurrency : ℤ

/-- A pipeline with its running groups. -/
structure RunningPipeline where
  name : String
  running : List ConsumerGroup

namespace RunningPipeline

/-- What the consumers of a step are started with; `retry` is the connection's policy. -/
def setup (connection : Connection) (retry : RetryPolicy) (name : String) (step : PipelineStep Payload S) :
    Setup Payload S where
  consumer := ⟨connection, name ++ "." ++ step.name, step.retry.getD retry, false⟩
  chain := step.chain
  concurrency := step.concurrency
  tag := ""
  declare := true

/-- An exchange, and a queue for each step bound on its name. -/
def topology (name : String) (steps : List String) : Except Failure Topology := do
  let exchange ← Topology.empty.exchange name "direct" true false ∅
  steps.foldlM (fun t step ↦
    let queue := name ++ "." ++ step
    match t.queue queue {} with
    | (.ok (), t) => .ok (t.binding queue name step)
    | (.error failure, _) => .error failure) exchange

/-- `close`. -/
def close (p : RunningPipeline) : Program (Startup Payload S) Failure Unit :=
  each ConsumerGroup.close p.running

/-- `build`. -/
def build (connection : Connection) (retry : RetryPolicy) (name : String) (steps : List (PipelineStep Payload S)) :
    Program (Startup Payload S) Failure RunningPipeline :=
  if steps.isEmpty then .raise (valueError ("acemq: pipeline " ++ reprText name ++ " has no steps"))
  else
    (ofExcept (topology name (steps.map PipelineStep.name))).bind fun topology ↦
      (call (I := Startup Payload S) (.declare topology) id).bind fun _ ↦
        (allOrNone (fun step ↦ ConsumerGroup.start (setup connection retry name step) step.consumers)
          (fun running ↦ close ⟨name, running⟩) steps []).bind fun running ↦ .ret ⟨name, running⟩

/-- All the consumers of its groups. -/
def consumers (p : RunningPipeline) : List ℕ := p.running.flatMap ConsumerGroup.consumers

theorem close_eq (p : RunningPipeline) :
    (close p : Program (Startup Payload S) Failure Unit) = each Consumer.close p.consumers := by
  rw [consumers, List.flatMap, ← each_each]
  exact each_map ConsumerGroup.consumers p.running

variable {ks : List ℕ} {t : List (Event (Startup Payload S))}

/-- When it raises, nothing is held. -/
theorem always_build (connection : Connection) (retry : RetryPolicy) (name : String)
    (steps : List (PipelineStep Payload S)) :
    (build connection retry name steps).Always (Anything _) fun t x ↦
      onEnd x (fun _ ↦ True) fun _ ↦ HeldOrUndone [] t := by
  have hnone : HeldOrUndone [] ([] : List (Event (Startup Payload S))) := fun _ _ hmem ↦ absurd hmem List.not_mem_nil
  unfold build
  split
  · exact hnone
  · rw [always_bind, always_ofExcept]
    cases topology name (steps.map PipelineStep.name) with
    | error failure => exact hnone
    | ok topology =>
        rw [onEnd_ok, always_bind, always_call]
        have hdeclared : ∀ answer, HeldOrUndone [] [(⟨.declare topology, answer⟩ : Event (Startup Payload S))] := by
          intro answer setup k hmem
          cases List.mem_singleton.mp hmem
        rintro (failure | ⟨⟩) -
        · exact hdeclared (.error failure)
        · rw [id, onEnd_ok, always_bind]
          refine (always_allOrNone
            (fun running t ↦ HeldOrUndone (running.flatMap ConsumerGroup.consumers) t) (HeldOrUndone [])
            ?_ ?_ steps [] _ (hdeclared (.ok ()))).mono ?_
          · intro started t step hstarted
            simp only [List.flatMap_append, List.flatMap_singleton]
            exact ConsumerGroup.always_start _ _ hstarted
          · intro started t hstarted
            rw [close_eq]
            exact HeldOrUndone.close_each (by rwa [List.nil_append])
          · rintro t (failure | running) hx
            · exact hx
            · trivial

end RunningPipeline

namespace ConsumerGroup

/-- When it raises, nothing is held. -/
theorem always_start_nil (setup : Setup Payload S) (size : ℤ) :
    (start setup size).Always (Anything _) fun t x ↦ onEnd x (fun _ ↦ True) fun _ ↦ HeldOrUndone [] t := by
  have hnone : HeldOrUndone [] ([] : List (Event (Startup Payload S))) := fun _ _ hmem ↦ absurd hmem List.not_mem_nil
  refine (always_start setup size hnone).mono ?_
  rintro t (failure | g) hx
  · exact hx
  · trivial

end ConsumerGroup

/-- Consumers that are closed one after another: all of them are, whatever the others raise, and the
first failure is raised. -/
theorem closed_each {ks : List ℕ} {init w : World Payload S} {t : List (Event (Startup Payload S))}
    {x : Except Failure Unit} (h : World.Reaches (each Consumer.close ks) init w t (ofExcept x)) :
    (∀ k ∈ ks, w.Closed k) ∧ (closings t).map Prod.fst = ks ∧ x = firstFailure ((closings t).map Prod.snd) := by
  obtain ⟨done, rfl, hdone, rfl⟩ := always_iff_runs.mp (Consumer.always_close_each ks) t x h.runs
  refine ⟨fun k hk ↦ ?_, by rw [hdone.closings], by rw [hdone.closings]⟩
  obtain ⟨p, hp, rfl⟩ := List.mem_map.mp hk
  obtain ⟨i, hi⟩ := hdone.asked p hp
  exact h.agrees.closed p.1 i hi

/-- Starting a group or a pipeline is all or nothing, if and only if no `close` was hindered or came too
early; closing one closes everything. -/
theorem starting_allOrNothing_iff (closed : Bool) :
    (∀ (setup : Setup Payload S) (size : ℤ) (w : World Payload S) t failure,
      World.Reaches (ConsumerGroup.start setup size) (.before closed) w t (.raise failure) →
        (w.AllOrNothing ↔ w.Unhindered)) ∧
    (∀ connection retry name (steps : List (PipelineStep Payload S)) (w : World Payload S) t failure,
      World.Reaches (RunningPipeline.build connection retry name steps) (.before closed) w t (.raise failure) →
        (w.AllOrNothing ↔ w.Unhindered)) ∧
    (∀ (g : ConsumerGroup) (init w : World Payload S) t x, World.Reaches g.close init w t (ofExcept x) →
      (∀ k ∈ g.consumers, w.Closed k) ∧ (closings t).map Prod.fst = g.consumers ∧
        x = firstFailure ((closings t).map Prod.snd)) ∧
    ∀ (p : RunningPipeline) (init w : World Payload S) t x, World.Reaches p.close init w t (ofExcept x) →
      (∀ k ∈ p.consumers, w.Closed k) ∧ (closings t).map Prod.fst = p.consumers ∧
        x = firstFailure ((closings t).map Prod.snd) := by
  refine ⟨fun setup size w t failure h ↦ ?_, fun connection retry name steps w t failure h ↦ ?_,
    fun g init w t x h ↦ closed_each h, fun p init w t x h ↦ ?_⟩
  · exact World.allOrNothing_of_reaches (ConsumerGroup.always_start_nil setup size) h
  · exact World.allOrNothing_of_reaches (RunningPipeline.always_build connection retry name steps) h
  · rw [RunningPipeline.close_eq] at h
    exact closed_each h

/-! ## A group whose second consumer does not start -/

section orders

open Consumer Consumer.World

/-- What a group over `orders` is started with, and what its consumers are. -/
def ordersSetup : Setup Unit (Handling Unit) := ⟨oneConsumer, oneChain, 1, "", true⟩

def ordersNumbered (number : ℕ) : Setup Unit (Handling Unit) :=
  { ordersSetup with
    tag := orElse ordersSetup.tag ("acemq-" ++ ordersSetup.consumer.queue) ++ "-" ++ toString number }

/-- Its two consumers. -/
def ordersWorld (first second : Standing Unit (Handling Unit) 1) (listed : List ℕ) : World Unit (Handling Unit) :=
  ⟨false, [⟨ordersNumbered 1, first⟩, ⟨ordersNumbered 2, second⟩], listed⟩

/-- The first consumer, as far as its closing has got. -/
def ordersClosing (closing : Closing) (work : List (Option Delivery))
    (workers : Fin 1 → Worker Unit (Handling Unit)) (silent : Bool) (verdict : Option (Except Failure Bool)) :
    Staffed Unit (Handling Unit) 1 where
  early := false
  shutdown := ⟨⟨0, 0, work, workers, false, closing⟩, silent, [.closing], some 0, none, verdict, [], [], false⟩
  cleanup := none

theorem over_single {workers : Fin 1 → Worker Unit (Handling Unit)} (h : (workers 0).over) :
    ∀ i, (workers i).over := fun i ↦ by rwa [Subsingleton.elim i 0]

/-- The broker refuses the second subscription. -/
theorem reaches_refused : ∃ t workers, Reaches (ConsumerGroup.start ordersSetup 2) (before false)
    (ordersWorld (.started (.made Unit (Handling Unit) 1 false)) (.failed connectionLost workers) [0]) t
    (((ConsumerGroup.close ⟨ordersSetup.consumer.queue, [0]⟩).bind fun _ ↦ .raise connectionLost).bind
      fun started ↦ .ret ⟨ordersSetup.consumer.queue, started⟩) := by
  have h₀ : Reaches (ConsumerGroup.start ordersSetup 2) (before false) (before false) [] _ := .start
  have h₁ := h₀.ask (@Answer.consume _ _ _ (ordersNumbered 1))
  have h₂ := h₁.member (k := 0) (m := ⟨ordersNumbered 1, .declaring false⟩) rfl .declared
  have h₃ := h₂.member (k := 0) (m := ⟨ordersNumbered 1, .subscribing _⟩) rfl .subscribed
  have h₄ := h₃.ask (.started (k := 0) rfl rfl)
  have h₅ := h₄.ask (@Answer.consume _ _ _ (ordersNumbered 2))
  have h₆ := h₅.member (k := 1) (m := ⟨ordersNumbered 2, .declaring false⟩) rfl .declared
  have h₇ := h₆.member (k := 1) (m := ⟨ordersNumbered 2, .subscribing _⟩) rfl (.rejected connectionLost rfl)
  have h₈ := h₇.member (k := 1) (m := ⟨ordersNumbered 2, _⟩) rfl (.leave (i := (0 : Fin 1)) rfl rfl)
  have h₉ := h₈.member (k := 1) (m := ⟨ordersNumbered 2, _⟩) rfl (.gathered (over_single trivial))
  exact ⟨_, _, h₉.ask (.failed (k := 1) rfl rfl)⟩

/-- The first consumer is closed again, and the release of its subscription ends with `answer`. -/
theorem reaches_orders (answer : Except Failure Unit) : ∃ s workers t failure,
    Reaches (ConsumerGroup.start ordersSetup 2) (before false)
      (ordersWorld (.started ⟨false, s, some answer⟩) (.failed connectionLost workers)
        (if answer.isOk then [] else [0])) t
      (.raise failure) ∧
    ∃ call, s.closer = some 0 ∧ s.calls = [call] ∧ call.over = true := by
  obtain ⟨t, workers, h⟩ := reaches_refused
  let second : Standing Unit (Handling Unit) 1 := .failed connectionLost workers
  let idle : Fin 1 → Worker Unit (Handling Unit) := fun _ ↦ .waiting
  let gone : Fin 1 → Worker Unit (Handling Unit) := Function.update idle 0 .finished
  have h₀ := h.ask (.close (k := 0) rfl rfl)
  have h₁ : Reaches _ _ (ordersWorld (.started (ordersClosing .stopping [] idle false none)) second [0]) _ _ := h₀
  have h₂ : Reaches _ _ (ordersWorld (.started (ordersClosing .draining [] idle true none)) second [0]) _ _ :=
    h₁.member (k := 0) rfl (.goes (.goes (.stopped (i := 0) ⟨rfl, rfl⟩ rfl) fun _ hi ↦ hi))
  have h₃ : Reaches _ _ (ordersWorld (.started (ordersClosing .joining [none] idle true none)) second [0]) _ _ :=
    h₂.member (k := 0) rfl (.goes (.goes (.drained (i := 0) ⟨rfl, rfl⟩ rfl rfl) fun _ hi ↦ hi))
  have h₄ : Reaches _ _ (ordersWorld (.started (ordersClosing .joining [] gone true none)) second [0]) _ _ :=
    h₃.member (k := 0) rfl (.goes (.goes (.leave (i := (0 : Fin 1)) rfl rfl) fun _ hi ↦ hi))
  have h₅ : Reaches _ _ (ordersWorld
      (.started (ordersClosing (.releasing true) [] gone true (some (.ok true)))) second [0]) _ _ :=
    h₄.member (k := 0) rfl
      (.goes (.goes (.joined (i := 0) ⟨rfl, rfl⟩ rfl (over_single trivial)) fun _ hi ↦ hi))
  have h₆ := h₅.member (k := 0) (m := ⟨ordersNumbered 1, _⟩) rfl
    (.goes (.released answer ⟨rfl, rfl⟩ rfl rfl nofun))
  cases answer with
  | ok answer => exact ⟨_, _, _, _, h₆.ask (.closed (k := 0) rfl rfl rfl rfl), _, rfl, rfl, rfl⟩
  | error failure => exact ⟨_, _, _, _, h₆.ask (.closed (k := 0) rfl rfl rfl rfl), _, rfl, rfl, rfl⟩

/-- The connection is closed while the first consumer declares, which subscribes all the same. -/
theorem reaches_stray : ∃ (x : Staffed Unit (Handling Unit) 1) (t : _) (failure : Failure),
    Reaches (ConsumerGroup.start ordersSetup 2) (before false)
      ⟨true, [⟨ordersNumbered 1, .started x⟩], []⟩ t (.raise failure) ∧
    x.shutdown.running = Running.initial Unit (Handling Unit) 1 := by
  have h₀ : Reaches (ConsumerGroup.start ordersSetup 2) (before false) (before false) [] _ := .start
  have h₁ := h₀.ask (@Answer.consume _ _ _ (ordersNumbered 1))
  have h₂ := h₁.drift .disconnect
  have h₃ := h₂.member (k := 0) (m := ⟨ordersNumbered 1, .declaring false⟩) rfl (.shut rfl)
  have h₄ := h₃.member (k := 0) (m := ⟨ordersNumbered 1, .declaring true⟩) rfl .declared
  have h₅ := h₄.member (k := 0) (m := ⟨ordersNumbered 1, .subscribing _⟩) rfl .subscribed
  have h₆ := h₅.ask (.started (k := 0) rfl rfl)
  have h₇ := h₆.ask (@Answer.consume _ _ _ (ordersNumbered 2))
  have h₈ := h₇.ask (.close (k := 0) rfl rfl)
  exact ⟨_, _, _, h₈.ask (.closed (k := 0) rfl rfl rfl rfl), rfl⟩

end orders

/-- The channel of the first consumer cannot be closed, and the connection keeps it in its list; or the
connection is closed while the first consumer declares, and its worker stays. -/
theorem starting_leaves_behind :
    (∃ (w : World Unit (Consumer.Handling Unit)) (t : _) (failure : Failure),
      World.Reaches (ConsumerGroup.start ordersSetup 2) (.before false) w t (.raise failure) ∧
        0 ∈ w.listed ∧ ¬w.AllOrNothing) ∧
    ∃ (w : World Unit (Consumer.Handling Unit)) (t : _) (failure : Failure),
      World.Reaches (ConsumerGroup.start ordersSetup 2) (.before false) w t (.raise failure) ∧
        (∀ m ∈ w.members, ¬m.standing.Idle) ∧ ¬w.AllOrNothing := by
  constructor
  · obtain ⟨s, workers, t, failure, h, -⟩ := reaches_orders (.error Consumer.connectionLost)
    exact ⟨_, t, failure, h, List.mem_cons_self, fun hall ↦ (hall 0 _ rfl).1.1 List.mem_cons_self⟩
  · obtain ⟨x, t, failure, h, hrunning⟩ := reaches_stray
    have hbusy : ¬(Consumer.Standing.started x).Idle := by
      intro hidle
      have hover := Consumer.forall_all.mp hidle 0
      rw [hrunning] at hover
      exact hover
    refine ⟨_, t, failure, h, fun m hm ↦ ?_, fun hall ↦ hbusy (hall 0 _ rfl).1.2⟩
    rw [List.mem_singleton.mp hm]
    exact hbusy

/-- Its channel is closed: nothing is left. -/
theorem starting_allOrNothing_orders : ∃ (w : World Unit (Consumer.Handling Unit)) (t : _) (failure : Failure),
    World.Reaches (ConsumerGroup.start ordersSetup 2) (.before false) w t (.raise failure) ∧ w.AllOrNothing := by
  obtain ⟨s, workers, t, failure, h, call, hcloser, hcalls, hover⟩ := reaches_orders (.ok ())
  refine ⟨_, t, failure, h, ((starting_allOrNothing_iff false).1 ordersSetup 2 _ t failure h).mpr fun k m hm ↦ ?_⟩
  match k with
  | 0 =>
      obtain rfl := Option.some.inj hm
      refine ⟨fun ⟨failure, hcut⟩ ↦ (nomatch hcut), fun ⟨i, call', hi, hcall', hnot⟩ ↦ ?_, fun hstray ↦ ?_⟩
      · obtain rfl := Option.some.inj (hcloser.symm.trans hi)
        rw [hcalls] at hcall'
        obtain rfl := Option.some.inj hcall'
        rw [hover] at hnot
        cases hnot
      · cases hstray.1
  | 1 =>
      obtain rfl := Option.some.inj hm
      exact ⟨id, id, id⟩

end AcemqAmqp
