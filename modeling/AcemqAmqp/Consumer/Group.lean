import AcemqAmqp.Consumer.Undoing

/-!
# Consumer groups

Several consumers over one queue, started and closed together.
-/

namespace AcemqAmqp

open Interaction Program

variable {Payload : Type} {S : Interface}

structure ConsumerGroup where
  queue : String
  consumers : List ℕ

namespace ConsumerGroup

/-- `close`.  The group has no consumers from then on. -/
def close (g : ConsumerGroup) : Program (Consumer.Startup Payload S) Failure Unit :=
  each Consumer.close g.consumers

/-- `start`.  The consumers are numbered from 1. -/
def start (setup : Consumer.Setup Payload S) (size : ℤ) :
    Program (Consumer.Startup Payload S) Failure ConsumerGroup :=
  if size < 1 then
    .raise (valueError ("acemq: a consumer group needs at least one consumer, got " ++ toString size))
  else
    let base := orElse setup.tag ("acemq-" ++ setup.consumer.queue)
    (allOrNone (fun number ↦ Consumer.consume { setup with tag := base ++ "-" ++ toString number })
      (fun started ↦ close ⟨setup.consumer.queue, started⟩) (List.range' 1 size.toNat) []).bind fun started ↦
        .ret ⟨setup.consumer.queue, started⟩

end ConsumerGroup

namespace Consumer

/-- What the closing of each consumer ended with. -/
def closings (t : List (Event (Startup Payload S))) : List (ℕ × Except Failure Unit) :=
  t.filterMap fun
    | ⟨.closed k _, answer⟩ => some (k, answer.map fun _ ↦ ())
    | _ => none

section

variable {ks : List ℕ} {t : List (Event (Startup Payload S))}

/-- What is seen of closing: `done` has what it ended with for each. -/
structure Closes (done : List (ℕ × Except Failure Unit)) (t : List (Event (Startup Payload S))) : Prop where
  closings : closings t = done
  asked : ∀ p ∈ done, ∃ i, ⟨.close p.1, i⟩ ∈ t
  quiet : ∀ setup k, ⟨.consume setup, .ok k⟩ ∉ t

theorem Closes.append {done done' : List (ℕ × Except Failure Unit)} {t t' : List (Event (Startup Payload S))}
    (h : Closes done t) (h' : Closes done' t') : Closes (done ++ done') (t ++ t') := by
  refine ⟨?_, fun p hp ↦ ?_, fun setup k hmem ↦ ?_⟩
  · rw [Consumer.closings, List.filterMap_append]
    exact congrArg₂ _ h.closings h'.closings
  · obtain hp | hp := List.mem_append.mp hp
    · obtain ⟨i, hi⟩ := h.asked p hp
      exact ⟨i, List.mem_append_left _ hi⟩
    · obtain ⟨i, hi⟩ := h'.asked p hp
      exact ⟨i, List.mem_append_right _ hi⟩
  · obtain hmem | hmem := List.mem_append.mp hmem
    · exact h.quiet setup k hmem
    · exact h'.quiet setup k hmem

theorem always_close (k : ℕ) : (close k : Program (Startup Payload S) Failure Unit).Always (Anything _) fun t x ↦
    Closes [(k, x)] t := by
  have hasked : ∀ (i : ℕ) (answer : Except Failure Bool), Closes [(k, answer.map fun _ ↦ ())]
      [⟨.close k, i⟩, (⟨.closed k i, answer⟩ : Event (Startup Payload S))] := by
    intro i answer
    refine ⟨rfl, fun p hp ↦ ?_, fun setup j hmem ↦ ?_⟩
    · rw [List.mem_singleton.mp hp]
      exact ⟨i, List.mem_cons_self⟩
    · obtain hmem | hmem := List.mem_cons.mp hmem
      · cases hmem
      · cases List.mem_singleton.mp hmem
  rw [close, always_bind, always_perform]
  intro i _
  rw [onEnd_ok, always_bind, always_call]
  rintro (failure | drained) -
  · exact hasked i (.error failure)
  · exact hasked i (.ok drained)

/-- Each of them is closed, whatever the others raise, and the first failure is raised. -/
theorem always_close_each (ks : List ℕ) :
    (each close ks : Program (Startup Payload S) Failure Unit).Always (Anything _) fun t x ↦
      ∃ done, done.map Prod.fst = ks ∧ Closes done t ∧ x = firstFailure (done.map Prod.snd) := by
  have hnone : Closes [] ([] : List (Event (Startup Payload S))) :=
    ⟨rfl, fun _ hp ↦ absurd hp List.not_mem_nil, fun _ _ ↦ List.not_mem_nil⟩
  refine always_each Closes (fun done t k hdone ↦ ?_) hnone
  exact (always_close k).mono fun t' x hx ↦ hdone.append hx

/-- Those that are closed are undone. -/
theorem HeldOrUndone.close_each {started : List ℕ} (h : HeldOrUndone (ks ++ started) t) :
    (each close started : Program (Startup Payload S) Failure Unit).Always (Anything _) fun t' _ ↦
      HeldOrUndone ks (t ++ t') := by
  refine (always_close_each started).mono ?_
  rintro t' x ⟨done, rfl, hdone, -⟩ setup k hmem
  obtain hold | hnew := List.mem_append.mp hmem
  · obtain hheld | hundone := h setup k hold
    · obtain hks | hstarted := List.mem_append.mp hheld
      · exact .inl hks
      · obtain ⟨p, hp, rfl⟩ := List.mem_map.mp hstarted
        obtain ⟨i, hi⟩ := hdone.asked p hp
        exact .inr (.inr ⟨i, List.mem_append_right _ hi⟩)
    · exact .inr (hundone.append t')
  · exact absurd hnew (hdone.quiet setup k)

end

end Consumer

namespace ConsumerGroup

open Consumer

variable {ks : List ℕ} {t : List (Event (Startup Payload S))}

/-- The group holds what it started, or nothing is left of it. -/
theorem always_start (setup : Setup Payload S) (size : ℤ) (h : HeldOrUndone ks t) :
    (start setup size).Always (Anything _) fun t' x ↦
      onEnd x (fun g ↦ HeldOrUndone (ks ++ g.consumers) (t ++ t')) fun _ ↦ HeldOrUndone ks (t ++ t') := by
  unfold start
  split
  · rw [always_raise, onEnd_error, List.append_nil]
    exact h
  · rw [always_bind]
    have hnone : HeldOrUndone (ks ++ []) t := by rwa [List.append_nil]
    refine (always_allOrNone (fun started t ↦ HeldOrUndone (ks ++ started) t) (HeldOrUndone ks)
      ?_ ?_ _ _ _ hnone).mono ?_
    · intro started t number hstarted
      simp only [← List.append_assoc]
      exact always_consume _ hstarted
    · exact fun started t hstarted ↦ hstarted.close_each
    · rintro t' (failure | started) hx
      · exact hx
      · change HeldOrUndone (ks ++ started) (t ++ (t' ++ []))
        rwa [List.append_nil]

end ConsumerGroup

end AcemqAmqp
