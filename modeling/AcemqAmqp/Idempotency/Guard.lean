import AcemqAmqp.Consumer.Handle
import AcemqAmqp.Foundations.Expansion
import AcemqAmqp.Idempotency.InMemory

/-!
# The guard against doing things twice

`idempotent`: a handler is run only under a claim, and its answer decides whether
the claim becomes a fact or is released.  What the store is asked for that is
left to the store, and so is what it makes of several deliveries at a time.
-/

namespace AcemqAmqp

namespace Idempotency

open Interaction

/-- What the calls of a store ask. -/
structure Calls (J : Interface) where
  claim : String → Program J Failure Claim
  confirm : String → Program J Failure Unit
  forget : String → Program J Failure Unit

/-- The handler, asked through `decide`. -/
abbrev Handling (Payload : Type) : Interface := ⟨Message Payload, fun _ ↦ Except Failure Ack⟩

abbrev Guarding (Payload : Type) (J : Interface) : Interface := (Handling Payload).sum J

variable {Payload : Type} {J : Interface}

/-- A failure of the store that is logged and not raised. -/
def quietly (work : Program J Failure Unit) : Program (Guarding Payload J) Failure Unit :=
  (Program.beside work).rescue fun failure ↦ if failure.isException then .ret () else .raise failure

/-- `message.envelope.id if key is None else key(message)`. -/
def identify (key : Option (Message Payload → Except Failure String)) (message : Message Payload) :
    Except Failure String :=
  match key with
  | none => .ok message.envelope.id
  | some key => key message

/-- `reject(FatalError(...))`, for a message without a key. -/
def withoutKey (message : Message Payload) : Ack :=
  .reject (some (fatalError ("acemq: message " ++ message.envelope.id ++ " produced an empty idempotency key")))

/-- What becomes of the claim once the handler has answered. -/
def settle (calls : Calls J) (identity : String) (decision : Ack) : Program (Guarding Payload J) Failure Unit :=
  if decision.action = .accept then quietly (calls.confirm identity) else quietly (calls.forget identity)

/-- The wrapped handler, under a claim. -/
def underClaim (calls : Calls J) (identity : String) (message : Message Payload) :
    Program (Guarding Payload J) Failure Ack := do
  let decision ← (Program.call (I := Guarding Payload J) (.inl message) id).rescue fun failure ↦ do
    quietly (calls.forget identity)
    Program.raise failure
  settle calls identity decision
  return decision

/-- What a delivery comes to once the store has answered, or raised. -/
def onClaim (calls : Calls J) (inProgressDelay : Duration) (identity : String) (message : Message Payload) :
    Except Failure Claim → Program (Guarding Payload J) Failure Ack
  | .error failure => if failure.isException then .ret (.retry (some failure)) else .raise failure
  | .ok .duplicate => .ret .accept
  | .ok .inProgress => .ret (.inProgress inProgressDelay)
  | .ok .claimed => underClaim calls identity message

/-- `guarded`. -/
def guarded (calls : Calls J) (key : Option (Message Payload → Except Failure String)) (inProgressDelay : Duration)
    (message : Message Payload) : Program (Guarding Payload J) Failure Ack := do
  let identity ← Program.ofExcept (identify key message)
  if identity = "" then return withoutKey message
  else
    let claimed ← (Program.beside (calls.claim identity)).attempt
    onClaim calls inProgressDelay identity message claimed

/-! ## How one delivery goes -/

/-- What is left of how a call of the store ends. -/
def hushed : Except Failure Unit → Except Failure Unit
  | .ok () => .ok ()
  | .error failure => if failure.isException then .ok () else .error failure

/-- What the consumer sees when the store ends like this after the handler. -/
def seen (decided : Except Failure Ack) (settled : Except Failure Unit) : Except Failure Ack := do
  hushed settled
  decided

/-- The handler returned accept. -/
def Accepts (decided : Except Failure Ack) : Prop := ∃ a, decided = .ok a ∧ a.action = .accept

/-- The events of one call of the store. -/
abbrev RunsBeside {α : Type} (work : Program J Failure α) (t : List (Interaction.Event (Guarding Payload J)))
    (x : Except Failure α) : Prop := Program.Runs (Anything _) (Program.beside work) t x

section course

variable (calls : Calls J) (key : Option (Message Payload → Except Failure String)) (inProgressDelay : Duration)
  (message : Message Payload)

/-- What is asked for a delivery from beginning to end, and what the consumer sees. -/
inductive Course : List (Interaction.Event (Guarding Payload J)) → Except Failure Ack → Prop
  | unnamed {failure : Failure} : identify key message = .error failure → Course [] (.error failure)
  | empty : identify key message = .ok "" → Course [] (.ok (withoutKey message))
  | unclaimed {identity : String} {t : List (Interaction.Event (Guarding Payload J))} {failure : Failure} :
      identify key message = .ok identity → RunsBeside (calls.claim identity) t (.error failure) →
      Course t (if failure.isException then .ok (.retry (some failure)) else .error failure)
  | duplicate {identity : String} {t : List (Interaction.Event (Guarding Payload J))} :
      identify key message = .ok identity → RunsBeside (calls.claim identity) t (.ok .duplicate) →
      Course t (.ok .accept)
  | inProgress {identity : String} {t : List (Interaction.Event (Guarding Payload J))} :
      identify key message = .ok identity → RunsBeside (calls.claim identity) t (.ok .inProgress) →
      Course t (.ok (.inProgress inProgressDelay))
  | accepted {identity : String} {t u : List (Interaction.Event (Guarding Payload J))} {a : Ack}
      {x : Except Failure Unit} : identify key message = .ok identity →
      RunsBeside (calls.claim identity) t (.ok .claimed) → a.action = .accept →
      RunsBeside (calls.confirm identity) u x → Course (t ++ ⟨.inl message, .ok a⟩ :: u) (seen (.ok a) x)
  | released {identity : String} {t u : List (Interaction.Event (Guarding Payload J))} {decided : Except Failure Ack}
      {x : Except Failure Unit} : identify key message = .ok identity →
      RunsBeside (calls.claim identity) t (.ok .claimed) → ¬Accepts decided →
      RunsBeside (calls.forget identity) u x → Course (t ++ ⟨.inl message, decided⟩ :: u) (seen decided x)

theorem quietly_runs (work : Program J Failure Unit) : (quietly work : Program (Guarding Payload J) Failure Unit).Always
    (Anything _) fun t y ↦ ∃ x, RunsBeside work t x ∧ y = hushed x := by
  rw [quietly, Program.always_rescue, Program.always_iff_runs]
  rintro t (failure | _) hrun
  · rw [Program.onEnd_error]
    by_cases hexception : failure.isException = true
    · rw [if_pos hexception, Program.always_ret, List.append_nil]
      exact ⟨_, hrun, (if_pos hexception).symm⟩
    · rw [if_neg hexception, Program.always_raise, List.append_nil]
      exact ⟨_, hrun, (if_neg hexception).symm⟩
  · exact ⟨_, hrun, rfl⟩

/-- What is asked under a claim, the claim itself left out. -/
def UnderClaim (identity : String) (t : List (Interaction.Event (Guarding Payload J)))
    (y : Except Failure Ack) : Prop :=
  ∃ decided u x, t = ⟨.inl message, decided⟩ :: u ∧ y = seen decided x ∧
    (Accepts decided ∧ RunsBeside (calls.confirm identity) u x ∨
      ¬Accepts decided ∧ RunsBeside (calls.forget identity) u x)

theorem underClaim_course (identity : String) :
    (underClaim calls identity message).Always (Anything _) (UnderClaim calls message identity) := by
  have hends : ∀ {decided : Except Failure Ack} {u : List (Interaction.Event (Guarding Payload J))}
      {x : Except Failure Unit}, Accepts decided ∧ RunsBeside (calls.confirm identity) u x ∨
        ¬Accepts decided ∧ RunsBeside (calls.forget identity) u x → Program.onEnd (hushed x)
          (fun _ ↦ UnderClaim calls message identity (⟨.inl message, decided⟩ :: (u ++ [])) decided)
          fun failure ↦ UnderClaim calls message identity (⟨.inl message, decided⟩ :: u) (.error failure) := by
    intro decided u x hsettled
    cases hhushed : hushed x with
    | error failure => exact ⟨decided, u, x, rfl, by rw [seen, hhushed]; rfl, hsettled⟩
    | ok _ => exact ⟨decided, u, x, by rw [List.append_nil], by rw [seen, hhushed]; rfl, hsettled⟩
  rw [underClaim, Program.bind_eq, Program.always_bind, Program.always_rescue]
  refine (Program.always_call _ _).mpr fun decided _ ↦ ?_
  match decided with
  | .error failure =>
      change ((quietly (calls.forget identity)).bind fun _ ↦ .raise failure).Always (Anything _) _
      rw [Program.always_bind]
      refine (quietly_runs (calls.forget identity)).mono ?_
      rintro u _ ⟨x, hrun, rfl⟩
      have hother : ¬Accepts (.error failure) := fun ⟨_, heq, _⟩ ↦ nomatch heq
      exact hends (.inr ⟨hother, hrun⟩)
  | .ok a =>
      change ((settle calls identity a).bind fun _ ↦ .ret a).Always (Anything _) _
      rw [Program.always_bind, settle]
      split
      · rename_i haccept
        refine (quietly_runs (calls.confirm identity)).mono ?_
        rintro u _ ⟨x, hrun, rfl⟩
        exact hends (.inl ⟨⟨a, rfl, haccept⟩, hrun⟩)
      · rename_i haccept
        refine (quietly_runs (calls.forget identity)).mono ?_
        rintro u _ ⟨x, hrun, rfl⟩
        refine hends (.inr ⟨?_, hrun⟩)
        rintro ⟨_, heq, haction⟩
        exact haccept (Except.ok.inj heq ▸ haction)

/-- Every delivery goes one of these ways. -/
theorem guarded_course : (guarded calls key inProgressDelay message).Always (Anything _)
    (Course calls key inProgressDelay message) := by
  rw [guarded, Program.bind_eq, Program.always_bind, Program.always_ofExcept]
  cases hidentity : identify key message with
  | error failure => exact .unnamed hidentity
  | ok identity =>
      rw [Program.onEnd_ok]
      by_cases hempty : identity = ""
      · rw [if_pos hempty]
        exact .empty (hempty ▸ hidentity)
      rw [if_neg hempty, Program.bind_eq, Program.always_bind, Program.always_attempt, Program.always_iff_runs]
      intro t claimed hclaim
      rw [Program.onEnd_ok]
      match claimed with
      | .error failure =>
          have hcourse : Course calls key inProgressDelay message t _ := .unclaimed hidentity hclaim
          rw [onClaim]
          split <;> rename_i hexception <;> simpa [hexception] using hcourse
      | .ok .duplicate => simpa [onClaim] using Course.duplicate hidentity hclaim
      | .ok .inProgress => simpa [onClaim] using Course.inProgress hidentity hclaim
      | .ok .claimed =>
          refine (underClaim_course calls message identity).mono ?_
          rintro _ _ ⟨decided, u, x, rfl, rfl, ⟨⟨a, rfl, haccept⟩, hrun⟩ | ⟨hother, hrun⟩⟩
          · exact .accepted hidentity hclaim haccept hrun
          · exact .released hidentity hclaim hother hrun

end course

end Idempotency

end AcemqAmqp
