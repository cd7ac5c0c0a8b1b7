import AcemqAmqp.Consumer.Runtime
import AcemqAmqp.Consumer.Settling

/-!
# Shutting a consumer down

A running consumer together with every call of its `close`: by the application,
and by the task `_halt` creates.  Only the first call closes; it can meet its
deadline, be cancelled, or fail, wherever it waits.  The transport delivers
nothing once `stop` has returned.
-/

namespace AcemqAmqp

namespace Consumer

open Interaction Program

variable {Payload : Type} {S : Interface} {n : ℕ}

/-- A call of `close`.  `scheduled` is the task `_halt` has created and that has not run yet. -/
inductive Call
  | scheduled
  | closing
  | awaiting
  | returned (drained : Bool)
  | raised (failure : Failure)
  deriving DecidableEq

def Call.over : Call → Bool
  | returned _ | raised _ => true
  | scheduled | closing | awaiting => false

/-- The delivery a worker has in hand. -/
def Worker.tag? : Worker Payload S → Option ℕ
  | handling d _ => some d.tag
  | waiting | finished | died _ | cancelled => none

/-- What a worker died of; that it was cancelled is not news. -/
def Worker.failure? : Worker Payload S → Option Failure
  | died failure => if failure.typeName = "CancelledError" then none else some failure
  | waiting | handling _ _ | finished | cancelled => none

def Running.inHand (s : Running Payload S n) : List ℕ :=
  (List.finRange n).filterMap fun i ↦ (s.workers i).tag?

def Running.failure? (s : Running Payload S n) : Option Failure :=
  (List.finRange n).findSome? fun i ↦ (s.workers i).failure?

/-- A consumer and the calls of its `close`.  `closer` is the call that closes: there is one once
`_closed` is set.  `verdict` is what the `try` of that call ended with: whether every worker was done,
or what it raised.  `cut` has the deliveries that were in hand when it cancelled the workers, and
`raised` those whose handling raised.  `gaveUp` says that it ended before all that waited had been
given back. -/
structure Shutdown (Payload : Type) (S : Interface) (n : ℕ) where
  running : Running Payload S n
  silent : Bool
  calls : List Call
  closer : Option ℕ
  halting : Option ℕ
  verdict : Option (Except Failure Bool)
  cut : List ℕ
  raised : List ℕ
  gaveUp : Bool

namespace Shutdown

variable (s : Shutdown Payload S n)

/-- Started, and subscribed. -/
def initial (Payload : Type) (S : Interface) (n : ℕ) : Shutdown Payload S n :=
  ⟨.initial Payload S n, false, [], none, none, none, [], [], false⟩

/-- The call `i` closes, and has not ended. -/
def Closes (i : ℕ) : Prop := s.closer = some i ∧ s.calls[i]? = some .closing

/-- The application calls `close`. -/
def called : Shutdown Payload S n :=
  match s.closer with
  | none =>
      { s with
        running := { s.running with closing := s.running.closing.begin }
        closer := some s.calls.length
        calls := s.calls ++ [.closing] }
  | some _ => { s with calls := s.calls ++ [if s.halting.isSome then .awaiting else .returned true] }

/-- The task `_halt` has created starts. -/
def started (i : ℕ) : Shutdown Payload S n :=
  match s.closer with
  | none =>
      { s with
        running := { s.running with closing := s.running.closing.begin }
        closer := some i
        calls := s.calls.set i .closing }
  | some _ => { s with calls := s.calls.set i (.returned true) }

/-- `_halt`, which creates its task once. -/
def halt (running : Running Payload S n) : Shutdown Payload S n :=
  match s.halting with
  | none => { s with running := running, halting := some s.calls.length, calls := s.calls ++ [.scheduled] }
  | some _ => { s with running := running }

/-- The `try` of `close` ends, and every worker that is not done is cancelled. -/
def ended (running : Running Payload S n) (clean : Bool) (verdict : Except Failure Bool) (gaveUp : Bool) :
    Shutdown Payload S n :=
  { s with
    running := { running with closing := .releasing clean }
    verdict := some verdict
    cut := s.running.inHand
    gaveUp := gaveUp }

/-- What the closing call ends with, behind the release of the subscription. -/
def ending (answer : Except Failure Unit) (verdict : Except Failure Bool) : Call :=
  match answer, verdict, s.running.failure? with
  | .error failure, _, _ => .raised failure
  | .ok (), .error failure, _ => .raised failure
  | .ok (), .ok _, some failure => .raised failure
  | .ok (), .ok drained, none => .returned drained

/-- What can happen next, and what is seen of it.  A worker that was cancelled does no more than a
handler or an interceptor that catches the cancellation makes it do, and counts as cancelled from the
release on.  Every idle worker has taken its `None` before the deadline can pass. -/
inductive Move (c : Consumer) (chain : ConsumeNext Payload S) :
    Shutdown Payload S n → List (Happening Payload S) → Shutdown Payload S n → Prop
  | deliver {s : Shutdown Payload S n} {d : Delivery} : s.silent = false →
      (∀ clean, s.running.closing ≠ .released clean) → d.tag = s.running.arrived →
      Move c chain s []
        { s with
          running := { s.running with
            arrived := s.running.arrived + 1
            work := s.running.work ++ [some d] } }
  | take {s : Shutdown Payload S n} {i : Fin n} {d : Delivery} {later : List (Option Delivery)}
      (fresh : String) {read : Instant} :
      s.running.workers i = .waiting → s.running.work = some d :: later →
      (fromMillis (millis read)).isSome = true →
      Move c chain s []
        { s with
          running := Running.set { s.running with taken := s.running.taken + 1, work := later } i
            (.handling d (work { c with halted := s.running.halted } chain fresh read d)) }
  | leave {s : Shutdown Payload S n} {i : Fin n} {later : List (Option Delivery)} :
      s.running.workers i = .waiting → s.running.work = none :: later →
      Move c chain s [] { s with running := Running.set { s.running with work := later } i .finished }
  | ask {s : Shutdown Payload S n} {i : Fin n} {d : Delivery} {q : (Around Payload S).Act}
      {next : (Around Payload S).Ans q → Program (Around Payload S) Failure Unit}
      (r : (Around Payload S).Ans q) :
      s.running.workers i = .handling d (.ask q next) → q ≠ .inl .halt →
      Move c chain s [.asked d.tag ⟨q, r⟩] { s with running := s.running.set i (.handling d (next r)) }
  | halt {s : Shutdown Payload S n} {i : Fin n} {d : Delivery}
      {next : Unit → Program (Around Payload S) Failure Unit} :
      s.running.workers i = .handling d (.ask (I := Around Payload S) (.inl .halt) next) →
      Move c chain s [.asked d.tag ⟨.inl .halt, ()⟩]
        (s.halt ((s.running.after (.inl .halt)).set i (.handling d (next ()))))
  | settled {s : Shutdown Payload S n} {i : Fin n} {d : Delivery} :
      s.running.workers i = .handling d (.ret ()) →
      Move c chain s [] { s with running := s.running.set i .waiting }
  | unsettled {s : Shutdown Payload S n} {i : Fin n} {d : Delivery} {failure : Failure} :
      s.running.workers i = .handling d (.raise failure) → failure.isException = true →
      Move c chain s [] { s with running := s.running.set i .waiting, raised := s.raised ++ [d.tag] }
  | dies {s : Shutdown Payload S n} {i : Fin n} {d : Delivery} {failure : Failure} :
      s.running.workers i = .handling d (.raise failure) → failure.isException = false →
      Move c chain s [] { s with running := s.running.set i (.died failure), raised := s.raised ++ [d.tag] }
  | call {s : Shutdown Payload S n} : Move c chain s [] s.called
  | start {s : Shutdown Payload S n} {i : ℕ} : s.calls[i]? = some .scheduled → Move c chain s [] (s.started i)
  | calledOff {s : Shutdown Payload S n} {i : ℕ} (failure : Failure) :
      s.calls[i]? = some .scheduled ∨ s.calls[i]? = some .awaiting →
      Move c chain s [] { s with calls := s.calls.set i (.raised failure) }
  | heard {s : Shutdown Payload S n} {i j : ℕ} {call : Call} :
      s.calls[i]? = some .awaiting → s.halting = some j → s.calls[j]? = some call → call.over = true →
      Move c chain s [] { s with calls := s.calls.set i call }
  | stopped {s : Shutdown Payload S n} {i : ℕ} : s.Closes i → s.running.closing = .stopping →
      Move c chain s [] { s with running := { s.running with closing := .draining }, silent := true }
  | giveBack {s : Shutdown Payload S n} {i : ℕ} {d : Delivery} {later : List (Option Delivery)} :
      s.Closes i → s.running.closing = .draining → s.running.work = some d :: later →
      Move c chain s [.gaveBack d.tag (.ok ())]
        { s with running := { s.running with taken := s.running.taken + 1, work := later } }
  | giveBackFailed {s : Shutdown Payload S n} {i : ℕ} {d : Delivery} {later : List (Option Delivery)}
      (failure : Failure) :
      s.Closes i → s.running.closing = .draining → s.running.work = some d :: later →
      Move c chain s [.gaveBack d.tag (.error failure)]
        (s.ended { s.running with taken := s.running.taken + 1, work := later } false (.error failure) true)
  | skip {s : Shutdown Payload S n} {i : ℕ} {later : List (Option Delivery)} :
      s.Closes i → s.running.closing = .draining → s.running.work = none :: later →
      Move c chain s [] { s with running := { s.running with work := later } }
  | drained {s : Shutdown Payload S n} {i : ℕ} :
      s.Closes i → s.running.closing = .draining → s.running.work = [] →
      Move c chain s []
        { s with running := { s.running with work := List.replicate n none, closing := .joining } }
  | joined {s : Shutdown Payload S n} {i : ℕ} :
      s.Closes i → s.running.closing = .joining → (∀ j, (s.running.workers j).over) →
      Move c chain s [] (s.ended s.running true (.ok true) false)
  | deadline {s : Shutdown Payload S n} {i : ℕ} :
      s.Closes i → s.running.closing = .joining → (∀ j, s.running.workers j ≠ .waiting) →
      Move c chain s [] (s.ended s.running false (.ok s.running.inHand.isEmpty) false)
  | interrupted {s : Shutdown Payload S n} {i : ℕ} (failure : Failure) :
      s.Closes i → s.running.closing = .stopping ∨ s.running.closing = .draining ∨ s.running.closing = .joining →
      Move c chain s [] (s.ended s.running false (.error failure) (s.running.closing != .joining))
  | abandoned {s : Shutdown Payload S n} {i : ℕ} {clean : Bool} (failure : Failure) :
      s.Closes i → s.running.closing = .releasing clean →
      Move c chain s [] { s with calls := s.calls.set i (.raised failure) }
  | release {s : Shutdown Payload S n} {i : ℕ} {clean : Bool} {verdict : Except Failure Bool}
      (answer : Except Failure Unit) :
      s.Closes i → s.running.closing = .releasing clean → s.verdict = some verdict →
      Move c chain s []
        { s with
          running := { s.running with
            workers := fun j ↦ Running.cut (s.running.workers j)
            closing := .released clean }
          calls := s.calls.set i (s.ending answer verdict) }

/-- What is seen of a consumer, from its start on. -/
inductive Goes (c : Consumer) (chain : ConsumeNext Payload S) :
    List (Happening Payload S) → Shutdown Payload S n → Prop
  | start : Goes c chain [] (initial Payload S n)
  | step {s s' : Shutdown Payload S n} {h e : List (Happening Payload S)} :
      Goes c chain h s → Move c chain s e s' → Goes c chain (h ++ e) s'

section runs

variable {c : Consumer} {chain : ConsumeNext Payload S} {s s' : Shutdown Payload S n}
  {h e : List (Happening Payload S)}

theorem called_running : s.called.running = s.running ∨
    s.called.running = { s.running with closing := s.running.closing.begin } := by
  unfold called
  split
  · exact .inr rfl
  · exact .inl rfl

theorem started_running (i : ℕ) : (s.started i).running = s.running ∨
    (s.started i).running = { s.running with closing := s.running.closing.begin } := by
  unfold started
  split
  · exact .inr rfl
  · exact .inl rfl

@[simp] theorem halt_running (running : Running Payload S n) : (s.halt running).running = running := by
  unfold halt
  split <;> rfl

/-- A consumer that is shut down runs like any other. -/
theorem Move.runs (hmove : Move c chain s e s') :
    Consumer.Move c chain s.running e s'.running ∨ s'.running = s.running ∧ e = [] := by
  cases hmove with
  | deliver _ hopen htag => exact .inl (.deliver hopen htag)
  | take fresh hworker hwork hread => exact .inl (.take fresh hworker hwork hread)
  | leave hworker hwork => exact .inl (.leave hworker hwork)
  | @ask i d q next r hworker hhalt =>
      have hafter : s.running.after q = s.running := by
        unfold Running.after
        split
        · exact absurd rfl hhalt
        · rfl
      have hask : Consumer.Move c chain s.running [.asked d.tag ⟨q, r⟩]
          ((s.running.after q).set i (.handling d (next r))) := .ask r hworker
      rw [hafter] at hask
      exact .inl hask
  | @halt i d next hworker =>
      rw [halt_running]
      have hask : Consumer.Move c chain s.running [.asked d.tag ⟨.inl .halt, ()⟩]
          ((s.running.after (.inl .halt)).set i (.handling d (next ()))) := .ask _ hworker
      exact .inl hask
  | settled hworker => exact .inl (.settled hworker)
  | unsettled hworker hexception => exact .inl (.unsettled hworker hexception)
  | dies hworker hexception => exact .inl (.dies hworker hexception)
  | call =>
      obtain hsame | hbegun := called_running (s := s)
      · exact .inr ⟨hsame, rfl⟩
      · exact .inl (hbegun ▸ .close)
  | start =>
      obtain hsame | hbegun := started_running (s := s) _
      · exact .inr ⟨hsame, rfl⟩
      · exact .inl (hbegun ▸ .close)
  | calledOff | heard | abandoned => exact .inr ⟨rfl, rfl⟩
  | stopped _ hclosing => exact .inl (.stopped hclosing)
  | @giveBack i d later _ hclosing hwork =>
      have hgave : Consumer.Move c chain s.running [.gaveBack d.tag (.ok ())]
          { s.running with
            taken := s.running.taken + 1
            work := later
            closing := .draining } := .giveBack (.ok ()) hclosing hwork
      rw [← hclosing] at hgave
      exact .inl hgave
  | giveBackFailed failure _ hclosing hwork => exact .inl (.giveBack (.error failure) hclosing hwork)
  | skip _ hclosing hwork => exact .inl (.skip hclosing hwork)
  | drained _ hclosing hwork => exact .inl (.drained hclosing hwork)
  | joined _ hclosing hover => exact .inl (.joined hclosing hover)
  | deadline _ hclosing => exact .inl (.cutOff (.inr (.inr hclosing)))
  | interrupted failure _ hclosing => exact .inl (.cutOff hclosing)
  | release answer _ hclosing => exact .inl (.release hclosing)

theorem Goes.runs (hgoes : Goes c chain h s) : Consumer.Goes c chain (.initial Payload S n) h s.running := by
  induction hgoes with
  | start => exact .refl
  | step _ hmove ih =>
      obtain hruns | ⟨hsame, rfl⟩ := hmove.runs
      · exact ih.step hruns
      · rw [hsame, List.append_nil]
        exact ih

end runs

end Shutdown

end Consumer

end AcemqAmqp
