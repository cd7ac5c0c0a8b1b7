import AcemqAmqp.Consumer.Shutdown
import AcemqAmqp.Foundations.AllOrNone
import AcemqAmqp.Topology.Description

/-!
# Starting consumers

`consume` and `_start`, from the list the connection keeps of its consumers on,
beside everything a consumer does once it has its workers.  Whoever starts
consumers asks the connection for them, and waits for what becomes of each; the
list is anybody's to read, so a consumer may be closed before it has started.
What the broker sends to a consumer that was closed before it had subscribed, and
whose workers are done, nobody reads.
-/

namespace AcemqAmqp

namespace Consumer

open Interaction Program

variable {Payload : Type} {S : Interface} {n : ℕ}

/-- What `consume` is asked for. -/
structure Setup (Payload : Type) (S : Interface) where
  consumer : Consumer
  chain : ConsumeNext Payload S
  concurrency : ℤ
  tag : String
  declare : Bool

def Running.all (s : Running Payload S n) : List (Worker Payload S) := (List.finRange n).map s.workers

/-- A consumer that has its workers.  `early` says that it was closed before it had any, and `cleanup` is
what the `finally` of `close` ended with, once it has. -/
structure Staffed (Payload : Type) (S : Interface) (n : ℕ) where
  early : Bool
  shutdown : Shutdown Payload S n
  cleanup : Option (Except Failure Unit)

namespace Staffed

/-- The workers are made.  A `close` that came before has nothing left to do. -/
def made (Payload : Type) (S : Interface) (n : ℕ) : Bool → Staffed Payload S n
  | false => ⟨false, .initial Payload S n, none⟩
  | true => ⟨true, { Shutdown.initial Payload S n with calls := [.returned true], closer := some 0 }, some (.ok ())⟩

/-- What can happen next, and whether the connection's list loses the consumer: `_untrack` is the last in
the `finally` of `close`, which releases the subscription if there is one by then. -/
inductive Move (c : Consumer) (chain : ConsumeNext Payload S) (subscribed : Bool) :
    Staffed Payload S n → Bool → Staffed Payload S n → Prop
  | goes {early : Bool} {s s' : Shutdown Payload S n} {e : List (Happening Payload S)}
      {cleanup : Option (Except Failure Unit)} :
      Shutdown.Move c chain s e s' → (∀ i, s.Closes i → s'.Closes i) →
      Move c chain subscribed ⟨early, s, cleanup⟩ false ⟨early, s', cleanup⟩
  | unstopped {early : Bool} {s : Shutdown Payload S n} {i : ℕ} {cleanup : Option (Except Failure Unit)} :
      subscribed = false → s.Closes i → s.running.closing = .stopping →
      Move c chain subscribed ⟨early, s, cleanup⟩ false
        ⟨early, { s with running := { s.running with closing := .draining } }, cleanup⟩
  | abandoned {early : Bool} {s : Shutdown Payload S n} {i : ℕ} {clean : Bool}
      {cleanup : Option (Except Failure Unit)} (failure : Failure) :
      s.Closes i → s.running.closing = .releasing clean →
      Move c chain subscribed ⟨early, s, cleanup⟩ false
        ⟨early, { s with calls := s.calls.set i (.raised failure) }, some (.error failure)⟩
  | released {early : Bool} {s : Shutdown Payload S n} {i : ℕ} {clean : Bool} {verdict : Except Failure Bool}
      {cleanup : Option (Except Failure Unit)} (answer : Except Failure Unit) :
      s.Closes i → s.running.closing = .releasing clean → s.verdict = some verdict →
      (subscribed = false → answer = .ok ()) →
      Move c chain subscribed ⟨early, s, cleanup⟩ answer.isOk
        ⟨early,
          { s with
            running := { s.running with
              workers := fun j ↦ Running.cut (s.running.workers j)
              closing := .released clean }
            calls := s.calls.set i (s.ending answer verdict) },
          some answer⟩

end Staffed

/-- How far `consume` has got with a consumer.  `dismissing` is a subscription that failed: every
worker is handed its `None` and waited for. -/
inductive Standing (Payload : Type) (S : Interface) (n : ℕ)
  | declaring (early : Bool)
  | subscribing (x : Staffed Payload S n)
  | dismissing (failure : Failure) (running : Running Payload S n)
  | failed (failure : Failure) (workers : List (Worker Payload S))
  | started (x : Staffed Payload S n)

namespace Standing

/-- The workers it has made. -/
def workers : Standing Payload S n → List (Worker Payload S)
  | declaring _ => []
  | subscribing x | started x => x.shutdown.running.all
  | dismissing _ running => running.all
  | failed _ workers => workers

/-- None of its workers is left running. -/
def Idle (standing : Standing Payload S n) : Prop := ∀ worker ∈ standing.workers, worker.over

def Failed : Standing Payload S n → Prop
  | failed _ _ => True
  | _ => False

/-- `closed`, of a consumer that has started. -/
def Closed : Standing Payload S n → Prop
  | started x => x.shutdown.closer ≠ none
  | _ => False

/-- The `finally` of `close` raised: the subscription's `close` did, or waiting for the workers that
were cancelled was cut off. -/
def CutShort : Standing Payload S n → Prop
  | started x => ∃ failure, x.cleanup = some (.error failure)
  | _ => False

/-- The call that closes it has not come to an end. -/
def UnderWay : Standing Payload S n → Prop
  | started x => ∃ i call, x.shutdown.closer = some i ∧ x.shutdown.calls[i]? = some call ∧ call.over = false
  | _ => False

/-- It was closed while it declared, subscribed all the same, and not every worker has died since. -/
def Stray : Standing Payload S n → Prop
  | started x => x.early = true ∧ ∃ worker ∈ x.shutdown.running.all, ¬worker.over
  | _ => False

/-- What can happen to a consumer next, and whether the connection's list loses it: `_untrack` is also the
last that a `consume` that fails does.  Anybody may close a consumer that has not started: one that declares
has nothing to wait for, and of one that is dismissed `close` takes what is queued, hands every worker its
`None` once more, and cancels who has not left.  Nothing was delivered to one whose subscription fails. -/
inductive Move (c : Consumer) (chain : ConsumeNext Payload S) (declares : Bool) :
    Standing Payload S n → Bool → Standing Payload S n → Prop
  | shut : declares = true → Move c chain declares (declaring false) true (declaring true)
  | declared {early : Bool} :
      Move c chain declares (declaring early) false (subscribing (Staffed.made Payload S n early))
  | refused {early : Bool} (failure : Failure) :
      declares = true → Move c chain declares (declaring early) true (failed failure [])
  | meanwhile {x x' : Staffed Payload S n} {untracked : Bool} :
      Staffed.Move c chain false x untracked x' → Move c chain declares (subscribing x) untracked (subscribing x')
  | subscribed {x : Staffed Payload S n} : Move c chain declares (subscribing x) false (started x)
  | rejected {x : Staffed Payload S n} (failure : Failure) :
      x.shutdown.running.arrived = 0 →
      Move c chain declares (subscribing x) false
        (dismissing failure
          { x.shutdown.running with work := x.shutdown.running.work ++ List.replicate n none })
  | leave {failure : Failure} {s : Running Payload S n} {i : Fin n} {later : List (Option Delivery)} :
      s.workers i = .waiting → s.work = none :: later →
      Move c chain declares (dismissing failure s) false
        (dismissing failure (Running.set { s with work := later } i .finished))
  | emptied {failure : Failure} {s : Running Payload S n} :
      Move c chain declares (dismissing failure s) false
        (dismissing failure { s with work := List.replicate n none })
  | swept {failure : Failure} {s : Running Payload S n} :
      Move c chain declares (dismissing failure s) true
        (dismissing failure { s with workers := fun i ↦ Running.cut (s.workers i) })
  | gathered {failure : Failure} {s : Running Payload S n} :
      (∀ i, (s.workers i).over) →
      Move c chain declares (dismissing failure s) true (failed failure s.all)
  | interrupted {failure : Failure} {s : Running Payload S n} (cancelled : Failure) :
      Move c chain declares (dismissing failure s) true (failed cancelled (s.all.map Running.cut))
  | goes {x x' : Staffed Payload S n} {untracked : Bool} :
      Staffed.Move c chain true x untracked x' → Move c chain declares (started x) untracked (started x')

end Standing

/-- A consumer, from `consume` on. -/
structure Member (Payload : Type) (S : Interface) where
  setup : Setup Payload S
  standing : Standing Payload S setup.concurrency.toNat

/-- The consumers somebody starts on a connection, by number, and which of them its list has. -/
structure World (Payload : Type) (S : Interface) where
  closed : Bool
  members : List (Member Payload S)
  listed : List ℕ

/-! ## What is asked of the connection -/

inductive Demand (Payload : Type) (S : Interface)
  | declare (topology : Topology)
  | consume (setup : Setup Payload S)
  | started (k : ℕ)
  | close (k : ℕ)
  | closed (k i : ℕ)

/-- `consume` appends the consumer to the list at once, and goes on until it has `started`; `close` is
called, and comes to an end later. -/
abbrev Startup (Payload : Type) (S : Interface) : Interface where
  Act := Demand Payload S
  Ans
    | .declare _ => Except Failure Unit
    | .consume _ => Except Failure ℕ
    | .started _ => Except Failure Unit
    | .close _ => ℕ
    | .closed _ _ => Except Failure Bool

namespace World

variable (w : World Payload S)

def set (k : ℕ) (m : Member Payload S) : World Payload S := { w with members := w.members.set k m }

/-- `_untrack`. -/
def untrack (k : ℕ) : World Payload S := { w with listed := w.listed.erase k }

/-- The beginning of `consume`. -/
def enlist (setup : Setup Payload S) : Except Failure ℕ × World Payload S :=
  if w.closed then (.error ⟨.exception, "AceMQError", "acemq: this connection is closed"⟩, w)
  else if setup.concurrency < 1 then
    (.error (valueError ("acemq: concurrency must be at least 1, got " ++ toString setup.concurrency)), w)
  else (.ok w.members.length,
    { w with
      members := w.members ++ [⟨setup, .declaring false⟩]
      listed := w.listed ++ [w.members.length] })

/-- What a call that is over ended with. -/
def result : Call → Option (Except Failure Bool)
  | .returned drained => some (.ok drained)
  | .raised failure => some (.error failure)
  | .scheduled | .closing | .awaiting => none

/-- How the connection answers. -/
inductive Answer : World Payload S → (q : Demand Payload S) → (Startup Payload S).Ans q → World Payload S → Prop
  | declare {w : World Payload S} {topology : Topology} (answer : Except Failure Unit) :
      Answer w (.declare topology) answer w
  | consume {w : World Payload S} {setup : Setup Payload S} :
      Answer w (.consume setup) (w.enlist setup).1 (w.enlist setup).2
  | started {w : World Payload S} {k : ℕ} {m : Member Payload S} {x : Staffed Payload S m.setup.concurrency.toNat} :
      w.members[k]? = some m → m.standing = .started x → Answer w (.started k) (.ok ()) w
  | failed {w : World Payload S} {k : ℕ} {m : Member Payload S} {failure : Failure}
      {workers : List (Worker Payload S)} :
      w.members[k]? = some m → m.standing = .failed failure workers → Answer w (.started k) (.error failure) w
  | close {w : World Payload S} {k : ℕ} {m : Member Payload S} {x : Staffed Payload S m.setup.concurrency.toNat} :
      w.members[k]? = some m → m.standing = .started x →
      Answer w (.close k) x.shutdown.calls.length
        (w.set k ⟨m.setup, .started { x with shutdown := x.shutdown.called }⟩)
  | closed {w : World Payload S} {k i : ℕ} {m : Member Payload S} {x : Staffed Payload S m.setup.concurrency.toNat}
      {call : Call} {answer : Except Failure Bool} :
      w.members[k]? = some m → m.standing = .started x → x.shutdown.calls[i]? = some call →
      result call = some answer → Answer w (.closed k i) answer w

/-- What happens meanwhile: the consumers go on, and the connection may be closed. -/
inductive Drift : World Payload S → World Payload S → Prop
  | moves {w : World Payload S} {k : ℕ} {m : Member Payload S} {untracked : Bool}
      {standing : Standing Payload S m.setup.concurrency.toNat} :
      w.members[k]? = some m → m.standing.Move m.setup.consumer m.setup.chain m.setup.declare untracked standing →
      Drift w (if untracked then (w.set k ⟨m.setup, standing⟩).untrack k else w.set k ⟨m.setup, standing⟩)
  | disconnect {w : World Payload S} : Drift w { w with closed := true }

/-- What somebody who runs `p` on the connection can come to: the world, what was asked, and what is
left of `p`. -/
def Reaches {α : Type} (p : Program (Startup Payload S) Failure α) (init w : World Payload S)
    (t : List (Event (Startup Payload S))) (rest : Program (Startup Payload S) Failure α) : Prop :=
  ∃ h ps, Interleaved (fun _ : Unit ↦ p) (fun w _ ↦ Answer w) Drift init w h ps ∧
    project () h = t ∧ ps () = rest

end World

/-- `Connection.consume`. -/
def consume (setup : Setup Payload S) : Program (Startup Payload S) Failure ℕ :=
  (call (I := Startup Payload S) (.consume setup) id).bind fun k ↦
    (call (I := Startup Payload S) (.started k) id).bind fun _ ↦ ret k

/-- `Consumer.close`, whose answer nobody looks at. -/
def close (k : ℕ) : Program (Startup Payload S) Failure Unit :=
  (perform (I := Startup Payload S) (.close k)).bind fun i ↦
    (call (I := Startup Payload S) (.closed k i) id).bind fun _ ↦ ret ()

end Consumer

end AcemqAmqp
