import AcemqAmqp.Consumer.Chain
import Mathlib.Data.Fin.Basic
import Mathlib.Data.List.ReduceOption

/-!
# A running consumer

The queue between the subscription and the workers, the workers, the flag a
delivery can raise, and closing: `_deliver`, `_work_loop`, `_halt` and `close`,
one step at a time in any order.  A worker is where it is in handling a
delivery.  The broker numbers what it delivers.
-/

namespace AcemqAmqp

namespace Consumer

open Interaction Program

variable {Payload : Type} {S : Interface} {n : ℕ}

/-- What a worker is doing. -/
inductive Worker (Payload : Type) (S : Interface)
  | waiting
  | handling (delivery : Delivery) (rest : Program (Around Payload S) Failure Unit)
  | finished
  | died (failure : Failure)
  | cancelled

/-- How far closing has got.  `clean` says that it was not cut off: stopping and
giving back raised nothing, and the workers were waited for. -/
inductive Closing
  | no
  | stopping
  | draining
  | joining
  | releasing (clean : Bool)
  | released (clean : Bool)
  deriving DecidableEq

/-- A consumer with `n` workers.  `arrived` and `taken` count what was put in
`work` and what was taken out of it. -/
structure Running (Payload : Type) (S : Interface) (n : ℕ) where
  arrived : ℕ
  taken : ℕ
  work : List (Option Delivery)
  workers : Fin n → Worker Payload S
  halted : Bool
  closing : Closing

/-- What can be seen of a consumer: what was asked on behalf of a delivery, and
what closing gave back. -/
inductive Happening (Payload : Type) (S : Interface)
  | asked (tag : ℕ) (event : Event (Around Payload S))
  | gaveBack (tag : ℕ) (answer : Except Failure Unit)

/-- The number of the delivery it is about. -/
def Happening.tag : Happening Payload S → ℕ
  | asked tag _ | gaveBack tag _ => tag

def Worker.over : Worker Payload S → Prop
  | waiting | handling _ _ => False
  | finished | died _ | cancelled => True

/-- `close` is called, by the application or by `_halt`: only the first call closes. -/
def Closing.begin : Closing → Closing
  | no => stopping
  | closing => closing

namespace Running

variable (s : Running Payload S n)

/-- Started, and subscribed. -/
def initial (Payload : Type) (S : Interface) (n : ℕ) : Running Payload S n :=
  ⟨0, 0, [], fun _ ↦ .waiting, false, .no⟩

def set (i : Fin n) (w : Worker Payload S) : Running Payload S n :=
  { s with workers := Function.update s.workers i w }

/-- What a question changes here: `_halt` raises the flag, and starts to close. -/
def after (q : (Around Payload S).Act) : Running Payload S n :=
  match q with
  | .inl .halt => { s with halted := true, closing := s.closing.begin }
  | _ => s

/-- A worker that is not done is cancelled when the channel goes. -/
def cut : Worker Payload S → Worker Payload S
  | .waiting | .handling _ _ => .cancelled
  | w => w

end Running

/-- What can happen next, and what is seen of it. -/
inductive Move (c : Consumer) (chain : ConsumeNext Payload S) :
    Running Payload S n → List (Happening Payload S) → Running Payload S n → Prop
  | deliver {s : Running Payload S n} {d : Delivery} :
      (∀ clean, s.closing ≠ .released clean) → d.tag = s.arrived →
      Move c chain s [] { s with arrived := s.arrived + 1, work := s.work ++ [some d] }
  | take {s : Running Payload S n} {i : Fin n} {d : Delivery} {later : List (Option Delivery)}
      (fresh : String) {read : Instant} :
      s.workers i = .waiting → s.work = some d :: later → (fromMillis (millis read)).isSome = true →
      Move c chain s [] (Running.set { s with taken := s.taken + 1, work := later } i
        (.handling d (work { c with halted := s.halted } chain fresh read d)))
  | leave {s : Running Payload S n} {i : Fin n} {later : List (Option Delivery)} :
      s.workers i = .waiting → s.work = none :: later →
      Move c chain s [] (Running.set { s with work := later } i .finished)
  | ask {s : Running Payload S n} {i : Fin n} {d : Delivery} {q : (Around Payload S).Act}
      {next : (Around Payload S).Ans q → Program (Around Payload S) Failure Unit}
      (r : (Around Payload S).Ans q) :
      s.workers i = .handling d (.ask q next) →
      Move c chain s [.asked d.tag ⟨q, r⟩] ((s.after q).set i (.handling d (next r)))
  | settled {s : Running Payload S n} {i : Fin n} {d : Delivery} :
      s.workers i = .handling d (.ret ()) → Move c chain s [] (s.set i .waiting)
  | unsettled {s : Running Payload S n} {i : Fin n} {d : Delivery} {failure : Failure} :
      s.workers i = .handling d (.raise failure) → failure.isException = true →
      Move c chain s [] (s.set i .waiting)
  | dies {s : Running Payload S n} {i : Fin n} {d : Delivery} {failure : Failure} :
      s.workers i = .handling d (.raise failure) → failure.isException = false →
      Move c chain s [] (s.set i (.died failure))
  | close {s : Running Payload S n} : Move c chain s [] { s with closing := s.closing.begin }
  | stopped {s : Running Payload S n} :
      s.closing = .stopping → Move c chain s [] { s with closing := .draining }
  | giveBack {s : Running Payload S n} {d : Delivery} {later : List (Option Delivery)}
      (answer : Except Failure Unit) :
      s.closing = .draining → s.work = some d :: later →
      Move c chain s [.gaveBack d.tag answer]
        { s with
          taken := s.taken + 1
          work := later
          closing := match answer with
            | .ok _ => .draining
            | .error _ => .releasing false }
  | skip {s : Running Payload S n} {later : List (Option Delivery)} :
      s.closing = .draining → s.work = none :: later → Move c chain s [] { s with work := later }
  | drained {s : Running Payload S n} :
      s.closing = .draining → s.work = [] →
      Move c chain s [] { s with work := List.replicate n none, closing := .joining }
  | joined {s : Running Payload S n} :
      s.closing = .joining → (∀ i, (s.workers i).over) →
      Move c chain s [] { s with closing := .releasing true }
  | cutOff {s : Running Payload S n} :
      s.closing = .stopping ∨ s.closing = .draining ∨ s.closing = .joining →
      Move c chain s [] { s with closing := .releasing false }
  | release {s : Running Payload S n} {clean : Bool} :
      s.closing = .releasing clean →
      Move c chain s []
        { s with workers := fun i ↦ Running.cut (s.workers i), closing := .released clean }

/-- What is seen from one state to another. -/
inductive Goes (c : Consumer) (chain : ConsumeNext Payload S) (s : Running Payload S n) :
    List (Happening Payload S) → Running Payload S n → Prop
  | refl : Goes c chain s [] s
  | step {s' s'' : Running Payload S n} {h e : List (Happening Payload S)} :
      Goes c chain s h s' → Move c chain s' e s'' → Goes c chain s (h ++ e) s''

section runs

variable {c : Consumer} {chain : ConsumeNext Payload S} {s₀ s s' : Running Payload S n}
  {h e : List (Happening Payload S)}

@[simp] theorem set_workers_self (i : Fin n) (w : Worker Payload S) : (s.set i w).workers i = w :=
  Function.update_self ..

theorem set_workers (i j : Fin n) (w : Worker Payload S) :
    (s.set i w).workers j = if j = i then w else s.workers j := Function.update_apply ..

@[simp] theorem after_workers (q : (Around Payload S).Act) : (s.after q).workers = s.workers := by
  unfold Running.after
  split <;> rfl

@[simp] theorem after_work (q : (Around Payload S).Act) : (s.after q).work = s.work := by
  unfold Running.after
  split <;> rfl

@[simp] theorem after_taken (q : (Around Payload S).Act) : (s.after q).taken = s.taken := by
  unfold Running.after
  split <;> rfl

@[simp] theorem after_arrived (q : (Around Payload S).Act) : (s.after q).arrived = s.arrived := by
  unfold Running.after
  split <;> rfl

/-- A worker that is handling a delivery after a move took it, or was handling
it, and has been given an answer if the move was its own. -/
theorem Move.handling (hmove : Move c chain s e s') {i : Fin n} {d : Delivery}
    {rest : Program (Around Payload S) Failure Unit} (hi : s'.workers i = .handling d rest) :
    s.workers i = .handling d rest ∨
      (s.workers i = .waiting ∧ ∃ later fresh read, s.work = some d :: later ∧
        (fromMillis (millis read)).isSome = true ∧ s'.taken = s.taken + 1 ∧
        rest = work { c with halted := s.halted } chain fresh read d) ∨
      ∃ q next r, s.workers i = .handling d (.ask q next) ∧ rest = next r ∧
        e = [.asked d.tag ⟨q, r⟩] := by
  cases hmove with
  | deliver | close | stopped | giveBack | skip | drained | joined | cutOff => exact .inl hi
  | @take i' d' later fresh read hwaiting hwork hread =>
      rw [set_workers] at hi
      split at hi
      · rename_i hsame
        obtain ⟨rfl, rfl⟩ := Worker.handling.inj hi
        exact .inr (.inl ⟨hsame ▸ hwaiting, later, fresh, read, hwork, hread, rfl, rfl⟩)
      · exact .inl hi
  | @ask i' d' q next r hhandling =>
      rw [set_workers, after_workers] at hi
      split at hi
      · rename_i hsame
        obtain ⟨rfl, rfl⟩ := Worker.handling.inj hi
        exact .inr (.inr ⟨q, next, r, hsame ▸ hhandling, rfl, rfl⟩)
      · exact .inl hi
  | leave | settled | unsettled | dies =>
      rw [set_workers] at hi
      split at hi
      · cases hi
      · exact .inl hi
  | release =>
      left
      change Running.cut (s.workers i) = _ at hi
      cases hworker : s.workers i with
      | waiting | handling | finished | died | cancelled =>
          rw [hworker] at hi
          cases hi

/-- What is said of the rest of a handling, and of what has been seen, from the
start of the handling on. -/
structure Carried (c : Consumer) (chain : ConsumeNext Payload S)
    (R : List (Happening Payload S) → Delivery → Program (Around Payload S) Failure Unit → Prop) :
    Prop where
  start : ∀ h halted fresh read d, R h d (work { c with halted := halted } chain fresh read d)
  ask : ∀ h d q next r, R h d (.ask q next) → R (h ++ [.asked d.tag ⟨q, r⟩]) d (next r)
  more : ∀ h e d rest, R h d rest → R (h ++ e) d rest

variable {R : List (Happening Payload S) → Delivery → Program (Around Payload S) Failure Unit → Prop}

theorem Goes.carried (hR : Carried c chain R) (hgoes : Goes c chain (.initial Payload S n) h s)
    {i : Fin n} {d : Delivery} {rest : Program (Around Payload S) Failure Unit}
    (hi : s.workers i = .handling d rest) : R h d rest := by
  induction hgoes generalizing i d rest with
  | refl => cases hi
  | step _ hmove ih =>
      rcases hmove.handling hi with hsame | ⟨-, later, fresh, read, -, -, -, rfl⟩ | ⟨q, next, r, hask, rfl, rfl⟩
      · exact hR.more _ _ _ _ (ih hsame)
      · exact hR.start _ _ _ _ _
      · exact hR.ask _ _ _ _ _ (ih hask)

/-- Whatever is asked on behalf of a delivery is the next question of its handling. -/
theorem Move.asked (hmove : Move c chain s e s') {tag : ℕ} {event : Event (Around Payload S)}
    (hevent : .asked tag event ∈ e) : ∃ i d next, s.workers i = .handling d (.ask event.1 next) ∧
      d.tag = tag ∧ e = [.asked tag event] ∧ s' = (s.after event.1).set i (.handling d (next event.2)) := by
  cases hmove with
  | @ask i d q next r hhandling =>
      obtain ⟨rfl, rfl⟩ := Happening.asked.inj (List.mem_singleton.mp hevent)
      exact ⟨i, d, next, hhandling, rfl, rfl, rfl⟩
  | giveBack => exact absurd (List.mem_singleton.mp hevent) (fun h ↦ nomatch h)
  | deliver | take | leave | settled | unsettled | dies | close | stopped | skip | drained | joined
  | cutOff | release => exact absurd hevent List.not_mem_nil

/-- A guarantee about every question of a handling is one about everything seen. -/
theorem Goes.asks {P : (Around Payload S).Act → Prop}
    (hP : ∀ halted fresh read d,
      (work { c with halted := halted } chain fresh read d).Asks (Anything _) fun _ q ↦ P q)
    (hgoes : Goes c chain (.initial Payload S n) h s) {tag : ℕ} {event : Event (Around Payload S)}
    (hevent : .asked tag event ∈ h) : P event.1 := by
  have hR : Carried c chain (fun _ _ rest ↦ rest.Asks (Anything _) fun _ q ↦ P q) :=
    ⟨fun _ ↦ hP, fun _ _ _ _ r h ↦ h.2 r trivial, fun _ _ _ _ h ↦ h⟩
  induction hgoes with
  | refl => exact absurd hevent List.not_mem_nil
  | step hgoes hmove ih =>
      rcases List.mem_append.mp hevent with hold | hnew
      · exact ih hold
      · obtain ⟨i, d, next, hi, -⟩ := hmove.asked hnew
        exact (hgoes.carried hR hi).1

/-- Deliveries are taken in the order they arrived in, and nothing is done about
one before it is taken. -/
structure Ordered (h : List (Happening Payload S)) (s : Running Payload S n) : Prop where
  taken : s.taken ≤ s.arrived
  work : s.work.reduceOption.map Delivery.tag = List.range' s.taken (s.arrived - s.taken)
  seen : ∀ happening ∈ h, happening.tag < s.taken
  handled : ∀ i d rest, s.workers i = .handling d rest → d.tag < s.taken

/-- The next delivery is taken, by a worker or by closing. -/
theorem Ordered.next (hs : Ordered h s) {d : Delivery} {later : List (Option Delivery)}
    (hwork : s.work = some d :: later) : d.tag = s.taken ∧ s.taken + 1 ≤ s.arrived ∧
      later.reduceOption.map Delivery.tag =
        List.range' (s.taken + 1) (s.arrived - (s.taken + 1)) := by
  have htags := hs.work
  rw [hwork, List.reduceOption_cons_of_some, List.map_cons] at htags
  obtain ⟨k, hk⟩ : ∃ k, s.arrived - s.taken = k + 1 := by
    refine Nat.exists_eq_succ_of_ne_zero fun hzero ↦ ?_
    rw [hzero] at htags
    cases htags
  rw [hk, List.range'_succ, List.cons.injEq] at htags
  refine ⟨htags.1, by omega, ?_⟩
  rw [htags.2]
  congr 1
  omega

/-- A delivery that waits arrived after all that were taken. -/
theorem Ordered.le_of_mem (hs : Ordered h s) {d : Delivery} (hd : some d ∈ s.work) : s.taken ≤ d.tag := by
  have hmem : d.tag ∈ s.work.reduceOption.map Delivery.tag :=
    List.mem_map_of_mem (List.reduceOption_mem_iff.mpr hd)
  rw [hs.work, List.mem_range'_1] at hmem
  exact hmem.1

/-- What a move does to the queue between the subscription and the workers. -/
theorem Move.queued (hmove : Move c chain s e s') :
    (s'.taken = s.taken ∧ s'.arrived = s.arrived + 1 ∧ e = [] ∧
      ∃ d : Delivery, d.tag = s.arrived ∧ s'.work = s.work ++ [some d]) ∨
    (s'.taken = s.taken + 1 ∧ s'.arrived = s.arrived ∧ ∃ d, s.work = some d :: s'.work ∧
      ((∃ i fresh read, s.workers i = .waiting ∧ (fromMillis (millis read)).isSome = true ∧ e = [] ∧
          s' = Running.set { s with taken := s.taken + 1, work := s'.work } i
            (.handling d (work { c with halted := s.halted } chain fresh read d))) ∨
        ∃ answer, e = [.gaveBack d.tag answer] ∧ s'.workers = s.workers)) ∨
    (s'.taken = s.taken ∧ s'.arrived = s.arrived ∧ s'.work.reduceOption = s.work.reduceOption ∧
      ∀ happening ∈ e, ∃ i d rest, s.workers i = .handling d rest ∧ d.tag = happening.tag) := by
  have hnone : ∀ {P : Happening Payload S → Prop}, ∀ happening ∈ [], P happening :=
    fun _ hmem ↦ absurd hmem List.not_mem_nil
  cases hmove with
  | @deliver d hopen htag => exact .inl ⟨rfl, rfl, rfl, d, htag, rfl⟩
  | @take i d later fresh read hwaiting hwork hread =>
      exact .inr (.inl ⟨rfl, rfl, d, hwork, .inl ⟨i, fresh, read, hwaiting, hread, rfl, rfl⟩⟩)
  | @giveBack d later answer hclosing hwork =>
      exact .inr (.inl ⟨rfl, rfl, d, hwork, .inr ⟨answer, rfl, rfl⟩⟩)
  | @ask i d q next r hhandling =>
      refine .inr (.inr ⟨after_taken q, after_arrived q, congrArg _ (after_work q), fun happening hmem ↦ ?_⟩)
      rw [List.mem_singleton.mp hmem]
      exact ⟨i, d, _, hhandling, rfl⟩
  | leave _ hwork | skip _ hwork =>
      have hrest := (congrArg List.reduceOption hwork).trans (List.reduceOption_cons_of_none _)
      exact .inr (.inr ⟨rfl, rfl, hrest.symm, hnone⟩)
  | drained _ hwork =>
      refine .inr (.inr ⟨rfl, rfl, ?_, hnone⟩)
      rw [hwork, List.reduceOption_nil]
      exact List.reduceOption_replicate_none
  | settled | unsettled | dies | close | stopped | joined | cutOff | release =>
      exact .inr (.inr ⟨rfl, rfl, rfl, hnone⟩)

/-- Closing gives back the delivery that waited longest. -/
theorem Move.gaveBack (hmove : Move c chain s e s') {tag : ℕ} {answer : Except Failure Unit}
    (hmem : .gaveBack tag answer ∈ e) : ∃ d later, s.work = some d :: later ∧ d.tag = tag := by
  cases hmove with
  | @giveBack d later answer' hclosing hwork =>
      obtain ⟨rfl, -⟩ := Happening.gaveBack.inj (List.mem_singleton.mp hmem)
      exact ⟨d, later, hwork, rfl⟩
  | ask => cases List.mem_singleton.mp hmem
  | deliver | take | leave | settled | unsettled | dies | close | stopped | skip | drained | joined
  | cutOff | release => exact absurd hmem List.not_mem_nil

theorem Ordered.move (hs : Ordered h s) (hmove : Move c chain s e s') : Ordered (h ++ e) s' := by
  have hle : s.taken ≤ s'.taken := by
    obtain ⟨htaken, -⟩ | ⟨htaken, -⟩ | ⟨htaken, -⟩ := hmove.queued <;> omega
  constructor
  case handled =>
    intro i d rest hi
    rcases hmove.handling hi with hsame | ⟨-, later, fresh, read, hwork, -, htaken, -⟩ |
      ⟨q, next, r, hask, -, -⟩
    · exact (hs.handled i d rest hsame).trans_le hle
    · rw [(hs.next hwork).1, htaken]
      exact Nat.lt_succ_self _
    · exact (hs.handled i d _ hask).trans_le hle
  all_goals
    rcases hmove.queued with ⟨htaken, harrived, rfl, d, htag, hwork⟩ | ⟨htaken, harrived, d, hwork, hnext⟩ |
      ⟨htaken, harrived, hwork, hseen⟩
  case taken.inl => exact htaken ▸ harrived ▸ hs.taken.trans (Nat.le_succ _)
  case taken.inr.inl => exact htaken ▸ harrived ▸ (hs.next hwork).2.1
  case taken.inr.inr => exact htaken ▸ harrived ▸ hs.taken
  case work.inl =>
    rw [hwork, htaken, harrived, Nat.succ_sub hs.taken, ← List.concat_eq_append,
      List.reduceOption_concat_of_some, List.concat_eq_append, List.map_append, hs.work,
      List.range'_concat, one_mul, Nat.add_sub_cancel' hs.taken, ← htag]
    rfl
  case work.inr.inl => exact htaken ▸ harrived ▸ (hs.next hwork).2.2
  case work.inr.inr => rw [hwork, htaken, harrived, hs.work]
  case seen.inl => exact htaken ▸ (List.append_nil h).symm ▸ hs.seen
  case seen.inr.inl =>
    refine List.forall_mem_append.mpr ⟨fun happening hmem ↦ (hs.seen happening hmem).trans_le hle, ?_⟩
    intro happening hmem
    obtain ⟨i, fresh, read, -, -, rfl, -⟩ | ⟨answer, rfl, -⟩ := hnext
    · exact absurd hmem List.not_mem_nil
    · rw [List.mem_singleton.mp hmem, Happening.tag, (hs.next hwork).1, htaken]
      exact Nat.lt_succ_self _
  case seen.inr.inr =>
    refine List.forall_mem_append.mpr ⟨fun happening hmem ↦ (hs.seen happening hmem).trans_le hle, ?_⟩
    intro happening hmem
    obtain ⟨i, d, rest, hi, htag⟩ := hseen happening hmem
    exact htag ▸ (hs.handled i d rest hi).trans_le hle

theorem Goes.ordered (hgoes : Goes c chain (.initial Payload S n) h s) : Ordered h s := by
  induction hgoes with
  | refl =>
      exact ⟨le_rfl, rfl, fun _ hmem ↦ absurd hmem List.not_mem_nil, fun i d rest hi ↦ by cases hi⟩
  | step _ hmove ih => exact ih.move hmove

/-- The workers have been waited for, or their channel is gone. -/
def Closing.Left : Closing → Prop
  | releasing true | released _ => True
  | _ => False

/-- Closing gave back all that was waiting. -/
def Closing.Emptied : Closing → Prop
  | joining | releasing true | released true => True
  | _ => False

theorem begin_left {closing : Closing} : closing.begin.Left ↔ closing.Left := by
  cases closing <;> rfl

theorem begin_ne_no (closing : Closing) : closing.begin ≠ .no := by
  cases closing <;> exact Closing.noConfusion

/-- No worker outlives its being waited for, or its channel, which alone cuts
one off, and a consumer that was halted is closing. -/
structure Closed (s : Running Payload S n) : Prop where
  left : s.closing.Left → ∀ i, (s.workers i).over
  cancelled : ∀ i, s.workers i = .cancelled → s.closing ≠ .no
  halted : s.halted = true → s.closing ≠ .no

theorem over_cut (w : Worker Payload S) : (Running.cut w).over := by
  cases w with
  | waiting | handling | finished | died | cancelled => trivial

/-- A worker that is done stays so. -/
theorem Move.over (hmove : Move c chain s e s') {i : Fin n} (hover : (s.workers i).over) :
    (s'.workers i).over := by
  have hset : ∀ {s : Running Payload S n} {j : Fin n} {w : Worker Payload S}, (s.workers i).over →
      ¬(s.workers j).over → ((s.set j w).workers i).over := by
    intro s j w hi hj
    rw [set_workers, if_neg]
    · exact hi
    · rintro rfl
      exact hj hi
  cases hmove with
  | deliver | close | stopped | giveBack | skip | drained | joined | cutOff => exact hover
  | take _ hworker | leave hworker | settled hworker | unsettled hworker | dies hworker =>
      exact hset hover (by rw [hworker]; exact id)
  | @ask j d q next r hworker =>
      refine hset (by rwa [after_workers]) ?_
      rw [after_workers, hworker]
      exact id
  | release => exact over_cut _

theorem begin_emptied {closing : Closing} : closing.begin.Emptied ↔ closing.Emptied := by
  cases closing <;> rfl

/-- Closing is past giving back once nothing waits. -/
theorem Move.emptied (hmove : Move c chain s e s') (hemptied : s'.closing.Emptied) :
    s.closing.Emptied ∨ s.work = [] := by
  cases hmove with
  | deliver | take | leave | settled | unsettled | dies | skip => exact .inl hemptied
  | @ask i d q next r =>
      change (s.after q).closing.Emptied at hemptied
      unfold Running.after at hemptied
      split at hemptied
      · exact .inl (begin_emptied.mp hemptied)
      · exact .inl hemptied
  | close => exact .inl (begin_emptied.mp hemptied)
  | stopped | cutOff => exact hemptied.elim
  | @giveBack d later answer =>
      cases answer with
      | ok | error => exact hemptied.elim
  | drained _ hwork => exact .inr hwork
  | joined hclosing =>
      rw [hclosing]
      exact .inl trivial
  | @release clean hclosing =>
      rw [hclosing]
      cases clean with
      | false => exact hemptied.elim
      | true => exact .inl trivial

theorem Move.released (hmove : Move c chain s e s') {clean : Bool} (h : s.closing = .released clean) :
    s'.closing = .released clean := by
  have hbegin : s.closing.begin = .released clean := by rw [h]; rfl
  have hother : ∀ {closing : Closing}, s.closing = closing → closing = .released clean :=
    fun hclosing ↦ hclosing.symm.trans h
  cases hmove with
  | deliver | take | leave | settled | unsettled | dies | skip => exact h
  | @ask i d q next r =>
      change (s.after q).closing = _
      unfold Running.after
      split
      · exact hbegin
      · exact h
  | close => exact hbegin
  | stopped hclosing | giveBack _ hclosing | drained hclosing | joined hclosing | release hclosing =>
      cases hother hclosing
  | cutOff hclosing =>
      rcases hclosing with hclosing | hclosing | hclosing <;> cases hother hclosing

/-- Closing goes on. -/
theorem Move.begun (hmove : Move c chain s e s') (h : s.closing ≠ .no) : s'.closing ≠ .no := by
  cases hmove with
  | deliver | take | leave | settled | unsettled | dies | skip => exact h
  | @ask i d q next r =>
      change (s.after q).closing ≠ .no
      unfold Running.after
      split
      · exact begin_ne_no _
      · exact h
  | close => exact begin_ne_no _
  | stopped | drained | joined | cutOff | release => exact Closing.noConfusion
  | @giveBack d later answer =>
      cases answer with
      | ok | error => exact Closing.noConfusion

theorem Closed.move (hs : Closed s) (hmove : Move c chain s e s') : Closed s' := by
  have hkept : (s'.closing.Left → s.closing.Left) → s'.closing.Left → ∀ i, (s'.workers i).over :=
    fun hleft h i ↦ hmove.over (hs.left (hleft h) i)
  have hset : ∀ {s₁ : Running Payload S n} {j : Fin n} {w : Worker Payload S}, s₁.workers = s.workers →
      w ≠ .cancelled → ∀ i, (s₁.set j w).workers i = .cancelled → s'.closing ≠ .no := by
    intro s₁ j w hsame hw i hi
    rw [set_workers, hsame] at hi
    split at hi
    · exact absurd hi hw
    · exact hmove.begun (hs.cancelled i hi)
  have hafter : ∀ q : (Around Payload S).Act, ((s.after q).closing.Left → s.closing.Left) ∧
      ((s.after q).halted = true → (s.after q).closing ≠ .no) := by
    intro q
    unfold Running.after
    split
    · exact ⟨begin_left.mp, fun _ ↦ begin_ne_no _⟩
    · exact ⟨id, hs.halted⟩
  have hcancelled : s'.workers = s.workers → ∀ i, s'.workers i = .cancelled → s'.closing ≠ .no :=
    fun hsame i hi ↦ hmove.begun (hs.cancelled i (hsame ▸ hi))
  cases hmove with
  | take | leave | settled | unsettled | dies =>
      exact ⟨hkept id, hset rfl (by rintro ⟨⟩), hs.halted⟩
  | deliver | skip => exact ⟨hkept id, hcancelled rfl, hs.halted⟩
  | @ask i d q next r =>
      exact ⟨hkept (hafter q).1, hset (after_workers q) (by rintro ⟨⟩), (hafter q).2⟩
  | close => exact ⟨hkept begin_left.mp, hcancelled rfl, fun _ ↦ begin_ne_no _⟩
  | stopped | drained | cutOff => exact ⟨False.elim, hcancelled rfl, fun _ ↦ Closing.noConfusion⟩
  | @giveBack d later answer =>
      cases answer with
      | ok | error => exact ⟨False.elim, hcancelled rfl, fun _ ↦ Closing.noConfusion⟩
  | joined hclosing hover => exact ⟨fun _ ↦ hover, hcancelled rfl, fun _ ↦ Closing.noConfusion⟩
  | release =>
      exact ⟨fun _ _ ↦ over_cut _, fun _ _ ↦ Closing.noConfusion, fun _ ↦ Closing.noConfusion⟩

theorem Goes.closed (hgoes : Goes c chain (.initial Payload S n) h s) : Closed s := by
  induction hgoes with
  | refl => exact ⟨False.elim, fun i hi ↦ (by cases hi), fun h ↦ (by cases h)⟩
  | step _ hmove ih => exact ih.move hmove

/-- A consumer that was halted stays so. -/
theorem Move.halted (hmove : Move c chain s e s') (hhalted : s.halted = true) : s'.halted = true := by
  cases hmove with
  | @ask i d q next r =>
      change (s.after q).halted = true
      unfold Running.after
      split
      · rfl
      · exact hhalted
  | deliver | take | leave | settled | unsettled | dies | close | stopped | giveBack | skip | drained
  | joined | cutOff | release => exact hhalted

theorem Goes.halted (hgoes : Goes c chain (.initial Payload S n) h s) {tag : ℕ}
    {event : Event (Around Payload S)} (hevent : .asked tag event ∈ h) (hhalt : event.1 = .inl .halt) :
    s.halted = true := by
  induction hgoes with
  | refl => exact absurd hevent List.not_mem_nil
  | step _ hmove ih =>
      rcases List.mem_append.mp hevent with hold | hnew
      · exact hmove.halted (ih hold)
      · obtain ⟨i, d, next, -, -, -, rfl⟩ := hmove.asked hnew
        change (Running.after _ event.1).halted = true
        rw [hhalt]
        rfl

end runs

end Consumer

end AcemqAmqp
