import AcemqAmqp.Foundations.Interleaving
import AcemqAmqp.Outbox.Record

/-!
# The relay

`OutboxRelay`: a sweep publishes what is waiting, record by record, and stops at the
first that the broker does not take.  What it asks of its store and of the broker
is left to them.
-/

namespace AcemqAmqp

namespace Outbox

open Interaction

/-- What is asked: by the relay of its store and of the broker, and by callers of the
transaction they have open. -/
inductive Ask
  | pending (limit : ℤ)
  | publish (exchange routingKey : String) (message : Outbound)
  | recordFailure (entryId error : String)
  | markPublished (entryId : String)
  | add (entry : OutboxRecord)
  | commit
  | rollback

def Ask.Answer : Ask → Type
  | pending _ => Except Failure (List OutboxRecord)
  | publish .. => BrokerAnswer
  | recordFailure .. | markPublished _ | add _ | commit | rollback => Except Failure Unit

abbrev Outboxing : Interface := ⟨Ask, Ask.Answer⟩

/-- What the relay makes of an answer: a message that was returned is not published. -/
def published (connection : Connection) (entry : OutboxRecord) (answer : BrokerAnswer) : Except Failure Unit := do
  let result ← connection.publishRaw entry.exchange entry.routingKey entry.outbound answer
  if result.routed then return ()
  else throw <| .unroutable entry.id entry.exchange entry.routingKey <|
    orElse result.returnReason "no queue is bound to receive it"

/-- `str(failure) or failure.__class__.__name__`. -/
def reason (failure : Failure) : String := orElse failure.text failure.typeName

variable (connection : Connection)

/-- The failure of a record is counted against it, and raised. -/
def publishOne (entry : OutboxRecord) : Program Outboxing Failure Unit :=
  (Program.call (I := Outboxing) (.publish entry.exchange entry.routingKey entry.outbound)
    (published connection entry)).rescue fun failure ↦
      if failure.isException then do
        Program.call (I := Outboxing) (.recordFailure entry.id (reason failure)) id
        Program.raise failure
      else .raise failure

/-- The records in their order, and how many of them went out. -/
def publishAll : List OutboxRecord → Program Outboxing Failure ℕ
  | [] => .ret 0
  | entry :: rest => do
      publishOne connection entry
      Program.call (I := Outboxing) (.markPublished entry.id) id
      let more ← publishAll rest
      return more + 1

def sweep (batch : ℤ) : Program Outboxing Failure ℕ := do
  let waiting ← Program.call (I := Outboxing) (.pending batch) id
  publishAll connection waiting

/-- Sweep after sweep, whatever becomes of each: a tick that failed is followed by the next, and a
relay that was cut off by one that is started again. -/
def relay (batch : ℤ) : ℕ → Program Outboxing Failure Unit
  | 0 => .ret ()
  | n + 1 => do
      let _ ← (sweep connection batch).rescue fun _ ↦ .ret 0
      relay batch n

variable {connection} {entry : OutboxRecord} {answer : BrokerAnswer} {waiting : List OutboxRecord}

/-- A record counts as published when the broker took it and some queue has it. -/
theorem published_ok_iff : published connection entry answer = .ok () ↔ answer.delivered = true := by
  rw [← publishRaw_routed_iff connection entry.exchange entry.routingKey entry.outbound answer, published]
  cases connection.publishRaw entry.exchange entry.routingKey entry.outbound answer with
  | error failure => exact iff_of_false nofun nofun
  | ok result =>
      by_cases hrouted : result.routed = true
      · exact iff_of_true (if_pos hrouted) ⟨result, rfl, hrouted⟩
      · refine iff_of_false (fun h ↦ ?_) ?_
        · cases (if_neg hrouted).symm.trans h
        · rintro ⟨_, heq, hother⟩
          obtain rfl := Except.ok.inj heq
          exact hrouted hother

/-! ## How a sweep goes -/

/-- The publish of a record and what the broker said. -/
def publishing (entry : OutboxRecord) (answer : BrokerAnswer) : Interaction.Event Outboxing :=
  ⟨.publish entry.exchange entry.routingKey entry.outbound, answer⟩

/-- What is left of how counting a failure ends: the failure, unless counting it failed. -/
def counted (failure : Failure) : Except Failure Unit → Failure
  | .ok () => failure
  | .error other => other

variable (connection) in
/-- What is asked for the records from the first on, and how it ends. -/
inductive Course : List OutboxRecord → List (Interaction.Event Outboxing) → Except Failure ℕ → Prop
  | done : Course [] [] (.ok 0)
  | published {entry : OutboxRecord} {rest : List OutboxRecord} {answer : BrokerAnswer}
      {t : List (Interaction.Event Outboxing)} {x : Except Failure ℕ} : answer.delivered = true → Course rest t x →
      Course (entry :: rest) (publishing entry answer :: ⟨.markPublished entry.id, .ok ()⟩ :: t) (x.map (· + 1))
  | unmarked {entry : OutboxRecord} {rest : List OutboxRecord} {answer : BrokerAnswer} {failure : Failure} :
      answer.delivered = true →
      Course (entry :: rest) [publishing entry answer, ⟨.markPublished entry.id, .error failure⟩] (.error failure)
  | refused {entry : OutboxRecord} {rest : List OutboxRecord} {answer : BrokerAnswer} {failure : Failure}
      {recorded : Except Failure Unit} : published connection entry answer = .error failure →
      failure.isException = true →
      Course (entry :: rest) [publishing entry answer, ⟨.recordFailure entry.id (reason failure), recorded⟩]
        (.error (counted failure recorded))
  | stopped {entry : OutboxRecord} {rest : List OutboxRecord} {answer : BrokerAnswer} {failure : Failure} :
      published connection entry answer = .error failure → failure.isException = false →
      Course (entry :: rest) [publishing entry answer] (.error failure)

theorem publishAll_course (waiting : List OutboxRecord) :
    (publishAll connection waiting).Always (Anything Outboxing) (Course connection waiting) := by
  induction waiting with
  | nil => exact .done
  | cons entry rest ih =>
      rw [publishAll, publishOne, Program.bind_eq, Program.always_bind, Program.always_rescue]
      refine (Program.always_call _ _).mpr fun answer _ ↦ ?_
      cases hpublished : published connection entry answer with
      | error failure =>
          by_cases hexception : failure.isException = true
          · rw [Program.onEnd_error, if_pos hexception]
            refine (Program.always_bind _ _).mpr ((Program.always_call _ _).mpr fun recorded _ ↦ ?_)
            cases recorded with
            | ok _ => exact .refused hpublished hexception
            | error other => exact .refused hpublished hexception
          · rw [Program.onEnd_error, if_neg hexception]
            exact .stopped hpublished (Bool.not_eq_true _ ▸ hexception)
      | ok _ =>
          have hdelivered := published_ok_iff.mp hpublished
          refine (Program.always_bind _ _).mpr ((Program.always_call _ _).mpr fun marked _ ↦ ?_)
          cases marked with
          | error failure => exact .unmarked hdelivered
          | ok _ =>
              refine (Program.always_bind _ _).mpr (ih.mono fun t x hcourse ↦ ?_)
              have hnext := @Course.published connection entry rest answer t x hdelivered hcourse
              cases x with
              | error failure => exact hnext
              | ok n =>
                  change Course connection (entry :: rest) (_ :: _ :: (t ++ [])) (.ok (n + 1))
                  rw [List.append_nil]
                  exact hnext

/-- What is asked to be published, and where. -/
def attempted (t : List (Interaction.Event Outboxing)) : List (String × String × Outbound) :=
  t.filterMap fun
    | ⟨.publish exchange routingKey message, _⟩ => some (exchange, routingKey, message)
    | _ => none

def OutboxRecord.target (entry : OutboxRecord) : String × String × Outbound :=
  (entry.exchange, entry.routingKey, entry.outbound)

/-- What a sweep over these records says: it publishes from the first on, in their order; it stops at
the first that is not taken; it removes what was taken and nothing else; and it counts what went out. -/
structure Sweeps (waiting : List OutboxRecord) (t : List (Interaction.Event Outboxing)) (x : Except Failure ℕ) :
    Prop where
  order : attempted t <+: waiting.map OutboxRecord.target
  stops : ∀ before entry answer after, t = before ++ publishing entry answer :: after → answer.delivered = false →
    attempted after = [] ∧ ∀ entryId r, ⟨.markPublished entryId, r⟩ ∉ after
  removes : ∀ before entryId r after, t = before ++ ⟨.markPublished entryId, r⟩ :: after →
    ∃ entry ∈ waiting, ∃ answer : BrokerAnswer, answer.delivered = true ∧ entry.id = entryId ∧
      publishing entry answer ∈ before
  counts : ∀ n, x = .ok n → n = waiting.length ∧ attempted t = waiting.map OutboxRecord.target ∧
    ∀ entry ∈ waiting, ⟨.markPublished entry.id, .ok ()⟩ ∈ t

theorem Course.order {t : List (Interaction.Event Outboxing)} {x : Except Failure ℕ}
    (h : Course connection waiting t x) : attempted t <+: waiting.map OutboxRecord.target := by
  induction h with
  | done => exact List.prefix_rfl
  | published _ _ ih => exact (List.prefix_cons_inj _).mpr ih
  | unmarked | refused | stopped => exact (List.prefix_cons_inj _).mpr List.nil_prefix

theorem Course.counts {t : List (Interaction.Event Outboxing)} {x : Except Failure ℕ} {n : ℕ}
    (h : Course connection waiting t x) (hx : x = .ok n) :
    n = waiting.length ∧ attempted t = waiting.map OutboxRecord.target ∧
      ∀ entry ∈ waiting, ⟨.markPublished entry.id, .ok ()⟩ ∈ t := by
  induction h generalizing n with
  | done => exact ⟨(Except.ok.inj hx).symm, rfl, nofun⟩
  | @published entry rest answer t x _ _ ih =>
      cases x with
      | error failure => cases hx
      | ok more =>
          obtain rfl := Except.ok.inj hx
          obtain ⟨rfl, hall, hmarked⟩ := ih rfl
          refine ⟨rfl, congrArg _ hall, List.forall_mem_cons.mpr ⟨by simp, fun entry' hentry ↦ ?_⟩⟩
          exact List.mem_cons_of_mem _ (List.mem_cons_of_mem _ (hmarked entry' hentry))
  | unmarked | refused | stopped => cases hx

theorem answer_of_publishing {entry entry' : OutboxRecord} {answer answer' : BrokerAnswer}
    (h : publishing entry answer = publishing entry' answer') : answer = answer' :=
  eq_of_heq (Sigma.mk.inj h).2

theorem Course.stops {t before after : List (Interaction.Event Outboxing)} {x : Except Failure ℕ}
    (h : Course connection waiting t x) (hsplit : t = before ++ publishing entry answer :: after)
    (hrefused : answer.delivered = false) :
    attempted after = [] ∧ ∀ entryId r, ⟨.markPublished entryId, r⟩ ∉ after := by
  induction h generalizing before with
  | done => cases before <;> cases hsplit
  | published hdelivered _ ih =>
      rcases before with _ | ⟨e, _ | ⟨e', before⟩⟩
      · rw [answer_of_publishing (List.cons.inj hsplit).1] at hdelivered
        cases hdelivered.symm.trans hrefused
      · cases hsplit
      · exact ih (List.cons.inj (List.cons.inj hsplit).2).2
  | unmarked hdelivered =>
      rcases before with _ | ⟨e, _ | ⟨e', before⟩⟩
      · rw [answer_of_publishing (List.cons.inj hsplit).1] at hdelivered
        cases hdelivered.symm.trans hrefused
      · cases hsplit
      · cases before <;> cases hsplit
  | refused =>
      rcases before with _ | ⟨e, _ | ⟨e', before⟩⟩
      · obtain rfl := (List.cons.inj hsplit).2
        refine ⟨rfl, fun entryId r hmem ↦ ?_⟩
        cases List.mem_singleton.mp hmem
      · cases hsplit
      · cases before <;> cases hsplit
  | stopped =>
      rcases before with _ | ⟨e, before⟩
      · obtain rfl := (List.cons.inj hsplit).2
        exact ⟨rfl, fun _ _ hmem ↦ absurd hmem List.not_mem_nil⟩
      · cases before <;> cases hsplit

theorem Course.removes {t before after : List (Interaction.Event Outboxing)} {x : Except Failure ℕ} {entryId : String}
    {r : Except Failure Unit} (h : Course connection waiting t x)
    (hsplit : t = before ++ ⟨.markPublished entryId, r⟩ :: after) :
    ∃ entry ∈ waiting, ∃ answer : BrokerAnswer, answer.delivered = true ∧ entry.id = entryId ∧
      publishing entry answer ∈ before := by
  induction h generalizing before with
  | done => cases before <;> cases hsplit
  | @published entry rest answer t x hdelivered _ ih =>
      rcases before with _ | ⟨e, _ | ⟨e', before⟩⟩
      · cases hsplit
      · obtain ⟨rfl, hrest⟩ := List.cons.inj hsplit
        have hid : entry.id = entryId := Ask.markPublished.inj (congrArg Sigma.fst (List.cons.inj hrest).1)
        exact ⟨entry, List.mem_cons_self, answer, hdelivered, hid, List.mem_cons_self⟩
      · obtain ⟨entry', hentry, answer', hdelivered', hid, hmem⟩ := ih (List.cons.inj (List.cons.inj hsplit).2).2
        exact ⟨entry', List.mem_cons_of_mem _ hentry, answer', hdelivered', hid,
          List.mem_cons_of_mem _ (List.mem_cons_of_mem _ hmem)⟩
  | @unmarked entry rest answer failure hdelivered =>
      rcases before with _ | ⟨e, _ | ⟨e', before⟩⟩
      · cases hsplit
      · obtain ⟨rfl, hrest⟩ := List.cons.inj hsplit
        have hid : entry.id = entryId := Ask.markPublished.inj (congrArg Sigma.fst (List.cons.inj hrest).1)
        exact ⟨entry, List.mem_cons_self, answer, hdelivered, hid, List.mem_cons_self⟩
      · cases before <;> cases hsplit
  | refused =>
      rcases before with _ | ⟨e, _ | ⟨e', before⟩⟩
      · cases hsplit
      · cases hsplit
      · cases before <;> cases hsplit
  | stopped =>
      rcases before with _ | ⟨e, before⟩
      · cases hsplit
      · cases before <;> cases hsplit

/-- A sweep reads what is waiting, and goes over it as `Sweeps` says. -/
theorem sweep_sweeps (connection : Connection) (batch : ℤ) :
    (sweep connection batch).Always (Anything Outboxing) fun t x ↦
      (∃ failure, t = [⟨.pending batch, .error failure⟩] ∧ x = .error failure) ∨
        ∃ waiting u, t = ⟨.pending batch, .ok waiting⟩ :: u ∧ Sweeps waiting u x := by
  refine (Program.always_bind _ _).mpr ((Program.always_call _ _).mpr fun read _ ↦ ?_)
  cases read with
  | error failure => exact .inl ⟨failure, rfl, rfl⟩
  | ok waiting =>
      refine (publishAll_course waiting).mono fun t x hcourse ↦ .inr ⟨waiting, t, rfl, ?_⟩
      exact ⟨hcourse.order, fun _ _ _ _ ↦ hcourse.stops, fun _ _ _ _ ↦ hcourse.removes, fun _ ↦ hcourse.counts⟩

end Outbox

end AcemqAmqp
