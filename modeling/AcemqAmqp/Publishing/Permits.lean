import AcemqAmqp.Core.Transport
import AcemqAmqp.Foundations.Tasks

/-!
# Permits

Any number of `publish_raw` calls on one connection.  A call runs from one
`await` to the next: it waits for a permit, and for the transport.  The
semaphore and `wait_for` are as documented: a permit granted to a call that
gives up, or is cancelled, while it waits goes back.
-/

namespace AcemqAmqp

open Interaction Program

namespace Publishing

/-- What came of waiting for a permit. -/
inductive Acquired
  | granted
  | timedOut
  | raised (failure : Failure)

/-- What came of waiting for the transport. -/
inductive Published
  | answered (result : PublishResult)
  | timedOut
  | raised (failure : Failure)

inductive PublishCall
  | blocked
  | blockedReason
  | acquire
  | countUp
  | publish (exchange routingKey : String) (message : Outbound)
  | countDown
  | release

abbrev Calls : Interface where
  Act := PublishCall
  Ans
    | .blocked => Option Bool
    | .blockedReason => Option String
    | .acquire => Acquired
    | .publish _ _ _ => Published
    | .countUp | .countDown | .release => Unit

section program

variable (c : Connection) (exchange routingKey : String) (message : Outbound)

/-- From the permit on: the message goes to the transport, and the permit goes back. -/
def publishHeld : Program Calls Failure PublishResult := do
  let result ← ((perform (I := Calls) (.publish exchange routingKey message)).bind fun
    | .answered result => .ret result
    | .timedOut => ofExcept (c.publishRaw exchange routingKey message .unconfirmed)
    | .raised failure => .raise failure).ensure (do
      perform (I := Calls) .countDown
      perform (I := Calls) .release)
  ofExcept (c.publishRaw exchange routingKey message (.answered result))

/-- Behind the check of the connection. -/
def publishAdmitted : Program Calls Failure PublishResult := do
  match ← perform (I := Calls) .acquire with
  | .timedOut => ofExcept (c.publishRaw exchange routingKey message .noPermit)
  | .raised failure => .raise failure
  | .granted =>
      perform (I := Calls) .countUp
      publishHeld c exchange routingKey message

/-- `publish_raw`. -/
def publishRaw : Program Calls Failure PublishResult := do
  if (← perform (I := Calls) .blocked) = some true then
    let reason ← perform (I := Calls) .blockedReason
    ofExcept (c.publishRaw exchange routingKey message (.blocked reason))
  else publishAdmitted c exchange routingKey message

end program

/-- What the calls on a connection share.  `free` is the semaphore's count, and `inFlight` is
`outstanding_publishes`. -/
structure Shared where
  blocked : Option Bool
  reason : Option String
  free : ℕ
  inFlight : ℤ

/-- What does not wait. -/
def atOnce : AtOnce Shared Calls
  | .blocked => some fun s ↦ (s.blocked, s)
  | .blockedReason => some fun s ↦ (s.reason, s)
  | .countUp => some fun s ↦ ((), { s with inFlight := s.inFlight + 1 })
  | .countDown => some fun s ↦ ((), { s with inFlight := s.inFlight - 1 })
  | .release => some fun s ↦ ((), { s with free := s.free + 1 })
  | .acquire => none
  | .publish _ _ _ => none

/-- One call: whether the semaphore has given it the permit it waits for, what it has asked,
and what is left of it. -/
structure Call where
  exchange : String
  routingKey : String
  message : Outbound
  granted : Bool
  events : List (Event Calls)
  rest : Program Calls Failure PublishResult

/-- It is inside the transport's `publish`. -/
def Call.inside (call : Call) : Bool :=
  match call.rest with
  | .ask (.publish _ _ _) _ => true
  | _ => false

/-- It has a permit. -/
def Call.holds (call : Call) : Bool := call.granted || call.inside

structure Publishes where
  shared : Shared
  calls : List Call

/-- A call gets an answer, and goes on until it waits or is over. -/
def resumed (shared : Shared) (before after : List Call) (call : Call) (event : Event Calls)
    (rest : Program Calls Failure PublishResult) : Publishes :=
  let gone := advance atOnce rest shared
  { shared := gone.state
    calls := before ++
      { call with granted := false, events := call.events ++ event :: gone.events, rest := gone.rest } ::
        after }

/-- What can happen next. -/
inductive Move (c : Connection) : Publishes → Publishes → Prop
  | call {s : Publishes} (exchange routingKey : String) (message : Outbound) :
      Move c s
        { shared := (advance atOnce (publishRaw c exchange routingKey message) s.shared).state
          calls := s.calls ++ [
            { exchange := exchange
              routingKey := routingKey
              message := message
              granted := false
              events := (advance atOnce (publishRaw c exchange routingKey message) s.shared).events
              rest := (advance atOnce (publishRaw c exchange routingKey message) s.shared).rest }] }
  | grant {s : Publishes} {before after : List Call} {call : Call}
      {next : Acquired → Program Calls Failure PublishResult} :
      s.calls = before ++ call :: after → call.rest = .ask .acquire next → call.granted = false →
      0 < s.shared.free →
      Move c s
        { shared := { s.shared with free := s.shared.free - 1 }
          calls := before ++ { call with granted := true } :: after }
  | acquired {s : Publishes} {before after : List Call} {call : Call}
      {next : Acquired → Program Calls Failure PublishResult} :
      s.calls = before ++ call :: after → call.rest = .ask .acquire next → call.granted = true →
      Move c s (resumed s.shared before after call ⟨.acquire, .granted⟩ (next .granted))
  | givenUp {s : Publishes} {before after : List Call} {call : Call}
      {next : Acquired → Program Calls Failure PublishResult} {answer : Acquired} :
      s.calls = before ++ call :: after → call.rest = .ask .acquire next → answer ≠ .granted →
      Move c s (resumed { s.shared with free := s.shared.free + if call.granted then 1 else 0 } before after
        call ⟨.acquire, answer⟩ (next answer))
  | answered {s : Publishes} {before after : List Call} {call : Call} {exchange routingKey : String}
      {message : Outbound} {next : Published → Program Calls Failure PublishResult} (answer : Published) :
      s.calls = before ++ call :: after → call.rest = .ask (.publish exchange routingKey message) next →
      Move c s (resumed s.shared before after call ⟨.publish exchange routingKey message, answer⟩ (next answer))
  | broker {s : Publishes} (blocked : Option Bool) (reason : Option String) :
      Move c s { s with shared := { s.shared with blocked := blocked, reason := reason } }

/-- What a connection comes to, from when it is opened. -/
inductive Reached (c : Connection) : Publishes → Prop
  | opened (blocked : Option Bool) (reason : Option String) : Reached c ⟨⟨blocked, reason, c.maxOutstanding, 0⟩, []⟩
  | move {s s' : Publishes} : Reached c s → Move c s s' → Reached c s'

/-! ## The course of one call -/

/-- What the broker did, as the rest of the library hears of it. -/
def Published.answer : Published → BrokerAnswer
  | answered result => .answered result
  | timedOut => .unconfirmed
  | raised failure => .raised failure

section course

variable {c : Connection} {exchange routingKey : String} {message : Outbound} {s : Shared}

/-- What follows the wait for a permit. -/
def afterAcquire (c : Connection) (exchange routingKey : String) (message : Outbound) :
    Acquired → Program Calls Failure PublishResult
  | .timedOut => ofExcept (c.publishRaw exchange routingKey message .noPermit)
  | .raised failure => .raise failure
  | .granted => .ask .countUp fun _ ↦ publishHeld c exchange routingKey message

theorem publishAdmitted_eq : publishAdmitted c exchange routingKey message =
    .ask (I := Calls) .acquire (afterAcquire c exchange routingKey message) := by
  refine congrArg (Program.ask (I := Calls) .acquire) (funext fun answer ↦ ?_)
  cases answer <;> rfl

/-- What follows the wait for the transport: whatever came of it, the permit goes back. -/
def afterPublish (c : Connection) (exchange routingKey : String) (message : Outbound) (answer : Published) :
    Program Calls Failure PublishResult :=
  .ask (I := Calls) .countDown fun _ ↦ .ask (I := Calls) .release fun _ ↦
    ofExcept (c.publishRaw exchange routingKey message answer.answer)

theorem publishHeld_eq : publishHeld c exchange routingKey message =
    .ask (I := Calls) (.publish exchange routingKey message) (afterPublish c exchange routingKey message) := by
  refine congrArg (Program.ask (I := Calls) (.publish exchange routingKey message)) (funext fun answer ↦ ?_)
  cases answer <;> rfl

theorem advance_publishRaw (s : Shared) : advance atOnce (publishRaw c exchange routingKey message) s =
    if s.blocked = some true then
      ⟨[⟨.blocked, s.blocked⟩, ⟨.blockedReason, s.reason⟩],
        ofExcept (c.publishRaw exchange routingKey message (.blocked s.reason)), s⟩
    else ⟨[⟨.blocked, s.blocked⟩], publishAdmitted c exchange routingKey message, s⟩ := by
  rw [publishRaw, bind_eq, perform, ask_bind, advance_now rfl]
  by_cases hblocked : s.blocked = some true
  · simp only [ret_bind, if_pos hblocked]
    rw [perform, bind_eq, ask_bind, advance_now rfl, ret_bind, advance_ofExcept]
  · simp only [ret_bind, if_neg hblocked]
    rw [publishAdmitted_eq, advance_wait rfl]

theorem advance_granted (s : Shared) : advance atOnce (afterAcquire c exchange routingKey message .granted) s =
    ⟨[⟨.countUp, ()⟩], publishHeld c exchange routingKey message, { s with inFlight := s.inFlight + 1 }⟩ := by
  rw [afterAcquire, advance_now rfl, publishHeld_eq, advance_wait rfl]

theorem advance_published (answer : Published) (s : Shared) :
    advance atOnce (afterPublish c exchange routingKey message answer) s =
      ⟨[⟨.countDown, ()⟩, ⟨.release, ()⟩], ofExcept (c.publishRaw exchange routingKey message answer.answer),
        { s with free := s.free + 1, inFlight := s.inFlight - 1 }⟩ := by
  rw [afterPublish, advance_now rfl, advance_now rfl, advance_ofExcept]

end course

/-- How far a call has got, with all it has asked. -/
inductive Course (c : Connection) (call : Call) : Prop
  | waiting (blocked : Option Bool) : blocked ≠ some true →
      call.rest = publishAdmitted c call.exchange call.routingKey call.message →
      call.events = [⟨.blocked, blocked⟩] → Course c call
  | inside (blocked : Option Bool) : blocked ≠ some true → call.granted = false →
      call.rest = publishHeld c call.exchange call.routingKey call.message →
      call.events = [⟨.blocked, blocked⟩, ⟨.acquire, .granted⟩, ⟨.countUp, ()⟩] → Course c call
  | paused (reason : Option String) : call.granted = false →
      call.rest = ofExcept (c.publishRaw call.exchange call.routingKey call.message (.blocked reason)) →
      call.events = [⟨.blocked, some true⟩, ⟨.blockedReason, reason⟩] → Course c call
  | gaveUp (blocked : Option Bool) (answer : Acquired) : answer ≠ .granted → call.granted = false →
      call.rest = afterAcquire c call.exchange call.routingKey call.message answer →
      call.events = [⟨.blocked, blocked⟩, ⟨.acquire, answer⟩] → Course c call
  | published (blocked : Option Bool) (answer : Published) : blocked ≠ some true → call.granted = false →
      call.rest = ofExcept (c.publishRaw call.exchange call.routingKey call.message answer.answer) →
      call.events = [⟨.blocked, blocked⟩, ⟨.acquire, .granted⟩, ⟨.countUp, ()⟩,
        ⟨.publish call.exchange call.routingKey call.message, answer⟩, ⟨.countDown, ()⟩, ⟨.release, ()⟩] →
      Course c call

/-- The books balance: the count is of the calls inside the transport, and each permit is free
or held. -/
structure Conserved (c : Connection) (s : Publishes) : Prop where
  courses : ∀ call ∈ s.calls, Course c call
  inFlight : s.shared.inFlight = s.calls.countP Call.inside
  permits : s.shared.free + s.calls.countP Call.holds = c.maxOutstanding

section conserved

variable {c : Connection} {s s' : Publishes} {before after : List Call} {call : Call}

theorem inside_of_rest {exchange routingKey : String} {message : Outbound}
    (h : call.rest = publishHeld c exchange routingKey message) : call.inside = true := by
  rw [Call.inside, h, publishHeld_eq]

theorem not_inside_of_waiting {next : Acquired → Program Calls Failure PublishResult}
    (h : call.rest = .ask (I := Calls) .acquire next) : call.inside = false := by
  rw [Call.inside, h]

theorem not_inside_of_over {x : Except Failure PublishResult} (h : call.rest = ofExcept x) :
    call.inside = false := by
  rw [Call.inside, h]
  cases x <;> rfl

theorem holds_of_over {x : Except Failure PublishResult} (h : call.rest = ofExcept x)
    (hgranted : call.granted = false) : call.holds = false := by
  rw [Call.holds, hgranted, not_inside_of_over h]
  rfl

theorem holds_of_waiting {next : Acquired → Program Calls Failure PublishResult}
    (h : call.rest = .ask (I := Calls) .acquire next) : call.holds = call.granted := by
  rw [Call.holds, not_inside_of_waiting h, Bool.or_false]

theorem holds_of_rest {exchange routingKey : String} {message : Outbound}
    (h : call.rest = publishHeld c exchange routingKey message) : call.holds = true := by
  rw [Call.holds, inside_of_rest h, Bool.or_true]

theorem afterAcquire_over {exchange routingKey : String} {message : Outbound} {answer : Acquired}
    (h : answer ≠ .granted) :
    ∃ failure, afterAcquire c exchange routingKey message answer = ofExcept (.error failure) := by
  cases answer with
  | granted => exact absurd rfl h
  | timedOut => exact ⟨_, rfl⟩
  | raised failure => exact ⟨failure, rfl⟩

/-- A call that waits for a permit has only asked whether the connection is blocked. -/
theorem Course.of_waiting (h : Course c call) {next : Acquired → Program Calls Failure PublishResult}
    (hrest : call.rest = .ask (I := Calls) .acquire next) :
    next = afterAcquire c call.exchange call.routingKey call.message ∧
      ∃ blocked, blocked ≠ some true ∧ call.events = [⟨.blocked, blocked⟩] := by
  cases h with
  | waiting blocked hblocked hstage hevents =>
      rw [hrest, publishAdmitted_eq] at hstage
      injection hstage with _ hnext
      exact ⟨hnext, blocked, hblocked, hevents⟩
  | inside blocked _ _ hstage =>
      have hinside := inside_of_rest hstage
      rw [not_inside_of_waiting hrest] at hinside
      cases hinside
  | paused reason _ hstage => exact absurd (hstage.symm.trans hrest) ofExcept_ne_ask
  | gaveUp blocked answer hanswer _ hstage =>
      obtain ⟨failure, hover⟩ := afterAcquire_over (c := c) hanswer
      exact absurd ((hstage.trans hover).symm.trans hrest) ofExcept_ne_ask
  | published blocked answer _ _ hstage => exact absurd (hstage.symm.trans hrest) ofExcept_ne_ask

/-- A call that waits for the transport has a permit and is counted. -/
theorem Course.of_inside (h : Course c call) {exchange routingKey : String} {message : Outbound}
    {next : Published → Program Calls Failure PublishResult}
    (hrest : call.rest = .ask (I := Calls) (.publish exchange routingKey message) next) :
    exchange = call.exchange ∧ routingKey = call.routingKey ∧ message = call.message ∧
      next = afterPublish c call.exchange call.routingKey call.message ∧ call.granted = false ∧
      ∃ blocked, blocked ≠ some true ∧
        call.events = [⟨.blocked, blocked⟩, ⟨.acquire, .granted⟩, ⟨.countUp, ()⟩] := by
  cases h with
  | waiting blocked _ hstage =>
      rw [hrest, publishAdmitted_eq] at hstage
      injection hstage with hact
      cases hact
  | inside blocked hblocked hgranted hstage hevents =>
      rw [hrest, publishHeld_eq] at hstage
      injection hstage with hact hnext
      injection hact with hexchange hkey hmessage
      exact ⟨hexchange, hkey, hmessage, hnext, hgranted, blocked, hblocked, hevents⟩
  | paused reason _ hstage => exact absurd (hstage.symm.trans hrest) ofExcept_ne_ask
  | gaveUp blocked answer hanswer _ hstage =>
      obtain ⟨failure, hover⟩ := afterAcquire_over (c := c) hanswer
      exact absurd ((hstage.trans hover).symm.trans hrest) ofExcept_ne_ask
  | published blocked answer _ _ hstage => exact absurd (hstage.symm.trans hrest) ofExcept_ne_ask

theorem countP_around (p : Call → Bool) (before after : List Call) (call : Call) :
    (before ++ call :: after).countP p = before.countP p + after.countP p + (p call).toNat := by
  rw [List.countP_append, List.countP_cons]
  cases p call with
  | false => simp
  | true =>
      simp only [if_true, Bool.toNat_true]
      omega

/-- A call that starts with no permit disturbs nothing. -/
theorem Conserved.append (h : Conserved c s) {new : Call} (hnew : Course c new) (hholds : new.holds = false) :
    Conserved c ⟨s.shared, s.calls ++ [new]⟩ := by
  have hinside : new.inside = false := (Bool.or_eq_false_iff.mp hholds).2
  refine ⟨List.forall_mem_append.mpr ⟨h.courses, List.forall_mem_singleton.mpr hnew⟩, ?_, ?_⟩
  · rw [countP_around, hinside, h.inFlight]
    simp
  · rw [countP_around, hholds, ← h.permits]
    simp

/-- A call goes on: what it gains or gives up is taken from the count and the semaphore. -/
theorem Conserved.replace (h : Conserved c s) (hcalls : s.calls = before ++ call :: after) {new : Call}
    {shared : Shared} {was holding is holds : Bool} (hnew : Course c new)
    (hwas : call.inside = was) (hholding : call.holds = holding) (his : new.inside = is)
    (hholds : new.holds = holds) (hinFlight : shared.inFlight + was.toNat = s.shared.inFlight + is.toNat)
    (hpermits : shared.free + holds.toNat = s.shared.free + holding.toNat) :
    Conserved c ⟨shared, before ++ new :: after⟩ := by
  obtain ⟨hcourses, hcount, hfree⟩ := h
  rw [hcalls, countP_around, hwas] at hcount
  rw [hcalls, countP_around, hholding] at hfree
  refine ⟨fun other hmem ↦ ?_, ?_, ?_⟩
  · obtain hmem | hmem := List.mem_append.mp hmem
    · exact hcourses other (hcalls ▸ List.mem_append_left _ hmem)
    obtain rfl | hmem := List.mem_cons.mp hmem
    · exact hnew
    · exact hcourses other (hcalls ▸ List.mem_append_right _ (List.mem_cons_of_mem _ hmem))
  · rw [countP_around, his]
    push_cast at hcount ⊢
    omega
  · rw [countP_around, hholds]
    change shared.free + _ = _
    omega

theorem Move.conserved (h : Conserved c s) (hmove : Move c s s') : Conserved c s' := by
  cases hmove with
  | call exchange routingKey message =>
      simp only [advance_publishRaw]
      by_cases hblocked : s.shared.blocked = some true
      · simp only [if_pos hblocked]
        refine h.append (.paused s.shared.reason rfl rfl ?_) ?_
        · rw [hblocked]
        · exact holds_of_over (x := c.publishRaw exchange routingKey message (.blocked s.shared.reason)) rfl rfl
      · simp only [if_neg hblocked]
        exact h.append (.waiting s.shared.blocked hblocked rfl rfl) (holds_of_waiting publishAdmitted_eq)
  | @grant before after call next hcalls hrest hgranted hfree =>
      obtain ⟨hnext, blocked, hblocked, hevents⟩ := (h.courses call (by simp [hcalls])).of_waiting hrest
      have hstage : call.rest = publishAdmitted c call.exchange call.routingKey call.message := by
        rw [hrest, hnext, publishAdmitted_eq]
      refine h.replace hcalls (.waiting blocked hblocked hstage hevents) (not_inside_of_waiting hrest)
        ((holds_of_waiting hrest).trans hgranted) (not_inside_of_waiting hrest) (holds_of_waiting hrest) rfl ?_
      change s.shared.free - 1 + 1 = s.shared.free + 0
      omega
  | @acquired before after call next hcalls hrest hgranted =>
      obtain ⟨rfl, blocked, hblocked, hevents⟩ := (h.courses call (by simp [hcalls])).of_waiting hrest
      simp only [resumed, advance_granted]
      refine h.replace hcalls (.inside blocked hblocked rfl rfl ?_) (not_inside_of_waiting hrest)
        ((holds_of_waiting hrest).trans hgranted) (inside_of_rest rfl) (holds_of_rest rfl) ?_ rfl
      · rw [hevents]
        rfl
      · exact add_zero _
  | @givenUp before after call next answer hcalls hrest hanswer =>
      obtain ⟨rfl, blocked, hblocked, hevents⟩ := (h.courses call (by simp [hcalls])).of_waiting hrest
      obtain ⟨failure, hover⟩ : ∃ failure,
          afterAcquire c call.exchange call.routingKey call.message answer = ofExcept (.error failure) :=
        afterAcquire_over hanswer
      simp only [resumed, hover, advance_ofExcept]
      refine h.replace hcalls (.gaveUp blocked answer hanswer rfl hover.symm ?_) (not_inside_of_waiting hrest)
        (holds_of_waiting hrest) (not_inside_of_over (x := .error failure) rfl)
        (holds_of_over (x := .error failure) rfl rfl) rfl ?_
      · rw [hevents]
        rfl
      · cases call.granted <;> rfl
  | @answered before after call exchange routingKey message next answer hcalls hrest =>
      obtain ⟨rfl, rfl, rfl, rfl, hgranted, blocked, hblocked, hevents⟩ :=
        (h.courses call (by simp [hcalls])).of_inside hrest
      have hstage : call.rest = publishHeld c call.exchange call.routingKey call.message := by
        rw [hrest, publishHeld_eq]
      simp only [resumed, advance_published]
      refine h.replace hcalls (.published blocked answer hblocked rfl rfl ?_) (inside_of_rest hstage)
        (holds_of_rest hstage) (not_inside_of_over rfl) (holds_of_over rfl rfl) ?_ rfl
      · rw [hevents]
        rfl
      · change s.shared.inFlight - 1 + 1 = s.shared.inFlight + 0
        omega
  | broker blocked reason => exact ⟨h.courses, h.inFlight, h.permits⟩

theorem Reached.conserved (h : Reached c s) : Conserved c s := by
  induction h with
  | opened blocked reason => exact ⟨List.forall_mem_nil _, rfl, rfl⟩
  | move _ hmove ih => exact hmove.conserved ih

/-- Who is refused for the block, or for want of a permit, is not at the transport and has
not been there. -/
theorem Course.of_refused (h : Course c call)
    (hrefused : (⟨.blocked, some true⟩ : Event Calls) ∈ call.events ∨
      (⟨.acquire, .timedOut⟩ : Event Calls) ∈ call.events) :
    call.inside = false ∧ ∀ exchange routingKey message answer,
      (⟨.publish exchange routingKey message, answer⟩ : Event Calls) ∉ call.events := by
  cases h with
  | waiting blocked hblocked hstage hevents =>
      rw [hevents] at hrefused
      simp [hblocked.symm] at hrefused
  | inside blocked hblocked _ hstage hevents =>
      rw [hevents] at hrefused
      simp [hblocked.symm] at hrefused
  | paused reason _ hstage hevents =>
      refine ⟨not_inside_of_over hstage, ?_⟩
      simp [hevents]
  | gaveUp blocked answer hanswer _ hstage hevents =>
      obtain ⟨failure, hover⟩ : ∃ failure,
          afterAcquire c call.exchange call.routingKey call.message answer = ofExcept (.error failure) :=
        afterAcquire_over hanswer
      refine ⟨not_inside_of_over (hstage.trans hover), ?_⟩
      simp [hevents]
  | published blocked answer hblocked _ hstage hevents =>
      rw [hevents] at hrefused
      simp [hblocked.symm] at hrefused

/-- A call that returns was confirmed, or its message came back. -/
theorem Course.of_returned (h : Course c call) {result : PublishResult} (hreturned : call.rest = .ret result) :
    (⟨.publish call.exchange call.routingKey call.message, .answered result⟩ : Event Calls) ∈ call.events ∧
      (result.confirmed = true ∨ result.routed = false) := by
  have hok : ∀ {x : Except Failure PublishResult}, call.rest = ofExcept x → x = .ok result :=
    fun hrest ↦ ofExcept_injective (hrest.symm.trans hreturned)
  cases h with
  | waiting blocked _ hstage =>
      rw [publishAdmitted_eq, hreturned] at hstage
      cases hstage
  | inside blocked _ _ hstage =>
      rw [publishHeld_eq, hreturned] at hstage
      cases hstage
  | paused reason _ hstage => cases hok hstage
  | gaveUp blocked answer hanswer _ hstage =>
      obtain ⟨failure, hover⟩ : ∃ failure,
          afterAcquire c call.exchange call.routingKey call.message answer = ofExcept (.error failure) :=
        afterAcquire_over hanswer
      cases hok (hstage.trans hover)
  | published blocked answer _ _ hstage hevents =>
      have hpublished := hok hstage
      cases answer with
      | answered told =>
          simp only [Published.answer, Connection.publishRaw] at hpublished
          split at hpublished
          · cases hpublished
          · rename_i htold
            obtain rfl := Except.ok.inj hpublished
            refine ⟨by simp [hevents], ?_⟩
            cases hconfirmed : told.confirmed with
            | true => exact .inl rfl
            | false =>
                rw [hconfirmed] at htold
                exact .inr (by simpa using htold)
      | timedOut => cases hpublished
      | raised failure => cases hpublished

end conserved

/-- Permits are conserved, and nobody reaches the transport, or returns, without what it takes. -/
theorem permits_conserved (c : Connection) (s : Publishes) (h : Reached c s) :
    s.calls.countP Call.inside ≤ c.maxOutstanding ∧
    s.shared.inFlight = s.calls.countP Call.inside ∧
    s.shared.free + s.calls.countP Call.holds = c.maxOutstanding ∧
    (∀ call ∈ s.calls, ((⟨.blocked, some true⟩ : Event Calls) ∈ call.events ∨
        (⟨.acquire, .timedOut⟩ : Event Calls) ∈ call.events) →
      call.inside = false ∧ ∀ exchange routingKey message answer,
        (⟨.publish exchange routingKey message, answer⟩ : Event Calls) ∉ call.events) ∧
    ∀ call ∈ s.calls, ∀ result, call.rest = .ret result →
      (⟨.publish call.exchange call.routingKey call.message, .answered result⟩ : Event Calls) ∈ call.events ∧
        (result.confirmed = true ∨ result.routed = false) := by
  obtain ⟨hcourses, hinFlight, hpermits⟩ := h.conserved
  refine ⟨?_, hinFlight, hpermits, fun call hmem ↦ (hcourses call hmem).of_refused,
    fun call hmem result ↦ (hcourses call hmem).of_returned⟩
  have hholds : s.calls.countP Call.inside ≤ s.calls.countP Call.holds :=
    List.countP_mono_left fun call _ hinside ↦ by rw [Call.holds, hinside, Bool.or_true]
  omega

/-- A connection with one permit, and a call that has it and is inside the transport. -/
def oneConnection : Connection := ⟨30000000, 1⟩

def oneMessage : Outbound := ⟨[], "application/json", "m1", "", ∅, true, false⟩

def oneCall : Call where
  exchange := ""
  routingKey := "orders"
  message := oneMessage
  granted := false
  events := [⟨.blocked, none⟩]
  rest := publishAdmitted oneConnection "" "orders" oneMessage

def oneInside : Publishes :=
  resumed ⟨none, none, 0, 0⟩ [] [] { oneCall with granted := true } ⟨.acquire, .granted⟩
    (afterAcquire oneConnection "" "orders" oneMessage .granted)

theorem reached_oneInside : Reached oneConnection oneInside := by
  have hcall : Move oneConnection ⟨⟨none, none, 1, 0⟩, []⟩ ⟨⟨none, none, 1, 0⟩, [oneCall]⟩ := by
    have hmove := Move.call (c := oneConnection) (s := ⟨⟨none, none, 1, 0⟩, []⟩) "" "orders" oneMessage
    rwa [advance_publishRaw] at hmove
  have hgrant : Move oneConnection ⟨⟨none, none, 1, 0⟩, [] ++ oneCall :: []⟩
      ⟨⟨none, none, 0, 0⟩, [] ++ { oneCall with granted := true } :: []⟩ :=
    .grant rfl publishAdmitted_eq rfl (by decide)
  have hacquired : Move oneConnection ⟨⟨none, none, 0, 0⟩, [] ++ { oneCall with granted := true } :: []⟩
      oneInside := .acquired rfl publishAdmitted_eq rfl
  exact (((Reached.opened none none).move hcall).move hgrant).move hacquired

/-- A second call waits in vain for the permit. -/
def oneTimedOut : Publishes :=
  resumed ⟨none, none, 0, 1⟩ oneInside.calls [] oneCall ⟨.acquire, .timedOut⟩
    (afterAcquire oneConnection "" "orders" oneMessage .timedOut)

theorem oneInside_shared : oneInside.shared = ⟨none, none, 0, 1⟩ := by
  rw [oneInside, resumed, advance_granted]
  rfl

theorem reached_oneTimedOut : Reached oneConnection oneTimedOut := by
  have hcall : Move oneConnection oneInside ⟨⟨none, none, 0, 1⟩, oneInside.calls ++ [oneCall]⟩ := by
    have hmove := Move.call (c := oneConnection) (s := oneInside) "" "orders" oneMessage
    rwa [advance_publishRaw, oneInside_shared] at hmove
  have hgivenUp := Move.givenUp (c := oneConnection) (s := ⟨⟨none, none, 0, 1⟩, oneInside.calls ++ oneCall :: []⟩) rfl
    publishAdmitted_eq (show Acquired.timedOut ≠ .granted from nofun)
  exact (reached_oneInside.move hcall).move hgivenUp

theorem calls_oneTimedOut : ∃ gaveUp, oneTimedOut.calls = oneInside.calls ++ [gaveUp] ∧
    ⟨.acquire, .timedOut⟩ ∈ gaveUp.events :=
  ⟨_, rfl, List.mem_append_right _ List.mem_cons_self⟩

/-- The first call has the permit, and the second never reaches the transport. -/
theorem permits_conserved_two : oneTimedOut.shared.inFlight = oneTimedOut.calls.countP Call.inside ∧
    oneTimedOut.shared.free + oneTimedOut.calls.countP Call.holds = 1 ∧
    ∃ gaveUp ∈ oneTimedOut.calls, gaveUp.inside = false ∧ ∀ exchange routingKey message answer,
      (⟨.publish exchange routingKey message, answer⟩ : Event Calls) ∉ gaveUp.events := by
  obtain ⟨-, hinFlight, hpermits, hrefused, -⟩ := permits_conserved oneConnection oneTimedOut reached_oneTimedOut
  obtain ⟨gaveUp, hcalls, htimedOut⟩ := calls_oneTimedOut
  have hmem : gaveUp ∈ oneTimedOut.calls := hcalls ▸ List.mem_append_right _ List.mem_cons_self
  exact ⟨hinFlight, hpermits, gaveUp, hmem, hrefused gaveUp hmem (.inr htimedOut)⟩

end Publishing

end AcemqAmqp
