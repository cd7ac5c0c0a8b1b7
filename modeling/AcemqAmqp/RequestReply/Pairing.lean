import AcemqAmqp.RequestReply.Requester
import Mathlib.Logic.Relation

/-!
# Replies and the questions they answer

What one call goes through, and what holds between the calls, the table of
waiters and the replies received, whatever happens in whatever order.
-/

namespace AcemqAmqp

open Interaction Program

namespace RequestReply

variable {Payload : Type}

/-! ## The course of one call -/

section course

variable (r : Requester Payload) (q : Question Payload)

/-- What `ask` raises when this is raised inside it. -/
def Question.surfaced : AskFailure → AskFailure
  | .timeout => .requestTimeout (lateText q.correlation (q.deadline r))
  | failure => failure

/-- The handlers and the `finally`. -/
def Question.failing (failure : AskFailure) : Program (Round Payload) AskFailure Payload :=
  ((q.handle r failure).ensure (perform (I := Round Payload) (.pop q.correlation))).bind fun answer ↦
    ofExcept (q.read r answer)

/-- What a wait for the waiter comes to. -/
def Question.conclusion (woken : Woken) : Except AskFailure Payload :=
  match woken.outcome with
  | .ok reply => q.read r reply
  | .error failure => .error (q.surfaced r failure)

def Question.afterWait (woken : Woken) : Program (Round Payload) AskFailure Payload :=
  match woken.outcome with
  | .ok reply => .ask (I := Round Payload) (.pop q.correlation) fun _ ↦ ofExcept (q.read r reply)
  | .error failure => q.failing r failure

def Question.waiting : Program (Round Payload) AskFailure Payload :=
  .ask (I := Round Payload) (.wait (q.deadline r)) (q.afterWait r)

def Question.afterSend : Except Unsent Unit → Program (Round Payload) AskFailure Payload
  | .ok () => q.waiting r
  | .error raised => q.failing r raised.raised

def Question.sending : Program (Round Payload) AskFailure Payload :=
  .ask (I := Round Payload) (.send q.request (q.outgoing r) r.replyQueue) (q.afterSend r)

variable {r q}

theorem Question.program_eq :
    q.program r = .ask (I := Round Payload) (.register q.correlation) fun _ ↦ q.sending r := by
  refine congrArg (Program.ask (I := Round Payload) (.register q.correlation)) (funext fun _ ↦ ?_)
  refine congrArg (Program.ask (I := Round Payload) (.send q.request (q.outgoing r) r.replyQueue))
    (funext fun answer ↦ ?_)
  cases answer with
  | error raised => rfl
  | ok done =>
      refine congrArg (Program.ask (I := Round Payload) (.wait (q.deadline r))) (funext fun woken ↦ ?_)
      cases woken <;> rfl

variable {s : Requests Payload}

theorem advance_program : advance atOnce (q.program r) s =
    ⟨[⟨.register q.correlation, ()⟩], q.sending r, { s with waiting := insert q.correlation s.waiting }⟩ := by
  rw [Question.program_eq, advance_now rfl, Question.sending, advance_wait rfl]

/-- A failing call leaves the table, and no waiter or reply is touched. -/
theorem advance_failing (failure : AskFailure) : ∃ events timedOut, advance atOnce (q.failing r failure) s =
    ⟨events, .raise (q.surfaced r failure),
      { s with waiting := s.waiting.erase q.correlation, timedOut := timedOut }⟩ := by
  cases failure <;> exact ⟨_, _, rfl⟩

/-- So does a call whose wait is over. -/
theorem advance_afterWait (woken : Woken) : ∃ events timedOut, advance atOnce (q.afterWait r woken) s =
    ⟨events, ofExcept (q.conclusion r woken),
      { s with waiting := s.waiting.erase q.correlation, timedOut := timedOut }⟩ := by
  cases woken with
  | reply reply =>
      refine ⟨[⟨.pop q.correlation, ()⟩], s.timedOut, ?_⟩
      rw [Question.afterWait, Question.conclusion]
      simp only [Woken.outcome]
      rw [advance_now rfl, advance_ofExcept]
  | closed text => exact advance_failing (.requestTimeout text)
  | expired => exact advance_failing .timeout
  | cancelled failure => exact advance_failing (.other failure)

theorem asks_asked (r : Requester Payload) (s : Requests Payload) (q : Question Payload) :
    (s.asked r q).asks q.correlation = some ⟨q, .pending, [⟨.register q.correlation, ()⟩], q.sending r⟩ := by
  rw [Requests.asked, advance_program]
  simp only [Function.update_self]

/-- How far a call has got. -/
inductive Course (r : Requester Payload) (ask : Ask Payload) : Prop
  | sending : ask.rest = ask.sending r → Course r ask
  | waiting : ask.rest = ask.waiting r → Course r ask
  | unsent (raised : Unsent) :
      (⟨.send ask.request (ask.outgoing r) r.replyQueue, .error raised⟩ : Event (Round Payload)) ∈ ask.events →
      ask.rest = .raise (ask.surfaced r raised.raised) → Course r ask
  | woken (answer : Woken) : ask.waiter.Gives answer →
      (⟨.wait (ask.deadline r), answer⟩ : Event (Round Payload)) ∈ ask.events →
      ask.rest = ofExcept (ask.conclusion r answer) → Course r ask

end course
/-! ## The course of a close -/

/-- What follows the closing of the consumer. -/
def afterConsumer : Except Failure Unit → Program Closing Failure Unit
  | .ok () => .ask (I := Closing) .dropConsumer fun _ ↦ .ask (I := Closing) .failWaiting .ret
  | .error failure => .raise failure

/-- A call of `close` that waits for the consumer. -/
def closing : Program Closing Failure Unit := .ask (I := Closing) .closeConsumer afterConsumer

theorem close_eq : close = .ask (I := Closing) .hasConsumer fun consuming ↦
    if consuming then closing else .ask (I := Closing) .failWaiting .ret := by
  refine congrArg (Program.ask (I := Closing) .hasConsumer) (funext fun consuming ↦ ?_)
  cases consuming with
  | false => rfl
  | true =>
      refine congrArg (Program.ask (I := Closing) .closeConsumer) (funext fun answer ↦ ?_)
      cases answer <;> rfl

/-- `close` has come to its end. -/
def returned : Program Closing Failure Unit → Bool
  | .ret _ => true
  | _ => false

/-- A step of `close`: it waits or fails, and changes nothing, or it fails what waits and is done. -/
inductive CloseStep (s : Requests Payload) (rest : Program Closing Failure Unit) (t : Requests Payload) : Prop
  | waits : t = s → rest = closing → CloseStep s rest t
  | raises (failure : Failure) : t = s → rest = .raise failure → CloseStep s rest t
  | returns (consuming : Bool) : t = { s.failWaiting with consuming := consuming } → rest = .ret () →
      CloseStep s rest t

theorem advance_close (s : Requests Payload) :
    CloseStep s (advance closeAtOnce close s).rest (advance closeAtOnce close s).state := by
  rw [close_eq, advance_now rfl]
  cases hconsuming : s.consuming with
  | true => exact .waits rfl rfl
  | false => exact .returns s.consuming rfl rfl

theorem advance_afterConsumer (answer : Except Failure Unit) (s : Requests Payload) :
    CloseStep s (advance closeAtOnce (afterConsumer answer) s).rest
      (advance closeAtOnce (afterConsumer answer) s).state := by
  cases answer with
  | ok done => exact .returns false rfl rfl
  | error failure => exact .raises failure rfl rfl

/-! ## What holds between them -/

/-- A call that exists is in progress while its identifier is in the table, and until it is answered
its identifier is.  Every reply is in the books once. -/
structure Paired (r : Requester Payload) (s : Requests Payload) : Prop where
  correlated : ∀ id ask, s.asks id = some ask → ask.correlation = id
  courses : ∀ id ask, s.asks id = some ask → Course r ask
  inProgress : ∀ id ∈ s.waiting, ∃ ask, s.asks id = some ask ∧ ask.inProgress = true
  registered : ∀ id ask, s.asks id = some ask → ask.inProgress = true → ask.waiter.done = false → id ∈ s.waiting
  carries : ∀ reply id, (reply, some id) ∈ s.received → reply.envelope.correlationId = id
  answered : ∀ reply id, (reply, some id) ∈ s.received ↔ ∃ ask, s.asks id = some ask ∧ ask.waiter = .answered reply
  once : (s.received.filterMap Prod.snd).Nodup
  unmatched : s.unmatched = s.received.countP fun entry ↦ entry.2.isNone
  closes : ∀ p ∈ s.closes, p = closing ∨ ∃ x, p = ofExcept x

section paired

variable {r : Requester Payload} {s s' : Requests Payload} {id : String} {ask : Ask Payload}

theorem inProgress_of_sending (h : ask.rest = ask.sending r) : ask.inProgress = true := by
  rw [Ask.inProgress, h]
  rfl

theorem not_inProgress_of_over {x : Except AskFailure Payload} (h : ask.rest = ofExcept x) :
    ask.inProgress = false := by
  rw [Ask.inProgress, h]
  cases x <;> rfl

theorem not_gives_of_not_done {waiter : Waiter} (h : waiter.done = false) (woken : Woken) :
    ¬waiter.Gives woken := by
  cases waiter <;> cases woken <;> simp_all [Waiter.done, Waiter.Gives]

/-- Whether an answer is there yet is no matter of how far the call has got. -/
theorem Course.settle (h : Course r ask) (hpending : ask.waiter.done = false) (waiter : Waiter) :
    Course r { ask with waiter := waiter } := by
  cases h with
  | sending hrest => exact .sending hrest
  | waiting hrest => exact .waiting hrest
  | unsent raised hevent hrest => exact .unsent raised hevent hrest
  | woken answer hgives _ _ => exact absurd hgives (not_gives_of_not_done hpending answer)

/-- A call that waits for the publisher. -/
theorem Course.of_sending (h : Course r ask) {request : Payload} {envelope : Envelope} {replyTo : String}
    {next : Except Unsent Unit → Program (Round Payload) AskFailure Payload}
    (hrest : ask.rest = .ask (I := Round Payload) (.send request envelope replyTo) next) :
    request = ask.request ∧ envelope = ask.outgoing r ∧ replyTo = r.replyQueue ∧ next = ask.afterSend r := by
  cases h with
  | sending hstage =>
      rw [hrest, Question.sending] at hstage
      injection hstage with hact hnext
      injection hact with hrequest henvelope hreplyTo
      exact ⟨hrequest, henvelope, hreplyTo, hnext⟩
  | waiting hstage =>
      rw [hrest, Question.waiting] at hstage
      injection hstage with hact
      cases hact
  | unsent raised _ hstage => cases hstage.symm.trans hrest
  | woken answer _ _ hstage => exact absurd (hstage.symm.trans hrest) ofExcept_ne_ask

/-- A call that waits for its waiter. -/
theorem Course.of_waiting (h : Course r ask) {deadline : Duration}
    {next : Woken → Program (Round Payload) AskFailure Payload}
    (hrest : ask.rest = .ask (I := Round Payload) (.wait deadline) next) :
    deadline = ask.deadline r ∧ next = ask.afterWait r := by
  cases h with
  | sending hstage =>
      rw [hrest, Question.sending] at hstage
      injection hstage with hact
      cases hact
  | waiting hstage =>
      rw [hrest, Question.waiting] at hstage
      injection hstage with hact hnext
      injection hact with hdeadline
      exact ⟨hdeadline, hnext⟩
  | unsent raised _ hstage => cases hstage.symm.trans hrest
  | woken answer _ _ hstage => exact absurd (hstage.symm.trans hrest) ofExcept_ne_ask

theorem awaits_iff : s.awaits id = true ↔ id ∈ s.waiting ∧ ∃ ask, s.asks id = some ask ∧ ask.waiter.done = false := by
  rw [Requests.awaits, Bool.and_eq_true, decide_eq_true_iff, Option.any_eq_true]
  simp only [Bool.not_eq_true']

theorem settle_of_some (hask : s.asks id = some ask) (waiter : Waiter) :
    s.settle id waiter = Function.update s.asks id (some { ask with waiter := waiter }) := by
  rw [Requests.settle, hask]
  rfl

/-- One call goes on: the table loses at most its identifier, and it is handed nothing. -/
theorem Paired.replace (h : Paired r s) (hask : s.asks id = some ask) {ask' : Ask Payload}
    (hcourse : Course r ask') (hid : ask'.correlation = id)
    (hanswer : ∀ reply, ask'.waiter = .answered reply ↔ ask.waiter = .answered reply)
    {waiting : Finset String} (hsub : waiting ⊆ s.waiting)
    (hkept : ∀ other ∈ s.waiting, other ≠ id → other ∈ waiting)
    (hnow : id ∈ waiting → ask'.inProgress = true)
    (hregistered : ask'.inProgress = true → ask'.waiter.done = false → id ∈ waiting) (timedOut : ℕ) :
    Paired r { s with
      waiting := waiting
      timedOut := timedOut
      asks := Function.update s.asks id (some ask') } where
  correlated other found hfound := by
    by_cases hother : other = id
    · obtain rfl : ask' = found := by simpa [hother] using hfound
      exact hid.trans hother.symm
    · exact h.correlated other found (by simpa [hother] using hfound)
  courses other found hfound := by
    by_cases hother : other = id
    · obtain rfl : ask' = found := by simpa [hother] using hfound
      exact hcourse
    · exact h.courses other found (by simpa [hother] using hfound)
  inProgress other hmem := by
    by_cases hother : other = id
    · exact ⟨ask', by simp [hother], hnow (hother ▸ hmem)⟩
    · obtain ⟨found, hfound, hprogress⟩ := h.inProgress other (hsub hmem)
      exact ⟨found, by simpa [hother] using hfound, hprogress⟩
  registered other found hfound hprogress hpending := by
    by_cases hother : other = id
    · obtain rfl : ask' = found := by simpa [hother] using hfound
      exact hother ▸ hregistered hprogress hpending
    · have hold := h.registered other found (by simpa [hother] using hfound) hprogress hpending
      exact hkept other hold hother
  carries := h.carries
  answered reply other := by
    rw [h.answered reply other]
    by_cases hother : other = id
    · subst hother
      simp [hask, hanswer]
    · simp [hother]
  once := h.once
  unmatched := h.unmatched
  closes := h.closes

/-- One call is over, and takes itself out of the table. -/
theorem Paired.leave (h : Paired r s) (hask : s.asks id = some ask) {events : List (Event (Round Payload))}
    {x : Except AskFailure Payload} (hcourse : Course r { ask with events := events, rest := ofExcept x })
    (timedOut : ℕ) :
    Paired r { s with
      waiting := s.waiting.erase ask.correlation
      timedOut := timedOut
      asks := Function.update s.asks id (some { ask with events := events, rest := ofExcept x }) } := by
  have hover : ({ ask with events := events, rest := ofExcept x } : Ask Payload).inProgress = false :=
    not_inProgress_of_over rfl
  have hid : ask.correlation = id := h.correlated id ask hask
  refine h.replace hask hcourse hid (fun reply ↦ Iff.rfl) (Finset.erase_subset _ _)
    (fun other hmem hother ↦ ?_) (fun hmem ↦ ?_) (fun hprogress ↦ ?_) timedOut
  · exact Finset.mem_erase.mpr ⟨hid ▸ hother, hmem⟩
  · exact absurd hid.symm (Finset.ne_of_mem_erase hmem)
  · rw [hover] at hprogress
    cases hprogress

theorem Paired.asked (h : Paired r s) {question : Question Payload} (hfresh : s.asks question.correlation = none) :
    Paired r (s.asked r question) := by
  have hprogress : (⟨question, .pending, [⟨.register question.correlation, ()⟩], question.sending r⟩ :
      Ask Payload).inProgress = true := inProgress_of_sending (r := r) rfl
  rw [Requests.asked, advance_program]
  constructor
  case correlated =>
    intro other found hfound
    by_cases hother : other = question.correlation
    · obtain rfl := by simpa [hother] using hfound
      exact hother.symm
    · exact h.correlated other found (by simpa [hother] using hfound)
  case courses =>
    intro other found hfound
    by_cases hother : other = question.correlation
    · obtain rfl := by simpa [hother] using hfound
      exact .sending rfl
    · exact h.courses other found (by simpa [hother] using hfound)
  case inProgress =>
    intro other hmem
    by_cases hother : other = question.correlation
    · exact ⟨_, by simp [hother], hprogress⟩
    · obtain ⟨found, hfound, hfoundProgress⟩ := h.inProgress other (Finset.mem_of_mem_insert_of_ne hmem hother)
      exact ⟨found, by simpa [hother] using hfound, hfoundProgress⟩
  case registered =>
    intro other found hfound hfoundProgress hpending
    by_cases hother : other = question.correlation
    · exact hother ▸ Finset.mem_insert_self _ _
    · have hold := h.registered other found (by simpa [hother] using hfound) hfoundProgress hpending
      exact Finset.mem_insert_of_mem hold
  case carries => exact h.carries
  case answered =>
    intro reply other
    refine (h.answered reply other).trans ?_
    by_cases hother : other = question.correlation
    · simp [hother, hfresh]
    · simp [hother]
  case once => exact h.once
  case unmatched => exact h.unmatched
  case closes => exact h.closes

theorem not_answered_of_not_done {reply : Message Bytes} (hpending : ask.waiter.done = false) :
    ask.waiter ≠ .answered reply := by
  rintro hanswered
  rw [hanswered] at hpending
  cases hpending

/-- A reply for somebody who waits. -/
theorem Paired.handOver (h : Paired r s) {reply : Message Bytes} (hid : reply.envelope.correlationId = id)
    (hawaits : s.awaits id = true) :
    Paired r { s with
      waiting := s.waiting.erase id
      received := s.received ++ [(reply, some id)]
      asks := s.settle id (.answered reply) } := by
  obtain ⟨hmem, ask, hask, hpending⟩ := awaits_iff.mp hawaits
  have hnew : ∀ before, (before, some id) ∉ s.received := by
    intro before hbefore
    obtain ⟨found, hfound, hanswered⟩ := (h.answered before id).mp hbefore
    rw [hask] at hfound
    exact not_answered_of_not_done hpending ((Option.some.inj hfound) ▸ hanswered)
  rw [settle_of_some hask]
  constructor
  case correlated =>
    intro other found hfound
    by_cases hother : other = id
    · obtain rfl := by simpa [hother] using hfound
      exact (h.correlated id ask hask).trans hother.symm
    · exact h.correlated other found (by simpa [hother] using hfound)
  case courses =>
    intro other found hfound
    by_cases hother : other = id
    · obtain rfl := by simpa [hother] using hfound
      exact (h.courses id ask hask).settle hpending _
    · exact h.courses other found (by simpa [hother] using hfound)
  case inProgress =>
    intro other hmem
    have hother := Finset.ne_of_mem_erase hmem
    obtain ⟨found, hfound, hprogress⟩ := h.inProgress other (Finset.mem_of_mem_erase hmem)
    exact ⟨found, by simpa [hother] using hfound, hprogress⟩
  case registered =>
    intro other found hfound hprogress hfoundPending
    by_cases hother : other = id
    · obtain rfl := by simpa [hother] using hfound
      cases hfoundPending
    · have hold := h.registered other found (by simpa [hother] using hfound) hprogress hfoundPending
      exact Finset.mem_erase.mpr ⟨hother, hold⟩
  case carries =>
    intro before other hbefore
    obtain hbefore | hbefore := List.mem_append.mp hbefore
    · exact h.carries before other hbefore
    · obtain ⟨rfl, rfl⟩ : before = reply ∧ other = id := by simpa using hbefore
      exact hid
  case answered =>
    intro before other
    rw [List.mem_append, List.mem_singleton]
    by_cases hother : other = id
    · subst hother
      simp [hnew, eq_comm]
    · simp [hother, h.answered]
  case once =>
    have hother : ∀ other before, (before, some other) ∈ s.received → other ≠ id := by
      rintro other before hbefore rfl
      exact hnew before hbefore
    simpa [List.filterMap_append, List.nodup_append, h.once] using hother
  case unmatched => simpa [List.countP_append] using h.unmatched
  case closes => exact h.closes

/-- A reply for nobody. -/
theorem Paired.passBy (h : Paired r s) (reply : Message Bytes) (hawaits : s.awaits id ≠ true) :
    Paired r { s with
      waiting := s.waiting.erase id
      received := s.received ++ [(reply, none)]
      unmatched := s.unmatched + 1 } where
  correlated := h.correlated
  courses := h.courses
  inProgress other hmem := h.inProgress other (Finset.mem_of_mem_erase hmem)
  registered other found hfound hprogress hpending := by
    have hmem := h.registered other found hfound hprogress hpending
    refine Finset.mem_erase.mpr ⟨?_, hmem⟩
    rintro rfl
    exact hawaits (awaits_iff.mpr ⟨hmem, found, hfound, hpending⟩)
  carries before other hbefore := h.carries before other (by simpa using hbefore)
  answered before other := by simpa using h.answered before other
  once := by simpa [List.filterMap_append] using h.once
  unmatched := by simpa [List.countP_append] using h.unmatched
  closes := h.closes

theorem Paired.receive (h : Paired r s) (reply : Message Bytes) : Paired r (s.receive reply) := by
  rw [Requests.receive]
  by_cases hawaits : s.awaits reply.envelope.correlationId = true
  · rw [if_pos hawaits]
    exact h.handOver rfl hawaits
  · rw [if_neg hawaits]
    exact h.passBy reply hawaits

/-- What `close` leaves of a call: it fails a waiter that is in the table and not done. -/
theorem asks_failWaiting (hask : s.asks id = some ask) : s.failWaiting.asks id =
    some (if s.awaits id then { ask with waiter := .failed (closedText id) } else ask) := by
  rw [Requests.failWaiting]
  by_cases hawaits : s.awaits id = true
  · simp only [if_pos hawaits, settle_of_some hask, Function.update_self]
  · simp only [if_neg hawaits, hask]

theorem exists_of_failWaiting {found : Ask Payload} (hfound : s.failWaiting.asks id = some found) :
    ∃ ask, s.asks id = some ask ∧
      found = if s.awaits id then { ask with waiter := .failed (closedText id) } else ask := by
  cases hask : s.asks id with
  | none =>
      have hnone : s.failWaiting.asks id = none := by
        simp [Requests.failWaiting, Requests.awaits, hask]
      rw [hnone] at hfound
      cases hfound
  | some ask =>
      rw [asks_failWaiting hask] at hfound
      exact ⟨ask, rfl, (Option.some.inj hfound).symm⟩

theorem Paired.failWaiting (h : Paired r s) : Paired r s.failWaiting where
  correlated other found hfound := by
    obtain ⟨ask, hask, rfl⟩ := exists_of_failWaiting hfound
    have hold := h.correlated other ask hask
    split <;> exact hold
  courses other found hfound := by
    obtain ⟨ask, hask, rfl⟩ := exists_of_failWaiting hfound
    have hold := h.courses other ask hask
    split
    case isTrue hawaits =>
      obtain ⟨-, found, hfound, hpending⟩ := awaits_iff.mp hawaits
      obtain rfl : ask = found := Option.some.inj (hask.symm.trans hfound)
      exact hold.settle hpending _
    case isFalse => exact hold
  inProgress other hmem := absurd hmem (Finset.notMem_empty _)
  registered other found hfound hprogress hpending := by
    obtain ⟨ask, hask, rfl⟩ := exists_of_failWaiting hfound
    split at hpending
    case isTrue => cases hpending
    case isFalse hawaits =>
      rw [if_neg hawaits] at hprogress
      exact absurd (awaits_iff.mpr ⟨h.registered other ask hask hprogress hpending, ask, hask, hpending⟩) hawaits
  carries := h.carries
  answered reply other := by
    refine (h.answered reply other).trans ?_
    cases hask : s.asks other with
    | none =>
        have hnone : ∀ found, s.failWaiting.asks other ≠ some found := by
          intro found hfound
          obtain ⟨ask, hold, -⟩ := exists_of_failWaiting hfound
          cases hask.symm.trans hold
        simp [hnone]
    | some ask =>
        rw [asks_failWaiting hask]
        by_cases hawaits : s.awaits other = true
        · obtain ⟨-, found, hfound, hpending⟩ := awaits_iff.mp hawaits
          obtain rfl : ask = found := Option.some.inj (hask.symm.trans hfound)
          simp [hawaits, not_answered_of_not_done hpending]
        · simp [hawaits]
  once := h.once
  unmatched := h.unmatched
  closes := h.closes

/-! ## Every step -/

theorem Paired.closeResumed (h : Paired r s) {before after : List (Program Closing Failure Unit)}
    {rest : Program Closing Failure Unit} (hbefore : ∀ p ∈ before ++ after, p ∈ s.closes)
    (hstep : CloseStep s (advance closeAtOnce rest s).rest (advance closeAtOnce rest s).state) :
    Paired r (s.closeResumed before after rest) := by
  have hcloses : ∀ {p : Program Closing Failure Unit}, (p = closing ∨ ∃ x, p = ofExcept x) →
      ∀ q ∈ before ++ p :: after, q = closing ∨ ∃ x, q = ofExcept x := by
    intro p hp q hmem
    obtain hmem | hmem := List.mem_append.mp hmem
    · exact h.closes q (hbefore q (List.mem_append_left _ hmem))
    obtain rfl | hmem := List.mem_cons.mp hmem
    · exact hp
    · exact h.closes q (hbefore q (List.mem_append_right _ hmem))
  rw [Requests.closeResumed]
  cases hstep with
  | waits hstate hrest =>
      rw [hstate, hrest]
      exact { h with closes := hcloses (.inl rfl) }
  | raises failure hstate hrest =>
      rw [hstate, hrest]
      exact { h with closes := hcloses (.inr ⟨.error failure, rfl⟩) }
  | returns consuming hstate hrest =>
      rw [hstate, hrest]
      exact { h.failWaiting with closes := hcloses (.inr ⟨.ok (), rfl⟩) }

/-- A close that waits waits for the consumer. -/
theorem Paired.of_closing (h : Paired r s) {next : Except Failure Unit → Program Closing Failure Unit}
    (hmem : .ask (I := Closing) .closeConsumer next ∈ s.closes) : next = afterConsumer := by
  obtain hclosing | ⟨x, hover⟩ := h.closes _ hmem
  · injection hclosing
  · exact absurd hover.symm ofExcept_ne_ask

theorem Move.paired (h : Paired r s) (hmove : Move r s s') : Paired r s' := by
  cases hmove with
  | ask question hfresh => exact h.asked hfresh
  | reply reply => exact h.receive reply
  | @sent id ask request envelope replyTo next answer hask hrest =>
      obtain ⟨rfl, rfl, rfl, rfl⟩ := (h.courses id ask hask).of_sending hrest
      rw [Requests.resumed]
      cases answer with
      | ok done =>
          have hprogress : ask.inProgress = true := by rw [Ask.inProgress, hrest]
          rw [Question.afterSend, Question.waiting, advance_wait rfl]
          have hcourse : ∀ events, Course r { ask with events := events, rest := ask.waiting r } :=
            fun _ ↦ .waiting rfl
          refine h.replace hask (hcourse _) (h.correlated id ask hask) (fun reply ↦ Iff.rfl)
            (Finset.Subset.refl _) (fun other hmem _ ↦ hmem) (fun _ ↦ rfl) (fun _ hpending ↦ ?_) s.timedOut
          exact h.registered id ask hask hprogress hpending
      | error raised =>
          obtain ⟨events, timedOut, hgone⟩ := advance_failing (r := r) (q := ask.toQuestion) (s := s) raised.raised
          rw [Question.afterSend, hgone]
          exact h.leave (x := .error (ask.surfaced r raised.raised)) hask (.unsent raised (by simp) rfl) timedOut
  | @cutShort id ask deadline next hask hrest hpending =>
      obtain ⟨rfl, rfl⟩ := (h.courses id ask hask).of_waiting hrest
      have hprogress : ask.inProgress = true := by rw [Ask.inProgress, hrest]
      have hdone : ask.waiter.done = false := by rw [hpending]; rfl
      have hcourse : Course r { ask with waiter := .dropped } := .waiting hrest
      rw [settle_of_some hask]
      refine h.replace hask hcourse (h.correlated id ask hask) (fun reply ↦ ?_) (Finset.Subset.refl _)
        (fun other hmem _ ↦ hmem) (fun _ ↦ hprogress) (fun _ hnot ↦ nomatch hnot) s.timedOut
      exact iff_of_false (nofun) (not_answered_of_not_done hdone)
  | @woken id ask deadline next answer hask hrest hgives =>
      obtain ⟨rfl, rfl⟩ := (h.courses id ask hask).of_waiting hrest
      obtain ⟨events, timedOut, hgone⟩ := advance_afterWait (r := r) (q := ask.toQuestion) (s := s) answer
      rw [Requests.resumed, hgone]
      exact h.leave hask (.woken answer hgives (by simp) rfl) timedOut
  | close => exact h.closeResumed (by simp) (advance_close s)
  | @closed before after next answer hcloses =>
      obtain rfl : next = afterConsumer := h.of_closing (by simp [hcloses])
      refine h.closeResumed (fun p hmem ↦ ?_) (advance_afterConsumer answer s)
      rw [hcloses]
      obtain hmem | hmem := List.mem_append.mp hmem
      · exact List.mem_append_left _ hmem
      · exact List.mem_append_right _ (List.mem_cons_of_mem _ hmem)

theorem Reached.paired (h : Reached r s) : Paired r s := by
  induction h with
  | opened =>
      constructor
      case inProgress => exact fun id hmem ↦ absurd hmem (Finset.notMem_empty id)
      all_goals simp
  | move _ hmove ih => exact hmove.paired ih

/-! ## What a call ends with -/

theorem surfaced_ne_responder {q : Question Payload} {failure : AskFailure} {text : String}
    (h : failure ≠ .responder text) : q.surfaced r failure ≠ .responder text := by
  cases failure with
  | timeout => nofun
  | requestTimeout _ => nofun
  | other _ => nofun
  | responder _ => exact h

theorem raised_ne_responder (raised : Unsent) (text : String) : raised.raised ≠ .responder text := by
  cases raised <;> nofun

theorem woken_ne_responder {woken : Woken} {failure : AskFailure} (h : woken.outcome = .error failure)
    (text : String) : failure ≠ .responder text := by
  cases woken <;> cases h <;> nofun

/-- What a call returns, and the failure a responder sent it, are read from a reply it was handed. -/
theorem Course.of_read (h : Course r ask) {x : Except AskFailure Payload} (hrest : ask.rest = ofExcept x)
    (hread : ∀ failure, x = .error failure → ∃ text, failure = .responder text) :
    ∃ reply, ask.waiter = .answered reply ∧ ask.read r reply = x := by
  cases h with
  | sending hstage => exact absurd (hrest.symm.trans hstage) ofExcept_ne_ask
  | waiting hstage => exact absurd (hrest.symm.trans hstage) ofExcept_ne_ask
  | unsent raised _ hstage =>
      cases x with
      | ok payload => cases hstage.symm.trans hrest
      | error failure =>
          obtain ⟨text, rfl⟩ := hread failure rfl
          injection hstage.symm.trans hrest with hraised
          exact absurd hraised (surfaced_ne_responder (raised_ne_responder raised text))
  | woken answer hgives _ hstage =>
      have hx : ask.conclusion r answer = x := ofExcept_injective (hstage.symm.trans hrest)
      rw [Question.conclusion] at hx
      cases houtcome : answer.outcome with
      | ok reply =>
          rw [houtcome] at hx
          cases answer <;> cases houtcome
          exact ⟨reply, hgives, hx⟩
      | error failure =>
          rw [houtcome] at hx
          obtain ⟨text, htext⟩ := hread _ hx.symm
          exact absurd htext (surfaced_ne_responder (woken_ne_responder houtcome text))

/-- What becomes of a call whose waiter `close` has failed. -/
inductive Failing (r : Requester Payload) (ask : Ask Payload) : Prop
  | sending : ask.rest = ask.sending r → Failing r ask
  | waiting : ask.rest = ask.waiting r → Failing r ask
  | timedOut (text : String) : ask.rest = .raise (.requestTimeout text) → Failing r ask
  | unsent (failure : Failure) : (⟨.send ask.request (ask.outgoing r) r.replyQueue, .error (.other failure)⟩ :
      Event (Round Payload)) ∈ ask.events → ask.rest = .raise (.other failure) → Failing r ask
  | cancelled (failure : Failure) :
      (⟨.wait (ask.deadline r), .cancelled failure⟩ : Event (Round Payload)) ∈ ask.events →
      ask.rest = .raise (.other failure) → Failing r ask

theorem Course.of_failed (h : Course r ask) {text : String} (hfailed : ask.waiter = .failed text) :
    Failing r ask := by
  cases h with
  | sending hrest => exact .sending hrest
  | waiting hrest => exact .waiting hrest
  | unsent raised hevent hrest =>
      cases raised with
      | requestTimeout text => exact .timedOut text hrest
      | timeout => exact .timedOut _ hrest
      | other failure => exact .unsent failure hevent hrest
  | woken answer hgives hevent hrest =>
      cases answer with
      | reply reply => cases hgives.symm.trans hfailed
      | closed text => exact .timedOut text hrest
      | expired => exact .timedOut _ hrest
      | cancelled failure => exact .cancelled failure hevent hrest

/-- It is the same call, and its waiter is the same once that is done. -/
def Kept (ask ask' : Ask Payload) : Prop :=
  ask'.correlation = ask.correlation ∧ (ask.waiter.done = true → ask'.waiter = ask.waiter)

theorem kept_update {changed ask' : Ask Payload} {other : String} (hchanged : s.asks other = some changed)
    (hkept : Kept changed ask') (hask : s.asks id = some ask) :
    ∃ found, Function.update s.asks other (some ask') id = some found ∧ Kept ask found := by
  by_cases hid : id = other
  · subst hid
    obtain rfl : changed = ask := Option.some.inj (hchanged.symm.trans hask)
    exact ⟨ask', by simp, hkept⟩
  · exact ⟨ask, by simpa [hid] using hask, rfl, fun _ ↦ rfl⟩

theorem kept_failWaiting (hask : s.asks id = some ask) :
    ∃ found, s.failWaiting.asks id = some found ∧ Kept ask found := by
  refine ⟨_, asks_failWaiting hask, ?_⟩
  split
  case isTrue hawaits =>
    obtain ⟨-, found, hfound, hpending⟩ := awaits_iff.mp hawaits
    obtain rfl : ask = found := Option.some.inj (hask.symm.trans hfound)
    exact ⟨rfl, fun hdone ↦ by rw [hpending] at hdone; cases hdone⟩
  case isFalse => exact ⟨rfl, fun _ ↦ rfl⟩

theorem CloseStep.kept {rest : Program Closing Failure Unit} {t : Requests Payload} (h : CloseStep s rest t)
    (hask : s.asks id = some ask) : ∃ found, t.asks id = some found ∧ Kept ask found := by
  cases h with
  | waits hstate => exact hstate ▸ ⟨ask, hask, rfl, fun _ ↦ rfl⟩
  | raises failure hstate => exact hstate ▸ ⟨ask, hask, rfl, fun _ ↦ rfl⟩
  | returns consuming hstate => exact hstate ▸ kept_failWaiting hask

theorem Move.keeps (h : Paired r s) (hmove : Move r s s') (hask : s.asks id = some ask) :
    ∃ ask', s'.asks id = some ask' ∧ Kept ask ask' := by
  cases hmove with
  | ask question hfresh =>
      have hid : id ≠ question.correlation := by
        rintro rfl
        cases hfresh.symm.trans hask
      exact ⟨ask, by simpa [Requests.asked, hid] using hask, rfl, fun _ ↦ rfl⟩
  | reply reply =>
      rw [Requests.receive]
      split
      case isTrue hawaits =>
        obtain ⟨-, waiting, hwaiting, hpending⟩ := awaits_iff.mp hawaits
        rw [settle_of_some hwaiting]
        exact kept_update hwaiting ⟨rfl, fun hdone ↦ by rw [hpending] at hdone; cases hdone⟩ hask
      case isFalse => exact ⟨ask, hask, rfl, fun _ ↦ rfl⟩
  | sent answer hsent => exact kept_update hsent ⟨rfl, fun _ ↦ rfl⟩ hask
  | cutShort hcut _ hpending =>
      rw [settle_of_some hcut]
      exact kept_update hcut ⟨rfl, fun hdone ↦ by rw [hpending] at hdone; cases hdone⟩ hask
  | woken hwoken => exact kept_update hwoken ⟨rfl, fun _ ↦ rfl⟩ hask
  | close => exact (advance_close s).kept hask
  | @closed before after next answer hcloses =>
      obtain rfl : next = afterConsumer := h.of_closing (by simp [hcloses])
      exact (advance_afterConsumer answer s).kept hask

theorem advance_closes (p : Program (Round Payload) AskFailure Payload) (s : Requests Payload) :
    (advance atOnce p s).state.closes = s.closes := by
  induction p generalizing s with
  | ret payload => rfl
  | raise failure => rfl
  | ask q next ih =>
      cases q with
      | send request envelope replyTo => rfl
      | wait deadline => rfl
      | register correlation => exact ih () _
      | countTimedOut => exact ih () _
      | pop correlation => exact ih () _

/-- A step of `close` that brings it to its end has failed every call nobody had answered. -/
theorem CloseStep.fails {rest : Program Closing Failure Unit} {t : Requests Payload} (h : Paired r s)
    (hstep : CloseStep s rest t) (hreturned : returned rest = true) (hask : s.asks id = some ask)
    (hprogress : ask.inProgress = true) (hpending : ask.waiter.done = false) :
    t.asks id = some { ask with waiter := .failed (closedText id) } := by
  cases hstep with
  | waits _ hrest =>
      rw [hrest] at hreturned
      cases hreturned
  | raises failure _ hrest =>
      rw [hrest] at hreturned
      cases hreturned
  | returns consuming hstate _ =>
      have hawaits : s.awaits id = true :=
        awaits_iff.mpr ⟨h.registered id ask hask hprogress hpending, ask, hask, hpending⟩
      rw [hstate, asks_failWaiting hask, if_pos hawaits]

theorem countP_closes (before after : List (Program Closing Failure Unit)) (p : Program Closing Failure Unit) :
    (before ++ p :: after).countP returned = before.countP returned + after.countP returned +
      (returned p).toNat := by
  rw [List.countP_append, List.countP_cons]
  cases returned p with
  | false => simp
  | true =>
      simp only [if_true, Bool.toNat_true]
      omega

theorem Move.fails (h : Paired r s) (hmove : Move r s s')
    (hreturned : s.closes.countP returned < s'.closes.countP returned) (hask : s.asks id = some ask)
    (hprogress : ask.inProgress = true) (hpending : ask.waiter.done = false) :
    s'.asks id = some { ask with waiter := .failed (closedText id) } := by
  have hsame : s'.closes ≠ s.closes := fun hcloses ↦ by rw [hcloses] at hreturned; omega
  cases hmove with
  | ask question hfresh => exact absurd (advance_closes _ s) hsame
  | reply reply =>
      refine absurd ?_ hsame
      rw [Requests.receive]
      split <;> rfl
  | sent answer _ _ => exact absurd (advance_closes _ s) hsame
  | cutShort => exact absurd rfl hsame
  | woken => exact absurd (advance_closes _ s) hsame
  | close =>
      have hend : returned (advance closeAtOnce RequestReply.close s).rest = true := by
        rw [Requests.closeResumed, countP_closes, List.countP_nil] at hreturned
        by_contra hnot
        rw [Bool.not_eq_true] at hnot
        rw [hnot, Bool.toNat_false] at hreturned
        omega
      have hfails := (advance_close s).fails h hend hask hprogress hpending
      exact hfails
  | @closed before after next answer hcloses =>
      obtain rfl : next = afterConsumer := h.of_closing (by simp [hcloses])
      have hend : returned (advance closeAtOnce (afterConsumer answer) s).rest = true := by
        rw [Requests.closeResumed, hcloses, countP_closes, countP_closes] at hreturned
        by_contra hnot
        rw [Bool.not_eq_true] at hnot
        rw [hnot, Bool.toNat_false] at hreturned
        omega
      have hfails := (advance_afterConsumer answer s).fails h hend hask hprogress hpending
      exact hfails

theorem keeps_of_later (h : Reached r s) (hlater : Relation.ReflTransGen (Move r) s s') (hask : s.asks id = some ask) :
    Reached r s' ∧ ∃ ask', s'.asks id = some ask' ∧ Kept ask ask' := by
  induction hlater with
  | refl => exact ⟨h, ask, hask, rfl, fun _ ↦ rfl⟩
  | tail _ hmove ih =>
      obtain ⟨hreached, found, hfound, hkept⟩ := ih
      obtain ⟨ask', hask', hkept'⟩ := hmove.keeps hreached.paired hfound
      refine ⟨hreached.move hmove, ask', hask', hkept'.1.trans hkept.1, fun hdone ↦ ?_⟩
      have hwaiter := hkept.2 hdone
      rw [hkept'.2 (by rwa [hwaiter]), hwaiter]

theorem exists_resumed (s : Requests Payload) (id : String) (ask : Ask Payload) (event : Event (Round Payload))
    (rest : Program (Round Payload) AskFailure Payload) :
    ∃ found, (s.resumed id ask event rest).asks id = some found ∧ found.rest = (advance atOnce rest s).rest :=
  ⟨_, Function.update_self .., rfl⟩

/-- A call whose waiter `close` has failed is woken by it. -/
theorem wakes (hask : s.asks id = some ask) (hrest : ask.rest = ask.waiting r)
    {text : String} (hfailed : ask.waiter = .failed text) :
    ∃ s', Move r s s' ∧ ∃ ask', s'.asks id = some ask' ∧ ask'.rest = .raise (.requestTimeout text) := by
  have hgives : ask.waiter.Gives (.closed text) := hfailed
  obtain ⟨events, timedOut, hgone⟩ := advance_afterWait (r := r) (q := ask.toQuestion) (s := s) (.closed text)
  obtain ⟨ended, hended, hover⟩ := exists_resumed s id ask ⟨.wait (ask.deadline r), .closed text⟩
    (ask.afterWait r (.closed text))
  rw [hgone] at hover
  exact ⟨_, .woken hask hrest hgives, ended, hended, hover⟩

end paired

/-- Replies are paired with the questions that asked.  A call that nobody has answered when a `close`
comes to its end is over then, whatever happens: it times out, unless its request is not published or
it is cancelled. -/
theorem replies_paired (r : Requester Payload) (s : Requests Payload) (h : Reached r s) :
    (∀ id ask payload, s.asks id = some ask → ask.rest = .ret payload → ∃ reply, (reply, some id) ∈ s.received ∧
      reply.envelope.correlationId = ask.correlation ∧ ask.read r reply = .ok payload) ∧
    (∀ id ask text, s.asks id = some ask → ask.rest = .raise (.responder text) →
      ∃ reply, (reply, some id) ∈ s.received ∧ reply.envelope.correlationId = ask.correlation ∧
        ask.read r reply = .error (.responder text)) ∧
    (s.received.filterMap Prod.snd).Nodup ∧
    (∀ reply id, (reply, some id) ∈ s.received ↔ ∃ ask, s.asks id = some ask ∧ ask.waiter = .answered reply) ∧
    s.received.length = (s.received.filterMap Prod.snd).length + s.unmatched ∧
    (∀ id ∈ s.waiting, ∃ ask, s.asks id = some ask ∧ ask.inProgress = true) ∧
    ((∀ id ask, s.asks id = some ask → ask.inProgress = false) → s.waiting = ∅) ∧
    ∀ s', Move r s s' → s.closes.countP returned < s'.closes.countP returned →
      ∀ id ask, s.asks id = some ask → ask.inProgress = true → ask.waiter.done = false →
      ∀ later, Relation.ReflTransGen (Move r) s' later → ∃ ask', later.asks id = some ask' ∧
        ask'.correlation = ask.correlation ∧ Failing r ask' ∧
        (ask'.rest = ask'.waiting r → ∃ next, Move r later next ∧ ∃ ended, next.asks id = some ended ∧
          ended.rest = .raise (.requestTimeout (closedText id))) := by
  have hpaired := h.paired
  refine ⟨fun id ask payload hask hrest ↦ ?_, fun id ask text hask hrest ↦ ?_, hpaired.once, hpaired.answered, ?_,
    hpaired.inProgress, fun hover ↦ ?_, fun s' hmove hreturned id ask hask hprogress hpending later hlater ↦ ?_⟩
  · obtain ⟨reply, hanswered, hread⟩ := (hpaired.courses id ask hask).of_read (x := .ok payload) hrest nofun
    have hmem := (hpaired.answered reply id).mpr ⟨ask, hask, hanswered⟩
    exact ⟨reply, hmem, (hpaired.carries reply id hmem).trans (hpaired.correlated id ask hask).symm, hread⟩
  · obtain ⟨reply, hanswered, hread⟩ := (hpaired.courses id ask hask).of_read (x := .error (.responder text)) hrest
      fun failure hfailure ↦ ⟨text, (Except.error.inj hfailure).symm⟩
    have hmem := (hpaired.answered reply id).mpr ⟨ask, hask, hanswered⟩
    exact ⟨reply, hmem, (hpaired.carries reply id hmem).trans (hpaired.correlated id ask hask).symm, hread⟩
  · rw [hpaired.unmatched, List.length_filterMap_eq_countP,
      List.length_eq_countP_add_countP fun entry : Message Bytes × Option String ↦ entry.2.isSome,
      Nat.add_left_cancel_iff]
    exact List.countP_congr fun entry _ ↦ by simp
  · refine Finset.eq_empty_of_forall_notMem fun id hmem ↦ ?_
    obtain ⟨ask, hask, hprogress⟩ := hpaired.inProgress id hmem
    rw [hover id ask hask] at hprogress
    cases hprogress
  · have hfailed := hmove.fails hpaired hreturned hask hprogress hpending
    obtain ⟨hreached, ask', hask', hsame, hwaiter⟩ := keeps_of_later (h.move hmove) hlater hfailed
    have hclosed : ask'.waiter = .failed (closedText id) := hwaiter rfl
    exact ⟨ask', hask', hsame, (hreached.paired.courses id ask' hask').of_failed hclosed,
      fun hrest ↦ wakes hask' hrest hclosed⟩

/-- A requester of bytes with one question asked. -/
def oneRequester : Requester Bytes where
  replyQueue := "replies"
  timeout := 30000000
  positive := by decide
  origin := ""
  codec := bytesCodec

def oneQuestion : Question Bytes where
  request := []
  envelope := none
  timeout := none
  correlation := "c1"
  id := "m1"
  now := 0

def oneAsked : Requests Bytes := Requests.asked oneRequester ⟨∅, true, 0, 0, [], fun _ ↦ none, []⟩ oneQuestion

def oneAsk : Ask Bytes :=
  ⟨oneQuestion, .pending, [⟨.register "c1", ()⟩], oneQuestion.sending oneRequester⟩

theorem asks_oneAsked : oneAsked.asks "c1" = some oneAsk := by
  have hasked := asks_asked oneRequester ⟨∅, true, 0, 0, [], fun _ ↦ none, []⟩ oneQuestion
  exact hasked

theorem reached_oneAsked : Reached oneRequester oneAsked := Reached.opened.move (.ask oneQuestion rfl)

/-- The request is out, and the reply to it comes twice. -/
def oneSent : Requests Bytes :=
  oneAsked.resumed "c1" oneAsk ⟨.send [] (oneQuestion.outgoing oneRequester) "replies", .ok ()⟩
    (oneQuestion.afterSend oneRequester (.ok ()))

def oneReply : Message Bytes :=
  ⟨[], .new "c1" "order.priced" 0, "replies", none, false, [104, 105], "application/octet-stream"⟩

def oneAnswered : Requests Bytes := (oneSent.receive oneReply).receive oneReply

def oneWaiting : Ask Bytes :=
  { oneAsk with
    waiter := .answered oneReply
    events := oneAsk.events ++ [⟨.send [] (oneQuestion.outgoing oneRequester) "replies", .ok ()⟩]
    rest := oneQuestion.waiting oneRequester }

def oneReturned : Requests Bytes :=
  oneAnswered.resumed "c1" oneWaiting ⟨.wait 30000000, .reply oneReply⟩
    (oneQuestion.afterWait oneRequester (.reply oneReply))

theorem reached_oneReturned : Reached oneRequester oneReturned := by
  have hsent : Reached oneRequester oneSent := reached_oneAsked.move (.sent (.ok ()) asks_oneAsked rfl)
  have hanswered : Reached oneRequester oneAnswered := (hsent.move (.reply oneReply)).move (.reply oneReply)
  have hasks : oneAnswered.asks "c1" = some oneWaiting := rfl
  apply hanswered.move
  exact .woken hasks rfl rfl

/-- The first reply is returned, and the second is counted. -/
theorem replies_paired_one : ∃ ask, oneReturned.asks "c1" = some ask ∧ ask.rest = .ret [104, 105] ∧
    (∃ reply, (reply, some "c1") ∈ oneReturned.received ∧ reply.envelope.correlationId = "c1" ∧
      ask.read oneRequester reply = .ok [104, 105]) ∧
    oneReturned.received.length = 2 ∧ oneReturned.unmatched = 1 ∧
    oneReturned.received.length = (oneReturned.received.filterMap Prod.snd).length + oneReturned.unmatched ∧
    ∀ id ∈ oneReturned.waiting, ∃ ask, oneReturned.asks id = some ask ∧ ask.inProgress = true := by
  obtain ⟨hreturned, -, -, -, hcounted, hwaiting, -⟩ := replies_paired oneRequester oneReturned reached_oneReturned
  refine ⟨_, rfl, rfl, ?_, rfl, rfl, hcounted, hwaiting⟩
  exact hreturned "c1" _ [104, 105] rfl rfl

/-- It is closed while the request is on its way, and the publish fails. -/
def oneClosing : Requests Bytes := oneAsked.closeResumed oneAsked.closes [] close

def oneClosed : Requests Bytes := oneClosing.closeResumed [] [] (afterConsumer (.ok ()))

def oneFailed : Ask Bytes := { oneAsk with waiter := .failed (closedText "c1") }

def oneRefused : Failure := .publishError "m1" "" "orders" "the broker refused it"

def oneUnsent : Requests Bytes :=
  oneClosed.resumed "c1" oneFailed
    ⟨.send [] (oneQuestion.outgoing oneRequester) "replies", .error (.other oneRefused)⟩
    (oneQuestion.afterSend oneRequester (.error (.other oneRefused)))

theorem oneClosing_eq : oneClosing = { oneAsked with closes := [closing] } := by
  rw [oneClosing, Requests.closeResumed, close_eq, advance_now rfl]
  rfl

theorem asks_oneClosed : oneClosed.asks "c1" = some oneFailed := by
  have hask : oneClosing.asks "c1" = some oneAsk := by rw [oneClosing_eq, ← asks_oneAsked]
  have hawaits : oneClosing.awaits "c1" = true := by
    refine awaits_iff.mpr ⟨?_, oneAsk, hask, rfl⟩
    rw [oneClosing_eq, oneAsked, Requests.asked, advance_program]
    exact Finset.mem_insert_self "c1" ∅
  exact (asks_failWaiting hask).trans (by rw [if_pos hawaits]; rfl)

theorem ask_closed_unsent : Reached oneRequester oneClosing ∧ Move oneRequester oneClosing oneClosed ∧
    oneClosing.closes.countP returned < oneClosed.closes.countP returned ∧
    (∃ ask, oneClosing.asks "c1" = some ask ∧ ask.inProgress = true ∧ ask.waiter.done = false) ∧
    Move oneRequester oneClosed oneUnsent ∧
    ∃ ask, oneUnsent.asks "c1" = some ask ∧ ask.rest = .raise (.other oneRefused) := by
  have hcloses : oneClosing.closes = [] ++ closing :: [] := by rw [oneClosing_eq]; rfl
  refine ⟨reached_oneAsked.move .close, .closed (.ok ()) hcloses, ?_, ⟨oneAsk, ?_, rfl, rfl⟩,
    .sent _ asks_oneClosed rfl, ?_⟩
  · rw [hcloses]
    decide
  · rw [oneClosing_eq, ← asks_oneAsked]
  · obtain ⟨events, timedOut, hgone⟩ := advance_failing (r := oneRequester) (q := oneQuestion) (s := oneClosed)
      (.other oneRefused)
    obtain ⟨ask, hask, hrest⟩ := exists_resumed oneClosed "c1" oneFailed
      ⟨.send [] (oneQuestion.outgoing oneRequester) "replies", .error (.other oneRefused)⟩
      (oneQuestion.afterSend oneRequester (.error (.other oneRefused)))
    rw [Question.afterSend, Unsent.raised, hgone] at hrest
    exact ⟨ask, hask, hrest⟩

end RequestReply

end AcemqAmqp
