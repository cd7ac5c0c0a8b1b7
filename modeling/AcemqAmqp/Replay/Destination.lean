import AcemqAmqp.Consumer.Course
import AcemqAmqp.Replay.Rounds
import Mathlib.Logic.Function.Basic

/-!
# Where a replay puts dead letters

The consumer sets a message aside under the name of the dead-letter queue, and
a replay without a routing key publishes it under the key it was set aside
with.  The broker is played out here with its queues, so that what the one
wrote is what the other reads: the first message a replay moves goes back onto
the queue that is being drained.
-/

namespace AcemqAmqp

open Interaction Program

namespace Consumer

variable {Payload : Type}

/-- The envelopes the interceptors leave carry a `datetime`. -/
def Dated : Assumption (Broker Payload)
  | .invoke context, answer => Answered (.invoke context) answer ∧
      (fromMillis (millis answer.1.firstSeen)).isSome = true
  | q, answer => Answered q answer

/-- The consumer of `queue` put the message on `target`, and the broker took it. -/
def SetAside (queue target : String) (message : Outbound) : Prop :=
  ∃ (Payload : Type) (c : Consumer) (d : Delivery) (e : Envelope)
    (t : List (Event (Broker Payload))) (x : Except Failure Unit),
    c.queue = queue ∧ (fromMillis (millis e.firstSeen)).isSome = true ∧
      Runs Dated (c.handleOne d e) t x ∧ ⟨"", target, message, true⟩ ∈ publishes t

theorem Dated.answered {q : Act Payload} {answer : (Broker Payload).Ans q} (h : Dated q answer) :
    Answered q answer := by
  cases q with
  | invoke => exact h.1
  | decode | now | random | publish | sleep | halt | ack | nack => exact h

/-- A decision carries the envelope of the answer it was read from. -/
theorem Dated.decided {t : List (Event (Broker Payload))} (h : ∀ event ∈ t, Dated event.1 event.2)
    {e : Envelope} {decision : Decision} (hd : (e, decision) ∈ decisions t) :
    (fromMillis (millis e.firstSeen)).isSome = true := by
  obtain ⟨⟨q, answer⟩, hmem, hread⟩ := List.mem_filterMap.mp hd
  cases q with
  | invoke context =>
      obtain ⟨e', decided | failure⟩ := answer
      · obtain ⟨rfl, -⟩ := Prod.mk.inj (Option.some.inj hread)
        exact (h _ hmem).2
      · obtain ⟨rfl, -⟩ := Prod.mk.inj (Option.some.inj hread)
        exact (h _ hmem).2
  | decode | now | random | publish | sleep | halt | ack | nack => cases hread

/-- What a consumer sets aside can be read again. -/
theorem SetAside.readable {queue target : String} {message : Outbound}
    (h : SetAside queue target message) : Envelope.readable message.headers = true := by
  obtain ⟨Payload, c, d, e, t, x, -, hdated, hrun, hmem⟩ := h
  obtain ⟨e', copy, hmessage, halike, he'⟩ := always_iff_runs.mp
    (handleOne_copies (d := d) (e := e)) t x (hrun.mono fun q answer ↦ Dated.answered) _ hmem
  have hseen : message.headers.get? Headers.firstSeen = some (.int (millis e'.firstSeen)) := by
    rw [show message = hop d copy from hmessage, ← halike.firstSeen]
    exact Envelope.get?_toHeaders_firstSeen copy _
  rw [Envelope.readable, hseen, number_some_int]
  rcases he' with rfl | ⟨decision, hd⟩
  · exact hdated
  · exact Dated.decided hrun.answers hd

end Consumer

namespace Replay

/-! ## The broker, played out -/

/-- The queues of the broker, what is held unacknowledged and which queue it
came from, how many messages have arrived, and how often the clock was read
and the filter asked. -/
structure Site where
  ready : String → List Delivery
  held : List (String × Delivery)
  arrived : ℕ
  looked : ℕ
  asked : ℕ

/-- What a replay does not decide: the clocks, the identifiers, the answers of the filter. -/
structure World where
  looks : ℕ → ℚ
  wanted : ℕ → Bool
  now : Site → Instant
  fresh : Site → String
  dated : ∀ site, (fromMillis (millis (now site))).isSome = true

/-- A message as it is delivered: under the key it was published with. -/
def arrive (tag : ℕ) (key : String) (message : Outbound) : Delivery where
  tag := tag
  body := message.body
  contentType := some message.contentType
  routingKey := key
  messageId := message.messageId
  headers := message.headers
  redelivered := false
  replyTo := message.replyTo

/-- A broker that does what it is asked.  The default exchange routes to the
queue that the key names, and a returned message goes back to the head of its queue. -/
def World.answer (w : World) (site : Site) : (q : Act) → Broker.Ans q × Site
  | .clock => (w.looks site.looked, { site with looked := site.looked + 1 })
  | .now => (w.now site, site)
  | .fresh => (w.fresh site, site)
  | .pull queue =>
      match site.ready queue with
      | [] => (.ok none, site)
      | d :: rest => (.ok (some d), { site with
          ready := Function.update site.ready queue rest
          held := site.held ++ [(queue, d)] })
  | .only _ _ => (.ok (w.wanted site.asked), { site with asked := site.asked + 1 })
  | .publish exchange key message =>
      if exchange = "" then
        (.answered ⟨message.messageId, true, true, ""⟩, { site with
          ready := Function.update site.ready key (site.ready key ++ [arrive site.arrived key message])
          arrived := site.arrived + 1 })
      else (.answered ⟨message.messageId, true, false, "NO_ROUTE"⟩, site)
  | .ack tag => (.ok (), { site with held := site.held.filter (·.2.tag ≠ tag) })
  | .nack tag requeue =>
      let back := site.held.filter fun p ↦ p.2.tag = tag ∧ requeue
      (.ok (), { site with
        ready := fun queue ↦ (back.filter (·.1 = queue)).map (·.2) ++ site.ready queue
        held := site.held.filter (·.2.tag ≠ tag) })
  | .messageCount queue => (.ok (site.ready queue).length, site)
  | .sleep _ => ((), site)

theorem answer_answered (w : World) (site : Site) (q : Act) : Answered q (w.answer site q).1 := by
  cases q with
  | now => exact w.dated site
  | pull queue =>
      intro f hf
      simp only [World.answer] at hf
      split at hf <;> cases hf
  | publish exchange key message =>
      intro f hf
      simp only [World.answer] at hf
      split at hf <;> cases hf
  | ack | nack | messageCount =>
      intro f hf
      cases hf
  | clock | fresh | only | sleep => trivial

/-- The messages a consumer set aside, waiting on the queue. -/
def staged (queue : String) (messages : List Outbound) : List Delivery :=
  messages.mapIdx fun i message ↦ arrive i queue message

def Site.start (queue : String) (messages : List Outbound) : Site where
  ready := Function.update (fun _ ↦ []) queue (staged queue messages)
  held := []
  arrived := messages.length
  looked := 0
  asked := 0

/-! ## What a run pulled and sent -/

def isPull : Event Broker → Bool
  | ⟨.pull _, _⟩ => true
  | _ => false

def sent? : Event Broker → Option (String × String)
  | ⟨.publish exchange key _, _⟩ => some (exchange, key)
  | _ => none

def pulls (t : Trace) : ℕ := t.countP isPull

/-- The exchange and the key of every publish, in order. -/
def sent (t : Trace) : List (String × String) := t.filterMap sent?

theorem pulls_append (t t' : Trace) : pulls (t ++ t') = pulls t + pulls t' := List.countP_append ..

theorem sent_append (t t' : Trace) : sent (t ++ t') = sent t ++ sent t' := List.filterMap_append ..

variable (w : World) (o : Options)

/-- The replay ends within one pull for each message and one more, sends each
message it moves to `queue`, and leaves none of what it sent on the queue it drains. -/
def PutsBack (queue : String) (messages : List Outbound) : Prop :=
  ∃ fuel, ∃ t x site, (replay o fuel).interp w.answer (.start o.queue messages) = ((t, x), site) ∧
    x ≠ .ok none ∧ pulls t ≤ messages.length + 1 ∧ (∀ p ∈ sent t, p = ("", queue)) ∧
    ∀ d ∈ site.ready o.queue, d.tag < messages.length

/-- The filter passes the message pulled after `k` others, none of which was moved. -/
def Passes (k : ℕ) : Prop := o.filtered = true → w.wanted k = true

/-- The deadline is over when the clock is read for the message after `k` others. -/
def Expired (k : ℕ) : Prop := ∃ d, o.deadline = some d ∧ w.looks 0 + d ≤ w.looks (k + 1)

/-- Some message is reached, in time, that the filter passes. -/
def Reaches (n : ℕ) : Prop := ∃ k < n, Passes w o k ∧ ∀ j ≤ k, ¬Expired w o j

/-! ## The loop -/

/-- Between two rounds, as long as nothing was moved: the first `i` messages are
held back and the others wait.  The clock has been read `n` times. -/
structure Waiting (ds : List Delivery) (i n : ℕ) (t : Trace) (site : Site) (s : State) : Prop where
  ready : site.ready o.queue = ds.drop i
  held : site.held = (ds.take i).map (o.queue, ·)
  declined : s.declined = ds.take i
  moved : s.moved = 0
  looked : o.deadline.isSome = true → site.looked = n
  asked : o.filtered = true → site.asked = i
  count : pulls t = i
  unsent : sent t = []
  bound : i ≤ ds.length
  passed : ∀ j < i, ¬Passes w o j ∧ ¬Expired w o j

/-- After the loop, when nothing was moved. -/
structure Stopped (ds : List Delivery) (t : Trace) (site : Site) (declined : List Delivery) : Prop where
  held : site.held = declined.map (o.queue, ·)
  declined : declined.Sublist ds
  count : pulls t ≤ ds.length + 1
  unsent : sent t = []
  unreached : ¬Reaches w o ds.length

variable {w o} {ds : List Delivery} {i n : ℕ} {t t' : Trace} {site site' : Site} {s : State}

theorem Waiting.unreached (h : Waiting w o ds i n t site s)
    (hend : i = ds.length ∨ Expired w o i) : ¬Reaches w o ds.length := by
  rintro ⟨k, hk, hpasses, htime⟩
  rcases lt_or_ge k i with hki | hik
  · exact (h.passed k hki).1 hpasses
  · rcases hend with rfl | hexpired
    · omega
    · exact htime i hik hexpired

/-- The loop may end between two rounds, or right after a pull that finds nothing. -/
theorem Waiting.stop (h : Waiting w o ds i n t site s) (hend : i = ds.length ∨ Expired w o i)
    (hheld : site'.held = site.held) (hpulls : pulls t' ≤ 1) (hsent : sent t' = []) :
    Stopped w o ds (t ++ t') site' s.declined where
  held := by rw [hheld, h.held, h.declined]
  declined := by
    rw [h.declined]
    exact ds.take_sublist i
  count := by
    have hbound := h.bound
    rw [pulls_append, h.count]
    omega
  unsent := by rw [sent_append, h.unsent, hsent, List.append_nil]
  unreached := h.unreached hend

/-- A message that the filter passes over is held back with the others. -/
theorem Waiting.decline (h : Waiting w o ds i n t site s) (hi : i < ds.length)
    (hpasses : ¬Passes w o i) (hexpired : ¬Expired w o i)
    (hready : site'.ready o.queue = ds.drop (i + 1))
    (hheld : site'.held = site.held ++ [(o.queue, ds[i])]) (hlooked : site'.looked = site.looked)
    (hasked : site'.asked = site.asked + 1) (hpulls : pulls t' = 1) (hsent : sent t' = []) :
    Waiting w o ds (i + 1) n (t ++ t') site'
      ⟨s.moved, s.skipped + 1, s.declined ++ [ds[i]]⟩ where
  ready := hready
  held := by
    rw [hheld, h.held, ← List.take_concat_get' ds i hi, List.map_append]
    rfl
  declined := by
    rw [← List.take_concat_get' ds i hi, ← h.declined]
  moved := h.moved
  looked := by
    rw [hlooked]
    exact h.looked
  asked := by
    intro hfiltered
    rw [hasked, h.asked hfiltered]
  count := by rw [pulls_append, h.count, hpulls]
  unsent := by rw [sent_append, h.unsent, hsent, List.append_nil]
  bound := hi
  passed := by
    intro j hj
    rcases Nat.lt_succ_iff_lt_or_eq.mp hj with hj | rfl
    · exact h.passed j hj
    · exact ⟨hpasses, hexpired⟩

/-- The clock was read, and the deadline is not over. -/
theorem Waiting.clock (h : Waiting w o ds i n t site s) (time : ℚ) :
    Waiting w o ds i (n + 1) (t ++ [⟨.clock, time⟩]) { site with looked := site.looked + 1 } s where
  ready := h.ready
  held := h.held
  declined := h.declined
  moved := h.moved
  looked := by
    intro hdeadline
    rw [h.looked hdeadline]
  asked := h.asked
  count := by
    rw [pulls_append, h.count]
    rfl
  unsent := by
    rw [sent_append, h.unsent]
    rfl
  bound := h.bound
  passed := h.passed

theorem answer_pull_nil {queue : String} (h : site.ready queue = []) :
    w.answer site (.pull queue) = (.ok none, site) := by
  simp only [World.answer, h]

theorem answer_pull_cons {queue : String} {d : Delivery} {rest : List Delivery}
    (h : site.ready queue = d :: rest) :
    w.answer site (.pull queue) = (.ok (some d), { site with
      ready := Function.update site.ready queue rest
      held := site.held ++ [(queue, d)] }) := by
  simp only [World.answer, h]

theorem sent_published {d : Delivery} {id : String} {read at_ : Instant} {asked : Trace}
    {e : Envelope} {answer : BrokerAnswer} (hexchange : o.exchange = "")
    (hkey : o.routingKey = none) (hd : d.routingKey = o.queue) (rest : Trace) :
    ("", o.queue) ∈ sent (published o d id read asked at_ e answer ++ rest) := by
  refine List.mem_filterMap.mpr ⟨⟨.publish o.exchange (o.routingKey.getD d.routingKey)
    (goingBack o d e at_), answer⟩, ?_, ?_⟩
  · simp [published]
  · rw [sent?, hexchange, hkey, Option.getD_none, hd]

/-- What a round was handed by the pull. -/
theorem Pulls.answered {x : Except Raised (State ⊕ ReplayResult)} (hx : Pulls o s t' x)
    (hfollows : Follows w.answer site t' site') :
    ∃ rest, t' = ⟨.pull o.queue, (w.answer site (.pull o.queue)).1⟩ :: rest ∧
      Follows w.answer (w.answer site (.pull o.queue)).2 rest site' := by
  have hhead : ∀ {answer rest}, t' = ⟨.pull o.queue, answer⟩ :: rest →
      ∃ rest, t' = ⟨.pull o.queue, (w.answer site (.pull o.queue)).1⟩ :: rest ∧
        Follows w.answer (w.answer site (.pull o.queue)).2 rest site' := by
    rintro answer rest rfl
    obtain ⟨hanswer, hrest⟩ := hfollows
    exact ⟨rest, by rw [hanswer], hrest⟩
  cases hx with
  | failed | drained | unreadable | raised | declined => exact hhead rfl
  | moved | unacked | refused => exact hhead rfl

/-- A message that a round moves is one the filter passes. -/
theorem Waiting.passes (h : Waiting w o ds i n t site s) {d : Delivery} {id : String}
    {read : Instant} {e : Envelope} {asked rest last : Trace} (hasked : Asked o e d asked)
    {after : Site}
    (hfollows : Follows w.answer site' ([⟨.fresh, id⟩, ⟨.now, read⟩] ++ asked ++ rest ++ last) after)
    (hsite : site'.asked = site.asked) : Passes w o i := by
  intro hfiltered
  rcases hasked with ⟨hunfiltered, -⟩ | ⟨-, rfl⟩
  · rw [hfiltered] at hunfiltered
    cases hunfiltered
  · obtain ⟨-, -, hanswer, -⟩ := hfollows
    have hwanted : w.wanted site'.asked = true := Except.ok.inj hanswer
    rwa [hsite, h.asked hfiltered] at hwanted

/-- One round from the pull on: the message at hand goes back onto the queue,
or it is held back, or there is none. -/
theorem Waiting.pulled (h : Waiting w o ds i n t site s) (hexchange : o.exchange = "")
    (hkey : o.routingKey = none)
    (hds : ∀ d ∈ ds, d.routingKey = o.queue ∧ Envelope.readable d.headers = true)
    (hexpired : ¬Expired w o i) {x : Except Raised (State ⊕ ReplayResult)} (hx : Pulls o s t' x)
    (hfollows : Follows w.answer site t' site') :
    (("", o.queue) ∈ sent t' ∧ i < ds.length ∧ Passes w o i) ∨
      onEnd x (Sum.elim (Waiting w o ds (i + 1) n (t ++ t') site')
        fun _ ↦ Stopped w o ds (t ++ t') site' s.declined) fun _ ↦ False := by
  obtain ⟨rest, hpull, hrest⟩ := hx.answered hfollows
  rcases h.bound.eq_or_lt with hi | hi
  · have hready : site.ready o.queue = [] := by rw [h.ready, hi, List.drop_length]
    rw [answer_pull_nil hready] at hpull hrest
    cases hx with
    | drained =>
        obtain rfl : [] = rest := (List.cons.inj hpull).2
        obtain rfl := hrest
        exact .inr (h.stop (.inl hi) rfl (by simp [pulls, isPull]) (by simp [sent, sent?]))
    | failed | unreadable | raised | declined => cases hpull
    | moved | unacked | refused => cases hpull
  · have hd := hds ds[i] (List.getElem_mem hi)
    have hready : site.ready o.queue = ds[i] :: ds.drop (i + 1) := by
      rw [h.ready, List.drop_eq_getElem_cons hi]
    rw [answer_pull_cons hready] at hpull hrest
    cases hx with
    | failed | drained => cases hpull
    | unreadable hunreadable =>
        obtain ⟨hevent, -⟩ := List.cons.inj hpull
        cases hevent
        rw [hd.2] at hunreadable
        cases hunreadable
    | raised =>
        obtain ⟨hevent, rfl⟩ := List.cons.inj hpull
        obtain ⟨-, -, hraised, -⟩ := hrest
        cases hraised
    | @declined d id read e _ hfiltered =>
        obtain ⟨hevent, rfl⟩ := List.cons.inj hpull
        cases hevent
        obtain ⟨-, -, hanswer, rfl⟩ := hrest
        have hwanted : w.wanted site.asked = false := Except.ok.inj hanswer
        refine .inr (h.decline hi ?_ hexpired (Function.update_self ..) rfl rfl rfl ?_ ?_)
        · intro hpasses
          rw [← h.asked hfiltered, Passes, hwanted] at hpasses
          cases hpasses hfiltered
        · rfl
        · rfl
    | moved _ hasked | unacked _ hasked | refused _ hasked =>
        obtain ⟨hevent, rfl⟩ := List.cons.inj hpull
        cases hevent
        exact .inl ⟨sent_published hexchange hkey hd.1 _, hi, h.passes hasked hrest rfl⟩

/-- A message went back onto the queue that is being drained. -/
def Circles (w : World) (o : Options) (n : ℕ) (t : Trace) : Prop :=
  ("", o.queue) ∈ sent t ∧ Reaches w o n

theorem Circles.append {n : ℕ} (h : Circles w o n t) : Circles w o n (t ++ t') := by
  refine ⟨?_, h.2⟩
  rw [sent_append]
  exact List.mem_append_left _ h.1

/-- Where a round leaves the loop: it circles, or it goes on, or it stops. -/
def Leaves (w : World) (o : Options) (ds : List Delivery) (i : ℕ) (t : Trace) (site : Site)
    (held : List Delivery) (x : Except Raised (State ⊕ ReplayResult)) : Prop :=
  Circles w o ds.length t ∨
    onEnd x (Sum.elim (Waiting w o ds (i + 1) (i + 2) t site) fun _ ↦ Stopped w o ds t site held)
      fun _ ↦ False

section round

variable (hexchange : o.exchange = "") (hkey : o.routingKey = none)
  (hds : ∀ d ∈ ds, d.routingKey = o.queue ∧ Envelope.readable d.headers = true)

include hexchange hkey hds

theorem Waiting.leaves (h : Waiting w o ds i (i + 2) t site s) (hexpired : ¬∃ j ≤ i, Expired w o j)
    {x : Except Raised (State ⊕ ReplayResult)} (hx : Pulls o s t' x)
    (hfollows : Follows w.answer site t' site') :
    Leaves w o ds i (t ++ t') site' s.declined x := by
  rcases h.pulled hexchange hkey hds (fun h ↦ hexpired ⟨i, le_rfl, h⟩) hx hfollows with
    ⟨hsent, hi, hpasses⟩ | hend
  · refine .inl ⟨?_, i, hi, hpasses, fun j hj hexp ↦ hexpired ⟨j, hj, hexp⟩⟩
    rw [sent_append]
    exact List.mem_append_right _ hsent
  · exact .inr hend

theorem round_leaves (h : Waiting w o ds i (i + 1) t site s) :
    (round o (o.deadline.map (w.looks 0 + ·)) s).Always Answered fun t' x ↦
      ∀ site', Follows w.answer site t' site' → Leaves w o ds i (t ++ t') site' s.declined x := by
  have hlimit : ¬(0 < o.limit ∧ o.limit ≤ s.moved) := by
    rw [h.moved]
    rintro ⟨hpositive, hle⟩
    exact absurd hpositive (not_lt.mpr hle)
  have hearlier : ∀ j ≤ i, Expired w o j → Expired w o i := by
    intro j hj hexpired
    rcases hj.eq_or_lt with rfl | hj
    · exact hexpired
    · exact absurd hexpired (h.passed j hj).2
  unfold round
  rw [if_neg hlimit]
  cases hdeadline : o.deadline with
  | none =>
      have hnever : ¬∃ j ≤ i, Expired w o j := by
        rintro ⟨j, -, d, hd, -⟩
        rw [hdeadline] at hd
        cases hd
      have h' : Waiting w o ds i (i + 2) t site s := { h with looked := by simp [hdeadline] }
      refine pullOne_spec.mono fun t' x hx site' hfollows ↦ ?_
      exact h'.leaves hexchange hkey hds hnever hx hfollows
  | some d =>
      rw [Option.map_some]
      dsimp only
      rw [bind_eq, always_bind, always_clock]
      intro time
      have hover : w.looks 0 + d ≤ w.looks (i + 1) ↔ Expired w o i := by
        constructor
        · exact fun hle ↦ ⟨d, hdeadline, hle⟩
        · rintro ⟨d', hd', hle⟩
          obtain rfl := Option.some.inj (hdeadline.symm.trans hd')
          exact hle
      have hread : site.looked = i + 1 := h.looked (by rw [hdeadline]; rfl)
      rw [onEnd_ok]
      split
      case isTrue hle =>
        intro site' hfollows
        obtain ⟨htime, rfl⟩ := hfollows
        obtain rfl : w.looks site.looked = time := htime
        rw [hread, hover] at hle
        exact .inr (h.stop (.inr hle) rfl (by simp [pulls, isPull]) (by simp [sent, sent?]))
      case isFalse hle =>
        refine pullOne_spec.mono fun t' x hx site' hfollows ↦ ?_
        obtain ⟨htime, hfollows⟩ := hfollows
        obtain rfl : w.looks site.looked = time := htime
        rw [hread, hover] at hle
        have hleaves := (h.clock (w.looks site.looked)).leaves hexchange hkey hds
          (fun ⟨j, hj, hexpired⟩ ↦ hle (hearlier j hj hexpired)) hx hfollows
        rwa [List.append_assoc] at hleaves

theorem guardedRound_leaves (h : Waiting w o ds i (i + 1) t site s) :
    (guardedRound o (o.deadline.map (w.looks 0 + ·)) s).Always Answered fun t' x ↦
      ∀ site', Follows w.answer site t' site' → Circles w o ds.length (t ++ t') ∨
        onEnd x (Sum.elim (Waiting w o ds (i + 1) (i + 2) (t ++ t') site')
          fun left ↦ Stopped w o ds (t ++ t') site' left.1) fun _ ↦ False := by
  rw [guardedRound, always_rescue, always_bind]
  refine (round_leaves hexchange hkey hds h).mono ?_
  rintro t' (e | s' | r) hx
  · intro site' hfollows
    rw [List.append_nil] at hfollows ⊢
    exact (hx site' hfollows).imp_right False.elim
  · intro site' hfollows
    rw [List.append_nil] at hfollows ⊢
    exact hx site' hfollows
  · intro site' hfollows
    rw [List.append_nil] at hfollows ⊢
    exact hx site' hfollows

/-- The loop ran out of rounds, which takes one for each message, or it stopped. -/
def Ended (w : World) (o : Options) (ds : List Delivery) (fuel : ℕ) (t : Trace) (site : Site) :
    Option (List Delivery × Except Raised ReplayResult) → Prop
  | none => fuel ≤ ds.length
  | some (held, _) => Stopped w o ds t site held

theorem loop_leaves (fuel : ℕ) {start : Site}
    (h : ∀ site, Follows w.answer start t site → Waiting w o ds 0 1 t site s) :
    (Program.iterate (guardedRound o (o.deadline.map (w.looks 0 + ·))) fuel s).Always Answered
      fun t' x ↦ ∀ site', Follows w.answer start (t ++ t') site' →
        Circles w o ds.length (t ++ t') ∨
          onEnd x (Ended w o ds fuel (t ++ t') site') fun _ ↦ False := by
  refine always_iterate_counted
    (fun i t s ↦ ∀ site, Follows w.answer start t site →
      Circles w o ds.length t ∨ Waiting w o ds i (i + 1) t site s)
    (Q := fun t x ↦ ∀ site', Follows w.answer start t site' →
      Circles w o ds.length t ∨ onEnd x (Ended w o ds fuel t site') fun _ ↦ False)
    ?_ fuel 0 t s (fun site hsite ↦ .inr (h site hsite)) ?_
  · intro i t s hinv
    refine always_iff_runs.mpr fun t' x hrun ↦ ?_
    have hout : ∀ site', Follows w.answer start (t ++ t') site' →
        Circles w o ds.length (t ++ t') ∨
          onEnd x (Sum.elim (Waiting w o ds (i + 1) (i + 2) (t ++ t') site')
            fun left ↦ Stopped w o ds (t ++ t') site' left.1) fun _ ↦ False := by
      intro site' hfollows
      obtain ⟨between, hbefore, hafter⟩ := follows_append.mp hfollows
      rcases hinv between hbefore with hcircles | hwaiting
      · exact .inl hcircles.append
      · exact always_iff_runs.mp (guardedRound_leaves hexchange hkey hds hwaiting) t' x hrun site' hafter
    rcases x with e | s' | ⟨held, outcome⟩
    · exact hout
    · exact hout
    · exact hout
  · intro t s hinv site' hfollows
    refine (hinv site' hfollows).imp_right fun hwaiting ↦ ?_
    have hbound := hwaiting.bound
    rwa [Nat.zero_add] at hbound

end round

/-! ## After the loop -/

/-- Nothing that happens after the loop is a pull or a publish. -/
theorem Returns.silent {held : List Delivery} (h : Returns held t) : pulls t = 0 ∧ sent t = [] := by
  obtain ⟨-, hclosing, -⟩ := h
  constructor
  · rw [pulls, List.countP_eq_zero]
    rintro ⟨q, r⟩ he
    have hq := hclosing _ he
    cases q with
    | pull => cases hq
    | _ => simp [isPull]
  · rw [sent, List.filterMap_eq_nil_iff]
    rintro ⟨q, r⟩ he
    have hq := hclosing _ he
    cases q with
    | publish => cases hq
    | _ => rfl

/-- Returning what is held shows it on the queue again. -/
theorem returned_shows {queue : String} (held : List Delivery) (hnodup : (held.map (·.tag)).Nodup)
    (hheld : site.held = held.map (queue, ·))
    (ht : t.map Sigma.fst = held.map fun d ↦ .nack d.tag true)
    (hfollows : Follows w.answer site t site') :
    (site'.ready queue).length = (site.ready queue).length + held.length := by
  induction held generalizing site t with
  | nil =>
      obtain rfl := List.map_eq_nil_iff.mp ht
      obtain rfl := hfollows
      rfl
  | cons d held ih =>
      obtain ⟨⟨q, r⟩, rest, rfl, hq, hrest⟩ := List.map_eq_cons_iff.mp ht
      obtain rfl : q = .nack d.tag true := hq
      obtain ⟨-, hfollows⟩ := hfollows
      rw [List.map_cons, List.nodup_cons] at hnodup
      have hother : ∀ d' ∈ held, d'.tag ≠ d.tag := by
        intro d' hd' htag
        exact hnodup.1 (htag ▸ List.mem_map_of_mem hd')
      have hback : site.held.filter (fun p ↦ p.2.tag = d.tag ∧ true) = [(queue, d)] := by
        rw [hheld, List.map_cons, List.filter_cons_of_pos (by simp), List.filter_eq_nil_iff.mpr]
        intro p hp
        obtain ⟨d', hd', rfl⟩ := List.mem_map.mp hp
        simpa using hother d' hd'
      have hkept : site.held.filter (fun p ↦ p.2.tag ≠ d.tag) = held.map (queue, ·) := by
        rw [hheld, List.map_cons, List.filter_cons_of_neg (by simp), List.filter_eq_self]
        intro p hp
        obtain ⟨d', hd', rfl⟩ := List.mem_map.mp hp
        simpa using hother d' hd'
      rw [ih hnodup.2 hkept hrest hfollows]
      have hshown : ((w.answer site (.nack d.tag true)).2.ready queue).length =
          (site.ready queue).length + 1 := by
        have hready : (w.answer site (.nack d.tag true)).2.ready queue =
            ((site.held.filter fun p ↦ p.2.tag = d.tag ∧ true).filter (·.1 = queue)).map (·.2) ++
              site.ready queue := rfl
        rw [hready, hback]
        simp [Nat.add_comm]
      rw [hshown, List.length_cons]
      omega

theorem returnDeclined_shows {fuel : ℕ} (hfuel : 0 < fuel) {held : List Delivery}
    (hnodup : (held.map (·.tag)).Nodup) (hheld : site.held = held.map (o.queue, ·)) :
    (returnDeclined o fuel held).Always Answered fun t x ↦
      ∀ site', Follows w.answer site t site' → x = .ok (some ()) := by
  obtain ⟨fuel, rfl⟩ := Nat.exists_eq_succ_of_ne_zero hfuel.ne'
  rw [returnDeclined]
  split
  case isTrue => exact fun _ _ ↦ rfl
  case isFalse =>
    rw [bind_eq, always_bind]
    apply depth_spec
    intro answer
    rw [onEnd_ok, bind_eq, always_bind]
    refine (nackAll_spec held).mono ?_
    rintro t x ⟨-, hasked, rfl⟩
    rw [onEnd_ok]
    cases answer with
    | error f => exact fun _ _ ↦ rfl
    | ok before =>
        rw [Except.toOption]
        dsimp only
        split
        · exact fun _ _ ↦ rfl
        · rw [bind_eq, always_bind, always_clock]
          intro time
          rw [onEnd_ok, awaitReturned, iterate, always_bind, awaitRound, bind_eq, always_bind]
          apply depth_spec
          intro answer
          rw [onEnd_ok]
          cases answer with
          | error f => exact fun _ _ ↦ rfl
          | ok n =>
              rw [Except.toOption]
              dsimp only
              split
              case isTrue => exact fun _ _ ↦ rfl
              case isFalse hshort =>
                -- The queue shows all of them at the first look, so this does not happen.
                have hnever : ∀ rest site', ¬Follows w.answer site
                    ([⟨.messageCount o.queue, .ok before⟩] ++ (t ++ ([⟨.clock, time⟩] ++
                      ([⟨.messageCount o.queue, .ok n⟩] ++ rest)))) site' := by
                  rintro rest site' ⟨hbefore, hfollows⟩
                  obtain ⟨between, hreturned, -, hafter, -⟩ := (follows_append (t := t)).mp hfollows
                  have hcount := returned_shows held hnodup hheld hasked hreturned
                  have hbefore : (site.ready o.queue).length = before := Except.ok.inj hbefore
                  have hafter : (between.ready o.queue).length = n := Except.ok.inj hafter
                  omega
                refine always_iff_runs.mpr fun t' x _ ↦ ?_
                cases x with
                | ok a =>
                    refine always_iff_runs.mpr fun t'' y _ site' hfollows ↦ ?_
                    exact absurd hfollows (hnever (t' ++ t'') site')
                | error e => exact fun site' hfollows ↦ absurd hfollows (hnever t' site')

/-! ## The whole replay -/

/-- Either a message went back onto the queue, or the replay ended having moved nothing. -/
def Settles (w : World) (o : Options) (n fuel : ℕ) (t : Trace)
    (x : Except Raised (Option ReplayResult)) : Prop :=
  Circles w o n t ∨ (x = .ok none ∧ fuel ≤ n) ∨
    (x ≠ .ok none ∧ pulls t ≤ n + 1 ∧ sent t = [] ∧ ¬Reaches w o n)

theorem passes_settles (hexchange : o.exchange = "") (hkey : o.routingKey = none)
    (hds : ∀ d ∈ ds, d.routingKey = o.queue ∧ Envelope.readable d.headers = true)
    (hnodup : (ds.map (·.tag)).Nodup) (fuel : ℕ) {start : Site}
    (h : ∀ site, Follows w.answer start t site → Waiting w o ds 0 1 t site ⟨0, 0, []⟩) :
    (passes o fuel (o.deadline.map (w.looks 0 + ·))).Always Answered fun t' x ↦
      ∀ site', Follows w.answer start (t ++ t') site' → Settles w o ds.length fuel (t ++ t') x := by
  rw [passes, bind_eq, always_bind]
  refine always_iff_runs.mpr fun t' x hrun ↦ ?_
  have hleaves := always_iff_runs.mp (loop_leaves hexchange hkey hds fuel h) t' x hrun
  rcases x with e | _ | ⟨held, outcome⟩
  · intro site' hfollows
    exact .inl ((hleaves site' hfollows).resolve_right id)
  · intro site' hfollows
    rw [List.append_nil] at hfollows ⊢
    exact (hleaves site' hfollows).imp_right fun hfuel ↦ .inl ⟨rfl, hfuel⟩
  · have hfuel : 0 < fuel := by
      by_contra hzero
      obtain rfl : fuel = 0 := by omega
      cases hrun
    rw [onEnd_ok]
    dsimp only
    rw [bind_eq, always_bind]
    refine always_iff_runs.mpr fun t'' y hreturn ↦ ?_
    obtain ⟨hreturns, done, rfl⟩ :=
      always_iff_runs.mp (returnDeclined_spec fuel held) t'' y hreturn
    obtain ⟨hpulls, hsent⟩ := hreturns.silent
    -- Either way out of the loop, with what followed it.
    have hcases : ∀ site', Follows w.answer start (t ++ (t' ++ (t'' ++ []))) site' →
        Circles w o ds.length (t ++ (t' ++ (t'' ++ []))) ∨
          done = some () ∧ pulls (t ++ (t' ++ (t'' ++ []))) ≤ ds.length + 1 ∧
            sent (t ++ (t' ++ (t'' ++ []))) = [] ∧ ¬Reaches w o ds.length := by
      intro site' hfollows
      rw [List.append_nil, ← List.append_assoc] at hfollows ⊢
      obtain ⟨between, hloop, hclosing⟩ := follows_append.mp hfollows
      rcases hleaves between hloop with hcircles | hstopped
      · exact .inl hcircles.append
      · have hstopped : Stopped w o ds (t ++ t') between held := hstopped
        have hshows := always_iff_runs.mp (returnDeclined_shows hfuel
          (hnodup.sublist (hstopped.declined.map _)) hstopped.held) t'' _ hreturn site' hclosing
        refine .inr ⟨Except.ok.inj hshows, ?_, ?_, hstopped.unreached⟩
        · rw [pulls_append, hpulls]
          exact hstopped.count
        · rw [sent_append, hsent, hstopped.unsent, List.append_nil]
    cases done with
    | none =>
        intro site' hfollows
        rcases hcases site' hfollows with hcircles | ⟨hdone, -⟩
        · exact .inl hcircles
        · cases hdone
    | some u =>
        cases outcome with
        | ok result =>
            intro site' hfollows
            exact (hcases site' hfollows).imp_right fun h ↦ .inr ⟨by simp, h.2⟩
        | error e =>
            intro site' hfollows
            exact (hcases site' hfollows).imp_right fun h ↦ .inr ⟨by simp, h.2⟩

theorem replay_settles (hexchange : o.exchange = "") (hkey : o.routingKey = none)
    (hqueue : o.queue ≠ "") (hwait : ¬o.returnWait < 0)
    (hds : ∀ d ∈ ds, d.routingKey = o.queue ∧ Envelope.readable d.headers = true)
    (hnodup : (ds.map (·.tag)).Nodup) (fuel : ℕ) {start : Site}
    (hready : start.ready o.queue = ds) (hheld : start.held = []) (hlooked : start.looked = 0)
    (hasked : start.asked = 0) :
    (replay o fuel).Always Answered fun t x ↦
      ∀ site', Follows w.answer start t site' → Settles w o ds.length fuel t x := by
  have hwaiting : ∀ n, (o.deadline.isSome = true → n = 0) →
      Waiting w o ds 0 n [] start ⟨0, 0, []⟩ := by
    intro n hn
    exact
      { ready := by rw [hready, List.drop_zero]
        held := by rw [hheld, List.take_zero, List.map_nil]
        declined := List.take_zero.symm
        moved := rfl
        looked := fun hdeadline ↦ by rw [hlooked, hn hdeadline]
        asked := fun _ ↦ hasked
        count := rfl
        unsent := rfl
        bound := Nat.zero_le _
        passed := fun j hj ↦ absurd hj (Nat.not_lt_zero j) }
  rw [replay, if_neg hqueue, if_neg hwait]
  cases hdeadline : o.deadline with
  | none =>
      have hpasses := passes_settles (w := w) (t := []) hexchange hkey hds hnodup fuel
        fun site (hsite : start = site) ↦ hsite ▸ hwaiting 1 (by simp [hdeadline])
      rw [hdeadline] at hpasses
      exact hpasses
  | some d =>
      dsimp only
      rw [bind_eq, always_bind, always_clock]
      intro time
      rw [onEnd_ok]
      by_cases htime : w.looks start.looked = time
      · have hstart : ∀ site, Follows w.answer start ([⟨.clock, time⟩] : Trace) site →
            Waiting w o ds 0 1 [⟨.clock, time⟩] site ⟨0, 0, []⟩ := by
          rintro site ⟨-, rfl⟩
          exact (hwaiting 0 fun _ ↦ rfl).clock time
        have hpasses := passes_settles hexchange hkey hds hnodup fuel hstart
        rw [hdeadline, Option.map_some, ← hlooked, htime] at hpasses
        exact hpasses
      · exact always_iff_runs.mpr fun t x _ site' hfollows ↦ absurd hfollows.1 htime

/-! ## Staged messages -/

section staged

variable {queue : String} {messages : List Outbound}

theorem length_staged : (staged queue messages).length = messages.length := List.length_mapIdx

theorem map_tag_staged : (staged queue messages).map (·.tag) = List.range messages.length := by
  apply List.ext_getElem
  · simp [staged]
  · intro i hi hi'
    simp [staged, arrive]

theorem mem_staged {d : Delivery} (h : d ∈ staged queue messages) :
    d.tag < messages.length ∧ d.routingKey = queue ∧ ∃ m ∈ messages, d.headers = m.headers := by
  obtain ⟨i, hi, rfl⟩ := List.mem_mapIdx.mp h
  exact ⟨hi, rfl, _, List.getElem_mem hi, rfl⟩

end staged

/-- Every message on the broker has one of the first `n` numbers. -/
def Numbered (n : ℕ) (site : Site) : Prop :=
  (∀ queue, ∀ d ∈ site.ready queue, d.tag < n) ∧ ∀ p ∈ site.held, p.2.tag < n

/-- Only a publish brings a message that was not there. -/
theorem Numbered.answer {n : ℕ} {q : Act} (hq : ∀ exchange key message, q ≠ .publish exchange key message)
    (h : Numbered n site) : Numbered n (w.answer site q).2 := by
  obtain ⟨hready, hheld⟩ := h
  cases q with
  | publish exchange key message => exact absurd rfl (hq exchange key message)
  | clock | now | fresh | only | messageCount | sleep => exact ⟨hready, hheld⟩
  | ack tag => exact ⟨hready, fun p hp ↦ hheld p (List.mem_of_mem_filter hp)⟩
  | pull queue =>
      cases hqueue : site.ready queue with
      | nil =>
          rw [answer_pull_nil hqueue]
          exact ⟨hready, hheld⟩
      | cons d rest =>
          have hd : ∀ d' ∈ d :: rest, d'.tag < n := hqueue ▸ hready queue
          rw [answer_pull_cons hqueue]
          refine ⟨fun queue' d' hd' ↦ ?_, fun p hp ↦ ?_⟩
          · replace hd' : d' ∈ Function.update site.ready queue rest queue' := hd'
            by_cases hsame : queue' = queue
            · subst hsame
              rw [Function.update_self] at hd'
              exact hd d' (List.mem_cons_of_mem _ hd')
            · rw [Function.update_of_ne hsame] at hd'
              exact hready queue' d' hd'
          · rcases List.mem_append.mp hp with hp | hp
            · exact hheld p hp
            · obtain rfl := List.mem_singleton.mp hp
              exact hd d List.mem_cons_self
  | nack tag requeue =>
      refine ⟨fun queue d hd ↦ ?_, fun p hp ↦ hheld p (List.mem_of_mem_filter hp)⟩
      rcases List.mem_append.mp hd with hd | hd
      · obtain ⟨p, hp, rfl⟩ := List.mem_map.mp hd
        exact hheld p (List.mem_of_mem_filter (List.mem_of_mem_filter hp))
      · exact hready queue d hd

theorem numbered_start {queue : String} {messages : List Outbound} :
    Numbered messages.length (.start queue messages) := by
  refine ⟨fun queue' d hd ↦ ?_, fun p hp ↦ absurd hp List.not_mem_nil⟩
  replace hd : d ∈ Function.update (fun _ ↦ []) queue (staged queue messages) queue' := hd
  by_cases hsame : queue' = queue
  · subst hsame
    rw [Function.update_self] at hd
    exact (mem_staged hd).1
  · rw [Function.update_of_ne hsame] at hd
    exact absurd hd List.not_mem_nil

theorem deadLetterQueue_ne (queue : String) : deadLetterQueue queue ≠ queue := by
  intro h
  have hlength := congrArg String.length h
  simp [deadLetterQueue] at hlength

theorem parkedQueue_ne (queue : String) : parkedQueue queue ≠ queue := by
  intro h
  have hlength := congrArg String.length h
  simp [parkedQueue] at hlength

/-- A replay of readable messages puts them back on another queue exactly when it moves none. -/
theorem putsBack_iff {w : World} {o : Options} {queue : String} {messages : List Outbound}
    (hne : o.queue ≠ queue) (hqueue : o.queue ≠ "") (hexchange : o.exchange = "")
    (hkey : o.routingKey = none) (hwait : 0 ≤ o.returnWait)
    (hmessages : ∀ message ∈ messages, Envelope.readable message.headers = true) :
    PutsBack w o queue messages ↔ ¬Reaches w o messages.length := by
  have hds : ∀ d ∈ staged o.queue messages,
      d.routingKey = o.queue ∧ Envelope.readable d.headers = true := by
    intro d hd
    obtain ⟨-, hroute, message, hmem, hheaders⟩ := mem_staged hd
    rw [hheaders]
    exact ⟨hroute, hmessages message hmem⟩
  have hnodup : ((staged o.queue messages).map (·.tag)).Nodup := by
    rw [map_tag_staged]
    exact List.nodup_range
  have hsettles : ∀ fuel t x site,
      (replay o fuel).interp w.answer (.start o.queue messages) = ((t, x), site) →
        Settles w o messages.length fuel t x := by
    intro fuel t x site hrun
    have hruns := runs_interp (answer_answered w) (replay o fuel) (.start o.queue messages)
    have hfollows := interp_follows (h := w.answer) (replay o fuel) (.start o.queue messages)
    have hready : (Site.start o.queue messages).ready o.queue = staged o.queue messages := by
      simp [Site.start]
    have hall := replay_settles (w := w) hexchange hkey hqueue (not_lt.mpr hwait) hds hnodup fuel
      hready rfl rfl rfl
    rw [hrun] at hruns hfollows
    rw [length_staged] at hall
    exact always_iff_runs.mp hall t x hruns site hfollows
  constructor
  · rintro ⟨fuel, t, x, site, hrun, hended, -, hsent, -⟩
    rcases hsettles fuel t x site hrun with ⟨hcircles, -⟩ | ⟨hx, -⟩ | ⟨-, -, -, hunreached⟩
    · have hback := hsent _ hcircles
      exact absurd (Prod.mk.inj hback).2 hne
    · exact absurd hx hended
    · exact hunreached
  · intro hunreached
    obtain ⟨⟨⟨t, x⟩, site⟩, hrun⟩ : ∃ run, (replay o (messages.length + 1)).interp w.answer
      (.start o.queue messages) = run := ⟨_, rfl⟩
    rcases hsettles _ t x site hrun with ⟨-, hreached⟩ | ⟨-, hfuel⟩ | ⟨hended, hpulls, hsent, -⟩
    · exact absurd hreached hunreached
    · omega
    · refine ⟨_, t, x, site, hrun, hended, hpulls, by simp [hsent], ?_⟩
      have hfollows := interp_follows (h := w.answer) (replay o (messages.length + 1))
        (.start o.queue messages)
      rw [hrun] at hfollows
      refine (hfollows.invariant (Numbered messages.length) (fun event hevent site ↦ ?_)
        numbered_start).1 o.queue
      refine Numbered.answer fun exchange key message hpublish ↦ ?_
      have hmem : (exchange, key) ∈ sent t := by
        refine List.mem_filterMap.mpr ⟨event, hevent, ?_⟩
        obtain ⟨q, r⟩ := event
        obtain rfl : q = .publish exchange key message := hpublish
        rfl
      rw [hsent] at hmem
      exact absurd hmem List.not_mem_nil

/-- A replay to the default destination of what the consumer of `queue` set
aside puts everything it moves back on `queue`, and ends, exactly when it
reaches no message that it would move. -/
theorem replay_puts_back_iff (w : World) (o : Options) (queue : String) (messages : List Outbound)
    (htarget : o.queue = deadLetterQueue queue ∨ o.queue = parkedQueue queue)
    (hexchange : o.exchange = "") (hkey : o.routingKey = none) (hwait : 0 ≤ o.returnWait)
    (hmessages : ∀ message ∈ messages, Consumer.SetAside queue o.queue message) :
    PutsBack w o queue messages ↔ ¬Reaches w o messages.length := by
  have hne : o.queue ≠ queue ∧ o.queue ≠ "" := by
    rcases htarget with h | h
    · rw [h]
      exact ⟨deadLetterQueue_ne queue, by simp [deadLetterQueue]⟩
    · rw [h]
      exact ⟨parkedQueue_ne queue, by simp [parkedQueue]⟩
  apply putsBack_iff hne.1 hne.2 hexchange hkey hwait
  exact fun message hmessage ↦ (hmessages message hmessage).readable

/-! ## One rejected message -/

/-- The delivery of the queue `orders` whose handler rejects it. -/
def rejectedDelivery : Delivery := ⟨7, [104, 105], none, "orders", "m1", ∅, false, ""⟩

/-- The copy that the consumer puts on `orders.dlq`. -/
def rejectedCopy : Outbound :=
  Consumer.hop rejectedDelivery ((Envelope.new "m1" "orders" 0).withError
    "the handler rejected it: no reason given")

/-- The clocks stand still, and the filter says what it says. -/
def World.still (wanted : Bool) : World where
  looks := fun _ ↦ 0
  wanted := fun _ ↦ wanted
  now := fun _ ↦ 0
  fresh := fun _ ↦ "f1"
  dated := by
    intro site
    rw [millis_zero, fromMillis_zero]
    rfl

theorem rejectedCopy_setAside : Consumer.SetAside "orders" "orders.dlq" rejectedCopy := by
  let c : Consumer := ⟨⟨5000000, 1000⟩, "orders", fixedRetry 3 0, false⟩
  let e := Envelope.new "m1" "orders" 0
  have hdated : (fromMillis (millis e.firstSeen)).isSome = true := by
    show (fromMillis (millis 0)).isSome = true
    rw [millis_zero, fromMillis_zero]
    rfl
  let t : List (Event (Consumer.Broker Unit)) :=
    [⟨.decode rejectedDelivery.body none, .ok ()⟩,
      ⟨.invoke ⟨"orders", e, (), rejectedDelivery.body, none, "orders", false, ""⟩,
        (e, .ok (.ack (.reject none)))⟩,
      ⟨.publish "" "orders.dlq" rejectedCopy, .answered ⟨"m1", true, true, ""⟩⟩,
      ⟨.ack 7, .ok ()⟩]
  refine ⟨Unit, c, rejectedDelivery, e, t, .ok (), rfl, hdated, ?_, List.mem_singleton_self _⟩
  refine .ask (fun f hf ↦ nomatch hf) (.ask ⟨(fun f hf ↦ nomatch hf), hdated⟩ ?_)
  exact .ask (fun f hf ↦ nomatch hf) (.ask trivial (.ret ()))

/-- The only dead letter is passed over by the filter: it stays where it is, and the replay ends. -/
theorem replay_puts_back_passed_over :
    let o : Options := ⟨⟨5000000, 1000⟩, "orders.dlq", "", none, 0, none, true, true, 10⟩
    PutsBack (.still false) o "orders" [rejectedCopy] ↔ ¬Reaches (.still false) o 1 := by
  intro o
  exact replay_puts_back_iff (.still false) o "orders" [rejectedCopy] (.inl (by decide)) rfl rfl
    (by simp [o]) (by simpa using rejectedCopy_setAside)

/-- With every option at its default the dead letter goes round. -/
theorem replay_circles :
    let o : Options := ⟨⟨5000000, 1000⟩, "orders.dlq", "", none, 0, none, false, true, 10⟩
    Consumer.SetAside "orders" o.queue rejectedCopy ∧
      ¬PutsBack (.still true) o "orders" [rejectedCopy] := by
  intro o
  refine ⟨rejectedCopy_setAside, fun hback ↦ ?_⟩
  have hreadable : ∀ message ∈ [rejectedCopy], Envelope.readable message.headers = true := by
    simpa using rejectedCopy_setAside.readable
  refine (putsBack_iff (by decide) (by decide) rfl rfl (by simp [o]) hreadable).mp hback ?_
  refine ⟨0, by simp, fun hfiltered ↦ ?_, ?_⟩
  · cases hfiltered
  · rintro j - ⟨d, hd, -⟩
    cases hd

end Replay

end AcemqAmqp
