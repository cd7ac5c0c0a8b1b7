import AcemqAmqp.Scheduler.Moves

/-!
# Messages the scheduler refuses

The consumer of the control queue declares no dead letters, and sets aside what
its handler refuses all the same.  On a broker with nothing but the ladder such
a message comes back, again and again.
-/

namespace AcemqAmqp

/-- What a broker that works normally answers a publish: a message that is
routed is confirmed, and one that is not is returned, or is an error where its
exchange is not there. -/
def Broker.Answers (b : Broker) (exchange routingKey : String) : BrokerAnswer → Prop
  | .answered result => result.confirmed = result.routed ∧
      (result.routed = true ↔ b.Routes exchange routingKey)
  | .raised f => f.isException = true ∧ exchange ≠ "" ∧ ¬b.Routes exchange routingKey
  | _ => False

namespace Scheduler

open Interaction Program

/-- What a broker has that was told of the ladder, and of nothing else. -/
def scheduleBroker : Broker :=
  match scheduleTopology >>= Topology.apply with
  | .ok declarations => declarations.foldl Broker.declare Broker.empty
  | .error _ => Broker.empty

theorem routes_rung : ∀ rung ∈ scheduleRungs,
    scheduleBroker.Routes scheduleExchange (scheduleRungName rung) := by decide +kernel

theorem length_queues : ∀ name ∈ scheduleBroker.queues.keys, name.length ≤ 18 := by decide +kernel

/-- The broker works normally, and what else is asked is answered as always. -/
def Working : Assumption Around
  | .inl q, r => Consumer.Answered q r ∧ ∀ exchange key message answer,
      (⟨q, r⟩ : Event (Consumer.Broker Bytes)) = ⟨.publish exchange key message, answer⟩ →
        scheduleBroker.Answers exchange key answer
  | .inr q, r => Answered q r ∧ ∀ exchange key message answer,
      (⟨q, r⟩ : Event Surroundings) = ⟨.publish exchange key message, answer⟩ →
        scheduleBroker.Answers exchange key answer

/-- The broker brings a message to the control queue: it may add headers of its own. -/
def Carries (body : Bytes) (headers : Dict String Value) (d : Delivery) : Prop :=
  d.body = body ∧ ∀ name, Headers.isReserved name = true ∨ name ∈ headerNames →
    d.headers.get? name = headers.get? name

variable {s : Scheduler} {d d' : Delivery} {t : List (Event Around)}

/-- What the consumer is handed next: the delivery itself when it was returned,
or a copy that it put on the control queue. -/
inductive Again (d : Delivery) (t : List (Event Around)) (d' : Delivery) : Prop
  | returned : .nack d.tag true ∈ Consumer.settlements (inners t) → Carries d.body d.headers d' →
      Again d t d'
  | copied (p : Consumer.Publish) : p ∈ Consumer.publishes (inners t) → p.delivered = true →
      p.key = scheduleDue → Carries p.message.body p.message.headers d' → Again d t d'

/-- The message was forwarded, moved to a rung or set aside, and acknowledged. -/
def Placed (d : Delivery) (t : List (Event Around)) : Prop :=
  Consumer.settlements (inners t) = [.ack d.tag] ∧
    ((∃ p ∈ publishes (outers t), p.delivered = true) ∨
      ∃ p ∈ Consumer.publishes (inners t), p.delivered = true ∧ p.key ≠ scheduleDue)

/-- After so many deliveries at most, the message is placed. -/
def HandledWithin (s : Scheduler) : ℕ → Delivery → Prop
  | 0, _ => False
  | n + 1, d => ∀ fresh read t x, (fromMillis (millis read)).isSome = true →
      Runs Working (s.handle fresh read d) t x →
        Placed d t ∨ (∃ d', Again d t d') ∧ ∀ d', Again d t d' → HandledWithin s n d'

/-- The headers of a message that can be scheduled. -/
structure Schedulable (raw : Dict String Value) : Prop where
  firstSeen : -62135596800000 ≤ number (raw.get? Headers.firstSeen) 0 ∧
    number (raw.get? Headers.firstSeen) 0 ≤ 253402300799999
  attempt : number (raw.get? Headers.attempt) 1 < Binary64.bound
  exchange : headerExchange ∈ raw
  routingKey : headerRoutingKey ∈ raw
  dueAt : ∃ value millis, raw.get? headerDueAt = some value ∧ dueNumber value = .ok millis ∧
    -62135596800000 ≤ millis ∧ millis ≤ 253402300799999

/-! ## Reading the headers -/

section headers

variable {raw raw' : Dict String Value}

theorem dueAt_ok_iff : (∃ when_, dueAt raw = .ok (.ok when_)) ↔
    headerExchange ∈ raw ∧ headerRoutingKey ∈ raw ∧ ∃ value millis,
      raw.get? headerDueAt = some value ∧ dueNumber value = .ok millis ∧
        -62135596800000 ≤ millis ∧ millis ≤ 253402300799999 := by
  have hnull : ∀ n, dueNumber .null ≠ .ok n := by
    have hempty : int? "" = none := by decide
    simp [dueNumber, text, hempty]
  unfold dueAt
  constructor
  · rintro ⟨when_, h⟩
    split at h
    · cases h
    · cases h
    · rename_i due _ hdue
      split at h
      · cases h
      · rename_i hnames
        rw [not_or, not_not, not_not] at hnames
        split at h
        · cases h
        · rename_i millis hmillis
          have hwhen := fromTimestamp_ok_iff.mp (Except.ok.inj h)
          have hrange := isSome_fromMillis_iff.mp (Option.isSome_iff_exists.mpr ⟨_, hwhen⟩)
          exact ⟨hnames.1, hnames.2, due, millis, hdue, hmillis, hrange⟩
  · rintro ⟨hexchange, hkey, value, millis, hdue, hmillis, hrange⟩
    obtain ⟨when_, hwhen⟩ := Option.isSome_iff_exists.mp (isSome_fromMillis_iff.mpr hrange)
    refine ⟨when_, ?_⟩
    rw [hdue]
    cases value with
    | null => exact absurd hmillis (hnull _)
    | _ =>
      simp only [hexchange, hkey, not_true_eq_false, or_self, if_false, hmillis,
        fromTimestamp_ok_iff.mpr hwhen]

theorem dueAt_congr (h : ∀ name ∈ headerNames, raw'.get? name = raw.get? name) :
    dueAt raw' = dueAt raw := by
  have hmem : ∀ name ∈ headerNames, (name ∈ raw' ↔ name ∈ raw) := by
    intro name hname
    rw [Dict.mem_iff_get?, Dict.mem_iff_get?, h name hname]
  unfold dueAt
  rw [h headerDueAt (by decide)]
  simp only [hmem headerExchange (by decide), hmem headerRoutingKey (by decide)]

theorem schedulable_iff : Schedulable raw ↔
    Envelope.Legible raw ∧ ∃ when_, dueAt raw = .ok (.ok when_) := by
  rw [dueAt_ok_iff]
  constructor
  · intro h
    exact ⟨⟨readable_iff.mpr h.firstSeen, attemptOf_lt_iff.mpr h.attempt⟩, h.exchange, h.routingKey, h.dueAt⟩
  · rintro ⟨hlegible, hexchange, hkey, hdue⟩
    exact ⟨readable_iff.mp hlegible.firstSeen, attemptOf_lt_iff.mp hlegible.attempt, hexchange, hkey, hdue⟩

end headers

/-! ## One delivery -/

theorem Working.answered {q : Around.Act} {r : Around.Ans q} (h : Working q r) :
    AnsweredAround q r := by
  cases q with
  | inl q => exact h.1
  | inr q => exact h.1

theorem answers_delivered {b : Broker} {exchange key : String} {answer : BrokerAnswer}
    (h : b.Answers exchange key answer) : answer.delivered = true ↔ b.Routes exchange key := by
  cases answer with
  | answered result =>
      rw [← h.2, BrokerAnswer.delivered, h.1, Bool.and_self]
  | raised f =>
      exact ⟨fun hdelivered ↦ absurd hdelivered Bool.false_ne_true, fun hroutes ↦ absurd hroutes h.2.2⟩
  | _ => exact h.elim

/-- On a working broker the scheduler's messages reach a queue when they are routed. -/
theorem delivered_of_publishes {p : Consumer.Publish} {x : Except Failure Unit}
    {program : Program Around Failure Unit} (h : Runs Working program t x)
    (hp : p ∈ publishes (outers t)) :
    p.delivered = true ↔ scheduleBroker.Routes p.exchange p.key := by
  obtain ⟨⟨q, r⟩, hevent, hpublish⟩ := List.mem_filterMap.mp hp
  obtain ⟨⟨q' | q', r'⟩, hmem, houter⟩ := List.mem_filterMap.mp hevent
  · cases houter
  · cases houter
    have hworking := (h.answers _ hmem).2
    cases q with
    | publish exchange key message =>
        obtain rfl := Option.some.inj hpublish
        exact answers_delivered (hworking _ _ _ _ rfl)
    | _ => cases hpublish

/-- And so do the consumer's. -/
theorem delivered_of_republishes {p : Consumer.Publish} {x : Except Failure Unit}
    {program : Program Around Failure Unit} (h : Runs Working program t x)
    (hp : p ∈ Consumer.publishes (inners t)) :
    p.delivered = true ↔ scheduleBroker.Routes p.exchange p.key := by
  obtain ⟨⟨q, r⟩, hevent, hpublish⟩ := List.mem_filterMap.mp hp
  obtain ⟨⟨q' | q', r'⟩, hmem, hinner⟩ := List.mem_filterMap.mp hevent
  · cases hinner
    have hworking := (h.answers _ hmem).2
    cases q with
    | publish exchange key message =>
        obtain rfl := Option.some.inj hpublish
        exact answers_delivered (hworking _ _ _ _ rfl)
    | _ => cases hpublish
  · cases hinner

variable {fresh : String} {read : Instant} {e : Envelope} {x : Except Failure Unit}

theorem get?_headers_of_read (hread : Consumer.arrive fresh read d = .ok e) :
    ∀ name ∈ headerNames, e.headers.get? name = d.headers.get? name := fun name hname ↦
  (Envelope.fromHeaders_headers (Consumer.arrive_ok_iff.mp hread).1 (headerNames_free name hname)).1

/-- A message that can be scheduled is placed at its first delivery. -/
theorem placed_of_schedulable (hschedulable : Schedulable d.headers)
    (hclock : (fromMillis (millis read)).isSome = true)
    (h : Runs Working (s.handle fresh read d) t x) : Placed d t := by
  obtain ⟨hlegible, when_, hdue⟩ := schedulable_iff.mp hschedulable
  obtain ⟨e, hread⟩ : ∃ e, Consumer.arrive fresh read d = .ok e :=
    (Consumer.exists_arrive_iff hclock).mpr hlegible
  obtain ⟨t₁, t₂, answer, rfl, hforward, hinners, houters, hsettled⟩ :=
    handle_spec hread (h.mono fun _ _ ↦ Working.answered)
  rw [← dueAt_congr (get?_headers_of_read hread)] at hdue
  obtain ⟨ok, hmoved, rfl⟩ := always_iff_runs.mp (forward_spec hdue) _ _ hforward
  have hdelivered : ∀ p ∈ publishes (outers t₁),
      (p.delivered = true ↔ scheduleBroker.Routes p.exchange p.key) := by
    intro p hp
    apply delivered_of_publishes h
    rw [outers_append, houters, List.append_nil]
    exact hp
  have hcopy : ∀ p ∈ publishes (outers t₁), IsCopy d.body e.headers p → p.delivered = true := by
    rintro p hp ⟨rung, hrung, hsent⟩
    rw [hdelivered p hp, hsent.exchange, hsent.key]
    exact routes_rung rung hrung
  have hmovedOn : ok = true ∧ ∃ p ∈ publishes (outers t₁), p.delivered = true := by
    generalize publishes (outers t₁) = ps at hmoved hcopy
    cases hmoved with
    | delivered _ hp => exact ⟨rfl, _, List.mem_singleton_self _, hp⟩
    | @roundAgain p copy _ _ hc =>
        have hp := hcopy copy (by simp) hc
        exact ⟨hp, copy, by simp, hp⟩
    | @hopped copy hc =>
        have hp := hcopy copy (by simp) hc
        exact ⟨hp, copy, by simp, hp⟩
  obtain ⟨rfl, p, hp, hplaced⟩ := hmovedOn
  rcases hsettled with ⟨course, hchosen, -, hsettlements⟩ | ⟨-, hretry⟩
  · obtain rfl := hchosen.of_accept rfl
    refine ⟨?_, .inl ⟨p, ?_, hplaced⟩⟩
    · rw [inners_append, hinners, List.nil_append, hsettlements]
      rfl
    · rw [outers_append, houters, List.append_nil]
      exact hp
  · cases hretry

/-- Nothing the scheduler's consumer sends anywhere but the control queue arrives. -/
theorem key_of_delivered (h : Runs Working (s.handle fresh read d) t x) {p : Consumer.Publish}
    (hp : p ∈ Consumer.publishes (inners t)) (hexchange : p.exchange = "")
    (hdestination : s.consumer.Destination p.key) (hdelivered : p.delivered = true) :
    p.key = scheduleDue := by
  rw [delivered_of_republishes h hp, hexchange] at hdelivered
  have hlength := length_queues p.key hdelivered
  have hlong : ∀ {suffix : String}, 1 ≤ suffix.length → ¬(scheduleDue ++ suffix).length ≤ 18 := by
    intro suffix hsuffix
    have hdue : scheduleDue.length = 18 := by decide
    rw [String.length_append]
    omega
  rcases hdestination with hkey | ⟨delay, -, hkey⟩ | hkey | hkey
  · exact hkey
  · rw [hkey, retryQueue, String.append_assoc] at hlength
    refine absurd hlength (hlong ?_)
    have hmiddle : ".retry.".length = 7 := by decide
    rw [String.length_append, hmiddle]
    omega
  · rw [hkey] at hlength
    exact absurd hlength (hlong (by decide))
  · rw [hkey] at hlength
    exact absurd hlength (hlong (by decide))

/-- The copies the consumer sends of a delivery it has asked the handler about. -/
theorem copies_of_settled {answer : Except Failure Ack} {events : List (Event (Consumer.Broker Bytes))}
    (h : s.Settled d e answer events) : ∀ p ∈ Consumer.publishes events, p.exchange = "" ∧
      s.consumer.Destination p.key ∧ ∃ copy, p.message = Consumer.hop d copy ∧ e.Alike copy := by
  intro p hp
  rcases h with ⟨course, hchosen, hpublishes, -⟩ | ⟨⟨hnone, -⟩, -⟩
  · rw [hpublishes] at hp
    obtain ⟨copy, hmessage, hcopied⟩ := hchosen.copied p hp
    exact ⟨(Consumer.Course.publishes_body p hp).1, hchosen.destination p hp, copy, hmessage,
      hcopied.alike⟩
  · rw [hnone] at hp
    exact absurd hp List.not_mem_nil

/-- The handler publishes nothing for a message without a due time. -/
theorem forward_quiet {message : Message Bytes} {events : List (Event Surroundings)}
    {answer : Except Failure Ack} (hdue : ¬∃ when_, dueAt message.envelope.headers = .ok (.ok when_))
    (h : Runs Answered (s.forward message) events answer) : events = [] := by
  unfold forward at h
  cases hread : dueAt message.envelope.headers with
  | error refused =>
      rw [hread] at h
      cases h
      rfl
  | ok due =>
      rw [hread] at h
      cases due with
      | error f =>
          cases h
          rfl
      | ok when_ => exact absurd ⟨when_, hread⟩ hdue

/-- A header that the handler reads is on a copy what it was on the delivery. -/
theorem get?_hop {copy : Envelope} {name : String} (hname : name ∈ headerNames)
    (hread : Consumer.arrive fresh read d = .ok e) (hcopy : e.Alike copy) :
    (Consumer.hop d copy).headers.get? name = d.headers.get? name := by
  obtain ⟨hheaders, hextension⟩ :=
    Envelope.fromHeaders_headers (Consumer.arrive_ok_iff.mp hread).1 (headerNames_free name hname)
  have hwritten : (copy.toHeaders d.routingKey).get? name = copy.headers.get? name :=
    Envelope.get?_toHeaders_of_application (headerNames_free name hname) (hcopy.extensions ▸ hextension)
  rw [← hheaders, ← hcopy.headers, ← hwritten]
  rfl

/-- A message that cannot is not placed, and comes back no different. -/
theorem again_of_not_schedulable (hschedulable : ¬Schedulable d.headers)
    (hclock : (fromMillis (millis read)).isSome = true)
    (h : Runs Working (s.handle fresh read d) t x) :
    ¬Placed d t ∧ ∀ d', Again d t d' → ¬Schedulable d'.headers := by
  cases hread : Consumer.arrive fresh read d with
  | error failure =>
      rw [handle, Consumer.handle_of_error hread] at h
      cases h
      refine ⟨fun hplaced ↦ absurd hplaced.1 (List.cons_ne_nil _ _).symm, fun d' hagain ↦ ?_⟩
      cases hagain with
      | returned hnack => exact absurd hnack List.not_mem_nil
      | copied p hp => exact absurd hp List.not_mem_nil
  | ok e =>
      have hlegible : Envelope.Legible d.headers := (Consumer.exists_arrive_iff hclock).mp ⟨e, hread⟩
      have hrefused : ¬∃ when_, dueAt d.headers = .ok (.ok when_) := fun hdue ↦
        hschedulable (schedulable_iff.mpr ⟨hlegible, hdue⟩)
      have hagain : ∀ {headers : Dict String Value}, (∀ name ∈ headerNames,
          headers.get? name = d.headers.get? name) → ¬Schedulable headers := by
        intro headers hheaders hsome
        rw [schedulable_iff, dueAt_congr hheaders] at hsome
        exact hrefused hsome.2
      obtain ⟨t₁, t₂, answer, rfl, hforward, hinners, houters, hsettled⟩ :=
        handle_spec hread (h.mono fun _ _ ↦ Working.answered)
      have hquiet : outers t₁ = [] := by
        refine forward_quiet (fun hdue ↦ hrefused ?_) hforward
        rwa [← dueAt_congr (get?_headers_of_read hread)]
      have hcopies := copies_of_settled hsettled
      have hinner : inners (t₁ ++ t₂) = inners t₂ := by rw [inners_append, hinners, List.nil_append]
      rw [← hinner] at hcopies
      refine ⟨?_, fun d' hcomes ↦ ?_⟩
      · rintro ⟨-, ⟨p, hp, -⟩ | ⟨p, hp, hdelivered, hkey⟩⟩
        · rw [outers_append, hquiet, houters] at hp
          exact absurd hp List.not_mem_nil
        · obtain ⟨hexchange, hdestination, -⟩ := hcopies p hp
          exact hkey (key_of_delivered h hp hexchange hdestination hdelivered)
      · cases hcomes with
        | returned _ hcarries => exact hagain fun name hname ↦ hcarries.2 name (.inr hname)
        | copied p hp _ _ hcarries =>
            obtain ⟨-, -, copy, hmessage, hcopy⟩ := hcopies p hp
            refine hagain fun name hname ↦ ?_
            rw [hcarries.2 name (.inr hname), hmessage, get?_hop hname hread hcopy]

/-! ## Delivery after delivery -/

/-- A broker that works, and a clock that stands still. -/
def still : Unit → (q : Around.Act) → Around.Ans q × Unit
  | (), .inl (.decode body _) => (.ok body, ())
  | (), .inl (.invoke context) => ((context.envelope, .ok (.ack .accept)), ())
  | (), .inl .now => ((0 : Instant), ())
  | (), .inl .random => ((0 : ℚ), ())
  | (), .inl (.publish exchange key _) =>
      (.answered ⟨"", scheduleBroker.Routes exchange key, scheduleBroker.Routes exchange key, ""⟩, ())
  | (), .inl (.sleep _) => ((), ())
  | (), .inl .halt => ((), ())
  | (), .inl (.ack _) => (.ok (), ())
  | (), .inl (.nack _ _) => (.ok (), ())
  | (), .inr .now => ((0 : Instant), ())
  | (), .inr .fresh => ("", ())
  | (), .inr (.publish exchange key _) =>
      (.answered ⟨"", scheduleBroker.Routes exchange key, scheduleBroker.Routes exchange key, ""⟩, ())

theorem working_still (u : Unit) (q : Around.Act) : Working q (still u q).1 := by
  have hanswers : ∀ exchange key, scheduleBroker.Answers exchange key
      (.answered ⟨"", scheduleBroker.Routes exchange key, scheduleBroker.Routes exchange key, ""⟩) :=
    fun exchange key ↦ ⟨rfl, decide_eq_true_iff⟩
  rcases q with q | q
  · cases q with
    | publish exchange key message =>
        refine ⟨fun f hf ↦ (nomatch hf), ?_⟩
        rintro _ _ _ _ ⟨⟩
        exact hanswers exchange key
    | decode body contentType => exact ⟨fun f hf ↦ (nomatch hf), fun _ _ _ _ h ↦ (nomatch h)⟩
    | invoke context => exact ⟨fun f hf ↦ (nomatch hf), fun _ _ _ _ h ↦ (nomatch h)⟩
    | random => exact ⟨⟨le_refl 0, one_pos⟩, fun _ _ _ _ h ↦ (nomatch h)⟩
    | now | sleep | halt | ack | nack => exact ⟨trivial, fun _ _ _ _ h ↦ (nomatch h)⟩
  · cases q with
    | publish exchange key message =>
        refine ⟨fun f hf ↦ (nomatch hf), ?_⟩
        rintro _ _ _ _ ⟨⟩
        exact hanswers exchange key
    | now | fresh => exact ⟨trivial, fun _ _ _ _ h ↦ (nomatch h)⟩

/-- No number of deliveries is enough for a message that cannot be scheduled. -/
theorem not_handledWithin (hschedulable : ¬Schedulable d.headers) (n : ℕ) :
    ¬s.HandledWithin n d := by
  induction n generalizing d with
  | zero => exact id
  | succ n ih =>
      intro hn
      have hrun := runs_interp working_still (s.handle "" 0 d) ()
      obtain ⟨hplaced, hagain⟩ := again_of_not_schedulable hschedulable isSome_fromMillis_epoch hrun
      obtain ⟨⟨d', hcomes⟩, hrest⟩ := (hn _ _ _ _ isSome_fromMillis_epoch hrun).resolve_left hplaced
      exact ih (hagain d' hcomes) (hrest d' hcomes)

/-- A message is dealt with in some number of deliveries exactly when its
headers are those of a message that can be scheduled. -/
theorem handled_iff (s : Scheduler) (d : Delivery) :
    (∃ n, s.HandledWithin n d) ↔ Schedulable d.headers := by
  constructor
  · rintro ⟨n, hn⟩
    by_contra hschedulable
    exact not_handledWithin hschedulable n hn
  · intro hschedulable
    exact ⟨1, fun fresh read t x hclock hrun ↦ .inl (placed_of_schedulable hschedulable hclock hrun)⟩

/-- A message with no headers is rejected, and its dead letters are not there. -/
theorem not_handled_without_headers :
    let s : Scheduler := ⟨⟨5000000, 1000⟩, "svc", fixedRetry 3 0, jsonContentType⟩
    let d : Delivery := ⟨7, [104, 105], none, scheduleDue, "m1", ∅, false, ""⟩
    dueAt d.headers = .error (.reject (some missingHeaders)) ∧
      ¬scheduleBroker.Routes "" (deadLetterQueue scheduleDue) ∧ ¬∃ n, s.HandledWithin n d := by
  intro s d
  refine ⟨rfl, by decide +kernel, fun ⟨n, hn⟩ ↦ ?_⟩
  have hmissing : headerExchange ∉ (∅ : Dict String Value) := List.not_mem_nil
  exact not_handledWithin (fun hschedulable ↦ hmissing hschedulable.exchange) n hn

end Scheduler

end AcemqAmqp
