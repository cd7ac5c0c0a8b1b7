import AcemqAmqp.Scheduler.Refused

/-!
# From scheduling to delivery

Each trip through a rung rebuilds a scheduled message out of its body and its
headers.  Whatever becomes of the publishes, every copy has the bytes and the
four headers the message was scheduled with, and what arrives at the
destination is what was scheduled for it.
-/

namespace AcemqAmqp

namespace Scheduler

open Interaction Program

/-- A message as it was scheduled: the bytes the codec made of the payload and
its content type, and where it is going, when. -/
structure Scheduled where
  body : Bytes
  contentType : String
  exchange : String
  routingKey : String
  due : Instant

namespace Scheduled

def headers (m : Scheduled) : ApplicationHeaders :=
  headersFor m.exchange m.routingKey m.contentType m.due

/-- A table with the four headers the message was scheduled with. -/
def HeadersIn (m : Scheduled) (headers : Dict String Value) : Prop :=
  ∀ name ∈ headerNames, headers.get? name = m.headers.1.get? name

/-- A copy of the message, as it was scheduled. -/
structure Copied (m : Scheduled) (p : Consumer.Publish) : Prop where
  body : p.message.body = m.body
  headers : m.HeadersIn p.message.headers

/-- A copy that goes into a rung. -/
structure Climbs (m : Scheduled) (p : Consumer.Publish) : Prop extends m.Copied p where
  exchange : p.exchange = scheduleExchange
  rung : ∃ rung ∈ scheduleRungs, p.key = scheduleRungName rung

/-- A copy that the consumer of the control queue puts back on it, or aside from it. -/
structure GoesBack (m : Scheduled) (s : Scheduler) (p : Consumer.Publish) : Prop extends m.Copied p where
  exchange : p.exchange = ""
  destination : s.consumer.Destination p.key

/-- The message as it is delivered: without the scheduler's headers. -/
structure Delivered (m : Scheduled) (p : Consumer.Publish) : Prop where
  exchange : p.exchange = m.exchange
  routingKey : p.key = m.routingKey
  body : p.message.body = m.body
  contentType : p.message.contentType = orElse m.contentType jsonContentType
  headers : ∀ name ∈ headerNames, name ∉ p.message.headers

/-- A run of `at` or `after` that schedules the message. -/
inductive SentBy (m : Scheduled) (s : Scheduler) (t : List (Event Surroundings)) : Prop
  | at_ (x : Except Failure Unit) : s.contentType = m.contentType →
      Runs Answered (s.at_ (.aware m.due) m.exchange m.routingKey (.ok m.body)) t x → m.SentBy s t
  | after (x : Except Failure Unit) (read : Instant) (delay : Duration) :
      s.contentType = m.contentType → m.due = read + delay → t.head? = some ⟨.now, read⟩ →
      Runs Answered (s.after delay m.exchange m.routingKey (.ok m.body)) t x → m.SentBy s t

/-- What is in the rungs and on the control queue because of the message. -/
inductive InLadder (m : Scheduled) : Bytes → Dict String Value → Prop
  | scheduled {s : Scheduler} {t : List (Event Surroundings)} (p : Consumer.Publish) :
      m.SentBy s t → p ∈ publishes t → headerDueAt ∈ p.message.headers →
      InLadder m p.message.body p.message.headers
  | moved {body : Bytes} {headers : Dict String Value} {s : Scheduler} {d : Delivery}
      {fresh : String} {read : Instant} {t : List (Event Around)} {x : Except Failure Unit}
      (p : Consumer.Publish) : InLadder m body headers → Carries body headers d →
      Runs AnsweredAround (s.handle fresh read d) t x →
      p ∈ publishes (outers t) ∨ p ∈ Consumer.publishes (inners t) →
      headerDueAt ∈ p.message.headers → InLadder m p.message.body p.message.headers

variable {m : Scheduled}

theorem get?_headers : m.headers.1.get? headerExchange = some (.text m.exchange) ∧
    m.headers.1.get? headerRoutingKey = some (.text m.routingKey) ∧
    m.headers.1.get? headerDueAt = some (.int (dueMillis m.due)) ∧
    m.headers.1.get? headerContentType = some (.text m.contentType) := ⟨rfl, rfl, rfl, rfl⟩

theorem climbs_of_isCopy {headers : Dict String Value} {p : Consumer.Publish}
    (hheaders : m.HeadersIn headers) (h : IsCopy m.body headers p) : m.Climbs p := by
  obtain ⟨rung, hrung, hsent⟩ := h
  refine ⟨⟨hsent.body, fun name hname ↦ ?_⟩, hsent.exchange, rung, hrung, hsent.key⟩
  rw [hsent.headers name (headerNames_free name hname), hheaders name hname]

theorem delivered_of_isDelivery {headers : Dict String Value} {p : Consumer.Publish}
    (hheaders : m.HeadersIn headers) (h : IsDelivery m.body headers p) : m.Delivered p := by
  obtain ⟨hexchange, hkey, -, htype⟩ := get?_headers (m := m)
  constructor
  case exchange =>
    rw [h.exchange, destination, hheaders _ (by decide), hexchange, text_some_text]
  case routingKey =>
    rw [h.key, destinationKey, hheaders _ (by decide), hkey, text_some_text]
  case body => exact h.body
  case contentType =>
    rw [h.contentType, destinationType, hheaders _ (by decide), htype, text_some_text]
  case headers =>
    intro name hname
    rw [← Dict.get?_eq_none_iff, h.headers name (headerNames_free name hname), Dict.get?_empty]

/-- Whatever becomes of a move, it publishes the message, and copies of it into rungs. -/
theorem of_moved {headers : Dict String Value} {ps : List Consumer.Publish} {ok : Bool}
    (hheaders : m.HeadersIn headers) (h : Moved m.body headers ps ok) :
    ∀ p ∈ ps, m.Climbs p ∨ m.Delivered p := by
  intro p hp
  apply (h.carries p hp).imp
  · exact climbs_of_isCopy hheaders
  · exact delivered_of_isDelivery hheaders

theorem SentBy.kept {s : Scheduler} {t : List (Event Surroundings)} (h : m.SentBy s t) :
    ∀ p ∈ publishes t, m.Climbs p ∨ m.Delivered p := by
  have hat : ∀ {s : Scheduler} {t : List (Event Surroundings)} {x : Except Failure Unit},
      s.contentType = m.contentType →
      Runs Answered (s.at_ (.aware m.due) m.exchange m.routingKey (.ok m.body)) t x →
      ∀ p ∈ publishes t, m.Climbs p ∨ m.Delivered p := by
    intro s t x htype hrun
    rw [Scheduler.at_, htype] at hrun
    obtain ⟨ok, hmoved, -⟩ := always_iff_runs.mp (route_spec m.due) _ _ hrun
    exact of_moved (fun _ _ ↦ rfl) hmoved
  cases h with
  | at_ x htype hrun => exact hat htype hrun
  | after x read delay htype hdue hhead hrun =>
      rw [Scheduler.after, bind_eq, now, perform, ask_bind] at hrun
      cases hrun with
      | @ask q next r t' _ _ hrun =>
          cases hhead
          simp only [ret_bind] at hrun
          split at hrun
          · rw [← hdue] at hrun
            exact fun p hp ↦ hat htype hrun p hp
          · cases hrun
            simp [publishes, publish?]

/-- What one delivery to the control queue publishes, of a message on its way. -/
theorem of_handle {s : Scheduler} {d : Delivery} {fresh : String} {read : Instant}
    {t : List (Event Around)} {x : Except Failure Unit} (hbody : d.body = m.body)
    (hheaders : m.HeadersIn d.headers) (h : Runs AnsweredAround (s.handle fresh read d) t x) :
    (∀ p ∈ publishes (outers t), m.Climbs p ∨ m.Delivered p) ∧
      ∀ p ∈ Consumer.publishes (inners t), m.GoesBack s p := by
  cases hread : Consumer.arrive fresh read d with
  | error failure =>
      rw [handle, Consumer.handle_of_error hread] at h
      cases h
      simp [publishes, Consumer.publishes]
  | ok e =>
      obtain ⟨t₁, t₂, answer, rfl, hforward, hinners, houters, hsettled⟩ := handle_spec hread h
      rw [outers_append, inners_append, hinners, houters, List.append_nil, List.nil_append]
      refine ⟨fun p hp ↦ ?_, fun p hp ↦ ?_⟩
      · by_cases hdue : ∃ when_, dueAt (messageOf d e).envelope.headers = .ok (.ok when_)
        · obtain ⟨when_, hdue⟩ := hdue
          obtain ⟨ok, hmoved, -⟩ := always_iff_runs.mp (forward_spec hdue) _ _ hforward
          have hsame : (messageOf d e).body = m.body := hbody
          rw [hsame] at hmoved
          refine of_moved (fun name hname ↦ ?_) hmoved p hp
          exact (get?_headers_of_read hread name hname).trans (hheaders name hname)
        · rw [forward_quiet hdue hforward] at hp
          exact absurd hp List.not_mem_nil
      · obtain ⟨hexchange, hdestination, copy, hmessage, hcopy⟩ := copies_of_settled hsettled p hp
        refine ⟨⟨?_, fun name hname ↦ ?_⟩, hexchange, hdestination⟩
        · rw [hmessage, ← hbody]
          rfl
        · rw [hmessage, get?_hop hname hread hcopy, hheaders name hname]

theorem HeadersIn.carried {body : Bytes} {headers : Dict String Value} {d : Delivery} (h : m.HeadersIn headers)
    (hcarries : Carries body headers d) : m.HeadersIn d.headers := by
  intro name hname
  rw [hcarries.2 name (.inr hname), h name hname]

/-- A message on its way has its bytes and its headers. -/
theorem InLadder.kept {body : Bytes} {headers : Dict String Value} (h : m.InLadder body headers) :
    body = m.body ∧ m.HeadersIn headers := by
  have hmoved : ∀ {p : Consumer.Publish}, headerDueAt ∈ p.message.headers →
      m.Climbs p ∨ m.Delivered p → p.message.body = m.body ∧ m.HeadersIn p.message.headers := by
    rintro p hdue (hclimbs | hdelivered)
    · exact ⟨hclimbs.body, hclimbs.headers⟩
    · exact absurd hdue (hdelivered.headers _ (by decide))
  induction h with
  | scheduled p hsent hp hdue => exact hmoved hdue (hsent.kept p hp)
  | moved p _ hcarries hrun hp hdue ih =>
      obtain ⟨hforwarded, hback⟩ := of_handle (hcarries.1.trans ih.1) (ih.2.carried hcarries) hrun
      rcases hp with hp | hp
      · exact hmoved hdue (hforwarded p hp)
      · exact ⟨(hback p hp).body, (hback p hp).headers⟩

end Scheduled

/-! ## Accepted or put back -/

/-- The control message was acknowledged after its message, or a copy of it in a rung, had arrived. -/
def Accepted (d : Delivery) (e : Envelope) (t : List (Event Around)) : Prop :=
  ∃ t₁ t₂, t = t₁ ++ t₂ ∧ (∃ p ∈ publishes (outers t₁), p.delivered = true ∧
      (IsCopy d.body e.headers p ∨ IsDelivery d.body e.headers p)) ∧
    Consumer.settlements (inners t₁) = [] ∧ Consumer.publishes (inners t) = [] ∧
    Consumer.settlements (inners t₂) = [.ack d.tag]

/-- Nothing arrived, and the message went back on the control queue under the attempt it had. -/
def PutBack (d : Delivery) (e : Envelope) (t : List (Event Around)) : Prop :=
  (∀ p ∈ publishes (outers t), p.delivered = false) ∧
    ∃ p, Consumer.publishes (inners t) = [p] ∧ p.exchange = "" ∧ p.key = scheduleDue ∧
      p.message = Consumer.hop d e ∧
      p.message.headers.get? Headers.attempt = some (.int e.attempt) ∧
      Consumer.settlements (inners t) =
        [if p.delivered then .ack d.tag else .nack d.tag true]

theorem accepted_or_putBack {s : Scheduler} {d : Delivery} {fresh : String} {read : Instant}
    {e : Envelope} {t : List (Event Around)} {x : Except Failure Unit} {when_ : Instant}
    (hread : Consumer.arrive fresh read d = .ok e) (hdue : dueAt d.headers = .ok (.ok when_))
    (h : Runs AnsweredAround (s.handle fresh read d) t x) : Accepted d e t ∨ PutBack d e t := by
  obtain ⟨t₁, t₂, answer, rfl, hforward, hinners, houters, hsettled⟩ := handle_spec hread h
  rw [← dueAt_congr (get?_headers_of_read hread)] at hdue
  obtain ⟨ok, hmoved, rfl⟩ := always_iff_runs.mp (forward_spec hdue) _ _ hforward
  have hinner : inners (t₁ ++ t₂) = inners t₂ := by rw [inners_append, hinners, List.nil_append]
  have houter : outers (t₁ ++ t₂) = outers t₁ := by rw [outers_append, houters, List.append_nil]
  rcases hsettled with ⟨course, hchosen, hpublishes, hsettlements⟩ | ⟨-, hretry⟩
  · cases ok with
    | true =>
        left
        obtain rfl := hchosen.of_accept rfl
        obtain ⟨p, hp, hdelivered⟩ := hmoved.exists_delivered rfl
        refine ⟨t₁, t₂, rfl, ⟨p, hp, hdelivered, hmoved.carries p hp⟩, ?_, ?_, hsettlements⟩
        · rw [hinners]
          rfl
        · rw [hinner, hpublishes]
          rfl
    | false =>
        right
        obtain ⟨delivered, rfl⟩ := hchosen.of_inProgress rfl
        rw [PutBack, hinner, houter]
        exact ⟨hmoved.not_delivered rfl, _, hpublishes, rfl, rfl, rfl,
          Envelope.get?_toHeaders_attempt e _, hsettlements⟩
  · cases ok <;> cases hretry

/-- A scheduled message is never dropped or altered on its way.  `at` and
`after`, and each delivery to the control queue of what is on its way, publish
copies with its bytes and its headers into rungs, and the message itself at its
destination, and nothing else; the consumer's own copies stay on the control
queue and beside it; and a control message whose headers can be read is accepted
when the message or a copy of it arrived, and put back otherwise. -/
theorem scheduled_message_kept :
    (∀ (m : Scheduled) (s : Scheduler) (t : List (Event Surroundings)), m.SentBy s t →
      ∀ p ∈ publishes t, m.Climbs p ∨ m.Delivered p) ∧
    (∀ (m : Scheduled) (body : Bytes) (headers : Dict String Value), m.InLadder body headers →
      ∀ (s : Scheduler) (d : Delivery) (fresh : String) (read : Instant) (t : List (Event Around))
        (x : Except Failure Unit), Carries body headers d →
        Runs AnsweredAround (s.handle fresh read d) t x →
        (∀ p ∈ publishes (outers t), m.Climbs p ∨ m.Delivered p) ∧
          ∀ p ∈ Consumer.publishes (inners t), m.GoesBack s p) ∧
    ∀ (s : Scheduler) (d : Delivery) (fresh : String) (read : Instant) (e : Envelope)
      (when_ : Instant) (t : List (Event Around)) (x : Except Failure Unit),
      Consumer.arrive fresh read d = .ok e → dueAt d.headers = .ok (.ok when_) →
      Runs AnsweredAround (s.handle fresh read d) t x → Accepted d e t ∨ PutBack d e t := by
  refine ⟨fun m s t h ↦ h.kept, ?_, fun s d fresh read e when_ t x hread hdue h ↦
    accepted_or_putBack hread hdue h⟩
  intro m body headers hladder s d fresh read t x hcarries hrun
  obtain ⟨hbody, hheaders⟩ := hladder.kept
  exact Scheduled.of_handle (hcarries.1.trans hbody) (hheaders.carried hcarries) hrun

/-- A broker that takes everything, while the clock stands still. -/
def takesAll : Unit → (q : Act) → Surroundings.Ans q × Unit
  | (), .now => ((0 : Instant), ())
  | (), .fresh => ("f1", ())
  | (), .publish _ _ _ => (.answered ⟨"", true, true, ""⟩, ())

theorem answered_takesAll (u : Unit) (q : Act) : Answered q (takesAll u q).1 := by
  cases q with
  | now | fresh => trivial
  | publish exchange key message => exact fun f hf ↦ (nomatch hf)

theorem exists_runs_handle (s : Scheduler) (d : Delivery) : ∃ t x, Runs AnsweredAround (s.handle "" 0 d) t x :=
  ⟨_, _, (runs_interp working_still (s.handle "" 0 d) ()).mono fun _ _ ↦ Working.answered⟩

/-- An invoice due in four hours: the copy in the rung of an hour, and what
becomes of it when it comes back. -/
theorem scheduled_message_kept_invoice :
    let s : Scheduler := ⟨⟨5000000, 1000⟩, "svc", fixedRetry 3 0, jsonContentType⟩
    let m : Scheduled := ⟨[1, 2], jsonContentType, "billing", "invoice.due", 14400000000⟩
    ∃ t p d e t' x, m.SentBy s t ∧ p ∈ publishes t ∧ (m.Climbs p ∨ m.Delivered p) ∧
      Carries p.message.body p.message.headers d ∧ Runs AnsweredAround (s.handle "" 0 d) t' x ∧
      ((∀ q ∈ publishes (outers t'), m.Climbs q ∨ m.Delivered q) ∧
        ∀ q ∈ Consumer.publishes (inners t'), m.GoesBack s q) ∧ (Accepted d e t' ∨ PutBack d e t') := by
  intro s m
  have hpublished : ∃ p ∈ publishes ((s.at_ (.aware 14400000000) "billing" "invoice.due"
      (.ok [1, 2])).interp takesAll ()).1.1, headerDueAt ∈ p.message.headers ∧
        (Envelope.fromHeaders "" 0 p.message.headers scheduleDue "").isSome = true ∧
        Envelope.attemptOf p.message.headers = 1 ∧ dueAt p.message.headers = .ok (.ok 14400000000) := by
    decide +kernel
  obtain ⟨p, hp, hladder, hreadable, hattempt, hwhen⟩ := hpublished
  have hsent : m.SentBy s ((s.at_ (.aware 14400000000) "billing" "invoice.due"
      (.ok [1, 2])).interp takesAll ()).1.1 := .at_ _ rfl (runs_interp answered_takesAll _ ())
  obtain ⟨e, hread⟩ := Option.isSome_iff_exists.mp hreadable
  let d : Delivery := ⟨1, p.message.body, none, scheduleDue, "", p.message.headers, false, ""⟩
  have harrive : Consumer.arrive "" 0 d = .ok e := by
    refine Consumer.arrive_ok_iff.mpr ⟨hread, ?_⟩
    rw [Envelope.fromHeaders_attempt hread, hattempt]
    exact Binary64.one_lt_bound
  obtain ⟨t', x, hrun⟩ := exists_runs_handle s d
  have hcarries : Carries p.message.body p.message.headers d := ⟨rfl, fun _ _ ↦ rfl⟩
  exact ⟨_, p, d, e, _, _, hsent, hp, scheduled_message_kept.1 m s _ hsent p hp, hcarries, hrun,
    scheduled_message_kept.2.1 m _ _ (.scheduled p hsent hp hladder) s d "" 0 _ _ hcarries hrun,
    scheduled_message_kept.2.2 s d "" 0 e _ _ _ harrive hwhen hrun⟩

/-- A codec without a content type: the message says at its destination that it is JSON. -/
theorem scheduled_content_type_replaced :
    let s : Scheduler := ⟨⟨5000000, 1000⟩, "svc", fixedRetry 3 0, ""⟩
    ∃ t x, Runs Answered (s.at_ (.aware 0) "" "orders" (.ok [1, 2])) t x ∧
      ∃ p ∈ publishes t, p.delivered = true ∧ p.key = "orders" ∧
        p.message.contentType = "application/json" ∧ p.message.contentType ≠ s.contentType := by
  intro s
  have hpublished : ∃ p ∈ publishes
      ((s.at_ (.aware 0) "" "orders" (.ok [1, 2])).interp takesAll ()).1.1,
      p.delivered = true ∧ p.key = "orders" ∧ p.message.contentType = "application/json" := by
    decide +kernel
  obtain ⟨p, hp, hdelivered, hkey, htype⟩ := hpublished
  refine ⟨_, _, runs_interp answered_takesAll _ (), p, hp, hdelivered, hkey, htype, ?_⟩
  rw [htype]
  decide

end Scheduler

end AcemqAmqp
