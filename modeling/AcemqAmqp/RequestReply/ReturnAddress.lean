import AcemqAmqp.Consumer.Attempts
import AcemqAmqp.Replay.Rounds
import AcemqAmqp.RequestReply.Serve

/-!
# A return address on its way

A request can be put back, retried and set aside by the consumer, and put back
by a replay, before a handler answers it.  Each of these rebuilds the message
from its envelope.  The header of the return address is one of the
application's and survives; AMQP's own property is not copied.
-/

namespace AcemqAmqp

namespace RequestReply

open Interaction Program Consumer

variable {Payload Answer : Type}

/-- The names the broker leaves alone: the library's, and those of its patterns. -/
def kept (name : String) : Bool :=
  Headers.isReserved name || "acemq-".toList.isPrefixOf name.toList

/-- The broker delivers a message: it may add headers of its own, and keeps the property. -/
def Arrives (message : Outbound) (d : Delivery) : Prop :=
  d.replyTo = message.replyTo ∧
    ∀ name, kept name = true → d.headers.get? name = message.headers.get? name

/-- One hop of a request.  The consumer puts a copy back, on its own queue or by
way of a rung; or it sets a copy aside and a round of a replay sends that on.
Whatever became of the other copies it published, this one arrives. -/
inductive Hop (Payload : Type) (c : Consumer) (d d' : Delivery) : Prop
  | retried (turn : Turn Payload) (p : Publish) : turn.Possible c → turn.delivery = d →
      p ∈ publishes turn.events → Circulates c p.key → Arrives p.message d' → Hop Payload c d d'
  | replayed (turn : Turn Payload) (p : Publish) (dead : Delivery) (o : Replay.Options)
      (s : Replay.State) (t : Replay.Trace)
      (x : Except Replay.Raised (Replay.State ⊕ ReplayResult)) (exchange key : String)
      (message : Outbound) (answer : BrokerAnswer) : turn.Possible c → turn.delivery = d →
      p ∈ publishes turn.events → p.key = deadLetterQueue c.queue ∨ p.key = parkedQueue c.queue →
      Arrives p.message dead → o.queue = p.key →
      Runs Replay.Answered (Replay.pullOne o s) t x → ⟨.pull o.queue, .ok (some dead)⟩ ∈ t →
      ⟨.publish exchange key message, answer⟩ ∈ t → Arrives message d' → Hop Payload c d d'

/-- From the first delivery of a request to a later one, over some hops. -/
inductive Journey (Payload : Type) (c : Consumer) (first : Delivery) : ℕ → Delivery → Prop
  | start : Journey Payload c first 0 first
  | hop {hops : ℕ} {d d' : Delivery} : Journey Payload c first hops d → Hop Payload c d d' →
      Journey Payload c first (hops + 1) d'

/-- The message a handler without interceptors is given for a delivery. -/
def Decoded (d : Delivery) (request : Message Payload) : Prop :=
  request.replyTo = d.replyTo ∧ ∃ fresh now,
    Envelope.fromHeaders fresh now d.headers d.routingKey d.messageId = some request.envelope

/-- The address is the one it was, and a request that named one is not turned away. -/
def KeepsAddress (Answer : Type) (first last : Message Payload) : Prop :=
  returnAddress last = returnAddress first ∧ (returnAddress first ≠ "" →
    (handle last : Step Payload Answer Ack).Always (Anything _) fun t _ ↦ ¬TurnedAway t)

/-! ## One hop -/

theorem headerReplyTo_free : Headers.isReserved headerReplyTo = false ∧ kept headerReplyTo = true := by
  decide

/-- A copy carries the header of the return address as it was read. -/
theorem copy_headerReplyTo {e copy : Envelope} {fresh : String} {now : Instant}
    {raw : Dict String Value} {routingKey messageId key : String}
    (hread : Envelope.fromHeaders fresh now raw routingKey messageId = some e)
    (halike : e.Alike copy) :
    (copy.toHeaders key).get? headerReplyTo = raw.get? headerReplyTo := by
  obtain ⟨hheaders, hextensions⟩ := Envelope.fromHeaders_headers hread headerReplyTo_free.1
  rw [← halike.extensions] at hextensions
  rw [Envelope.get?_toHeaders_of_application headerReplyTo_free.1 hextensions, halike.headers, hheaders]

/-- The header and the property of a message, beside those of the delivery it was made from. -/
def Carried (d : Delivery) (message : Outbound) : Prop :=
  message.replyTo = "" ∧ message.headers.get? headerReplyTo = d.headers.get? headerReplyTo

theorem Carried.arrives {d d' : Delivery} {message : Outbound} (h : Carried d message)
    (harrives : Arrives message d') :
    d'.replyTo = "" ∧ d'.headers.get? headerReplyTo = d.headers.get? headerReplyTo := by
  rw [harrives.1, harrives.2 _ headerReplyTo_free.2]
  exact h

/-- What the consumer sends on carries the header and drops the property. -/
theorem carried_turn {c : Consumer} {turn : Turn Payload} (hturn : turn.Possible c) {p : Publish}
    (hp : p ∈ publishes turn.events) : Carried turn.delivery p.message := by
  obtain ⟨copy, hmessage, halike⟩ := hturn.copy p hp
  obtain ⟨fresh, now, hread⟩ := hturn.read
  rw [hmessage]
  exact ⟨rfl, copy_headerReplyTo hread halike⟩

/-- The message a round of a replay sends is the one it pulled, going back. -/
theorem goingBack_of_pulls {o : Replay.Options} {s : Replay.State} {t : Replay.Trace}
    {x : Except Replay.Raised (Replay.State ⊕ ReplayResult)} (h : Replay.Pulls o s t x)
    {dead : Delivery} {exchange key : String} {message : Outbound} {answer : BrokerAnswer}
    (hpull : ⟨.pull o.queue, .ok (some dead)⟩ ∈ t) (hsent : ⟨.publish exchange key message, answer⟩ ∈ t) :
    ∃ id read e at_, Replay.Reads dead id read e ∧ message = Replay.goingBack o dead e at_ := by
  have hmoved : ∀ {d id read e asked at_ answer' last}, Replay.Reads d id read e →
      Replay.Asked o e d asked →
      t = Replay.published o d id read asked at_ e answer' ++ [last] →
      (∀ queue pulled, last ≠ ⟨.pull queue, pulled⟩) →
      (∀ exchange key message answer, last ≠ ⟨.publish exchange key message, answer⟩) →
      ∃ id read e at_, Replay.Reads dead id read e ∧ message = Replay.goingBack o dead e at_ := by
    rintro d id read e asked at_ answer' last hreads hasked rfl hnoPull hnoPublish
    have hdead : dead = d := by
      rcases hasked with ⟨-, rfl⟩ | ⟨-, rfl⟩
      · simpa [Replay.published, (hnoPull _ _).symm] using hpull
      · simpa [Replay.published, (hnoPull _ _).symm] using hpull
    have hmessage : message = Replay.goingBack o d e at_ := by
      rcases hasked with ⟨-, rfl⟩ | ⟨-, rfl⟩
      · simp [Replay.published, (hnoPublish _ _ _ _).symm] at hsent
        exact hsent.1.2.2
      · simp [Replay.published, (hnoPublish _ _ _ _).symm] at hsent
        exact hsent.1.2.2
    rw [hdead]
    exact ⟨id, read, e, at_, hreads, hmessage⟩
  cases h with
  | failed | drained | unreadable | raised | declined => simp at hsent
  | moved hreads hasked => exact hmoved hreads hasked rfl (by simp) (by simp)
  | unacked hreads hasked => exact hmoved hreads hasked rfl (by simp) (by simp)
  | refused hreads hasked => exact hmoved hreads hasked rfl (by simp) (by simp)

/-- What a replay sends on carries the header and drops the property. -/
theorem carried_goingBack {o : Replay.Options} {dead : Delivery} {id : String} {read at_ : Instant}
    {e : Envelope} (hreads : Replay.Reads dead id read e) :
    Carried dead (Replay.goingBack o dead e at_) := by
  have hback : e.Alike (if o.restart then e.restarted else e) := by
    split
    · exact e.alike_restarted
    · exact e.alike_self
  refine ⟨rfl, ?_⟩
  rw [Replay.goingBack, Dict.get?_set_ne (by decide), Dict.get?_set_ne (by decide),
    Dict.get?_set_ne (by decide)]
  exact copy_headerReplyTo hreads.1 hback

/-- After any hop the header is what it was, and the property is empty. -/
theorem Hop.carries {c : Consumer} {d d' : Delivery} (h : Hop Payload c d d') :
    d'.replyTo = "" ∧ d'.headers.get? headerReplyTo = d.headers.get? headerReplyTo := by
  cases h with
  | retried turn p hturn hd hp _ harrives =>
      rw [← hd]
      exact (carried_turn hturn hp).arrives harrives
  | replayed turn p dead o s t x exchange key message answer hturn hd hp _ hdead _ hrun hpull hsent harrives =>
      obtain ⟨id, read, e, at_, hreads, rfl⟩ := goingBack_of_pulls
        (always_iff_runs.mp Replay.pullOne_spec t x hrun) hpull hsent
      obtain ⟨hproperty, hheader⟩ := (carried_goingBack hreads).arrives harrives
      refine ⟨hproperty, ?_⟩
      rw [hheader, ((carried_turn hturn hp).arrives hdead).2, hd]

/-- Over a journey the header is what it was, and the property is empty after the first hop. -/
theorem Journey.carries {c : Consumer} {first last : Delivery} {hops : ℕ}
    (h : Journey Payload c first hops last) :
    last.headers.get? headerReplyTo = first.headers.get? headerReplyTo ∧
      last.replyTo = if hops = 0 then first.replyTo else "" := by
  induction h with
  | start => exact ⟨rfl, (if_pos rfl).symm⟩
  | hop _ hhop ih =>
      obtain ⟨hproperty, hheader⟩ := hhop.carries
      refine ⟨hheader.trans ih.1, ?_⟩
      rw [if_neg (Nat.succ_ne_zero _), hproperty]

theorem returnAddress_of_decoded {d : Delivery} {request : Message Payload} (h : Decoded d request) :
    returnAddress request = orElse (named (d.headers.get? headerReplyTo)) d.replyTo := by
  obtain ⟨hproperty, fresh, now, hread⟩ := h
  rw [returnAddress, hproperty, (Envelope.fromHeaders_headers hread headerReplyTo_free.1).1]

/-! ## A request that is put back -/

/-- The copy of a request, delivered. -/
def afterPutBack (d : Delivery) (e : Envelope) : Delivery :=
  { d with tag := d.tag + 1, headers := e.toHeaders d.routingKey, replyTo := "" }

section afterPutBack

variable {d : Delivery} {e : Envelope} {fresh : String} {now : Instant}
  (hread : Envelope.fromHeaders fresh now d.headers d.routingKey d.messageId = some e)

include hread

/-- A copy of an envelope that was read can be read. -/
theorem isSome_read_afterPutBack :
    (Envelope.fromHeaders fresh now (afterPutBack d e).headers (afterPutBack d e).routingKey
      (afterPutBack d e).messageId).isSome = true := by
  have hseen : (afterPutBack d e).headers.get? Headers.firstSeen = some (.int (millis e.firstSeen)) :=
    Envelope.get?_toHeaders_firstSeen e d.routingKey
  rw [Envelope.isSome_fromHeaders, hseen, number_some_int,
    fromMillis_millis (Envelope.fromHeaders_firstSeen hread)]
  rfl

/-- A handler that answers in progress sends a request on a hop. -/
theorem hop_putBack (c : Consumer) : Hop Unit c d (afterPutBack d e) := by
  let turn : Turn Unit := ⟨d, e, [⟨.decode d.body d.contentType, .ok ()⟩,
    ⟨.invoke ⟨c.queue, e, (), d.body, d.contentType, d.routingKey, d.redelivered, d.replyTo⟩,
      (e, .ok (.ack (.inProgress 0)))⟩,
    ⟨.publish "" c.queue (hop d e), .answered ⟨e.id, true, true, ""⟩⟩, ⟨.ack d.tag, .ok ()⟩]⟩
  have hrun : Runs Consumer.Answered ({ c with halted := false }.handleOne d e) turn.events (.ok ()) := by
    refine .ask (fun f hf ↦ nomatch hf) (.ask (fun f hf ↦ nomatch hf) ?_)
    exact .ask (fun f hf ↦ nomatch hf) (.ask trivial (.ret ()))
  have hpossible : turn.Possible c := by
    refine ⟨⟨_, _, hread⟩, ⟨false, _, hrun⟩, fun p hp ↦ ?_⟩
    obtain rfl := List.mem_singleton.mp hp
    rfl
  exact .retried turn ⟨"", c.queue, hop d e, true⟩ hpossible rfl (List.mem_singleton_self _) (.inl rfl)
    ⟨rfl, fun _ _ ↦ rfl⟩

end afterPutBack

/-- A request keeps its return address over a journey exactly when there was no
hop, or the header names the address, or the property named none either. -/
theorem return_address_kept_iff (c : Consumer) {first last : Delivery} {hops : ℕ}
    {request request' : Message Payload} (hjourney : Journey Payload c first hops last)
    (hfirst : Decoded first request) (hlast : Decoded last request') :
    KeepsAddress Answer request request' ↔
      hops = 0 ∨ named (first.headers.get? headerReplyTo) ≠ "" ∨ first.replyTo = "" := by
  obtain ⟨hheader, hproperty⟩ := hjourney.carries
  have hthere := returnAddress_of_decoded hfirst
  have hhere := returnAddress_of_decoded hlast
  rw [hheader, hproperty] at hhere
  have haddress : returnAddress request' = returnAddress request ↔
      hops = 0 ∨ named (first.headers.get? headerReplyTo) ≠ "" ∨ first.replyTo = "" := by
    rw [hhere, hthere]
    by_cases hhops : hops = 0
    · simp [hhops]
    · by_cases hnamed : named (first.headers.get? headerReplyTo) = ""
      · simp [hhops, hnamed]
      · simp [hhops, hnamed, orElse]
  rw [← haddress]
  refine ⟨fun h ↦ h.1, fun h ↦ ⟨h, fun hne ↦ ?_⟩⟩
  refine (handle_spec request').mono fun t x ht hturned ↦ ?_
  rw [← h] at hne
  exact hne (ht.1.mp hturned)

/-- A request with the header keeps its address when it is put back. -/
theorem return_address_kept_header :
    let d : Delivery := ⟨1, [104, 105], none, "prices", "m1",
      Dict.set ∅ headerReplyTo (.text "caller"), false, "caller"⟩
    ∃ request request' : Message Unit, returnAddress request = "caller" ∧
      (KeepsAddress Unit request request' ↔
        1 = 0 ∨ named (d.headers.get? headerReplyTo) ≠ "" ∨ d.replyTo = "") := by
  intro d
  let c : Consumer := ⟨⟨5000000, 1000⟩, "prices", fixedRetry 3 0, false⟩
  have hheader : d.headers.get? headerReplyTo = some (.text "caller") := Dict.get?_set_self
  have hseen : d.headers.get? Headers.firstSeen = none := Dict.get?_set_ne (by decide)
  have hsome : (Envelope.fromHeaders "f1" 0 d.headers d.routingKey d.messageId).isSome = true := by
    rw [Envelope.isSome_fromHeaders, hseen, number_none, millis_zero, fromMillis_zero]
    rfl
  obtain ⟨e, hread⟩ := Option.isSome_iff_exists.mp hsome
  obtain ⟨e', hread'⟩ := Option.isSome_iff_exists.mp (isSome_read_afterPutBack hread)
  let request : Message Unit := ⟨(), e, "prices", none, false, d.body, "caller"⟩
  let request' : Message Unit := ⟨(), e', "prices", none, false, d.body, ""⟩
  have hdecoded : Decoded d request := ⟨rfl, _, _, hread⟩
  refine ⟨request, request', ?_, return_address_kept_iff c (.hop .start (hop_putBack hread c))
    hdecoded ⟨rfl, _, _, hread'⟩⟩
  rw [returnAddress_of_decoded hdecoded, hheader]
  rfl

/-- A request with the property alone, as Java and .NET send it, is put back
once: the copy names nowhere to reply, and the responder turns it away. -/
theorem return_address_lost :
    let c : Consumer := ⟨⟨5000000, 1000⟩, "prices", fixedRetry 3 0, false⟩
    let d : Delivery := ⟨1, [104, 105], none, "prices", "m1", ∅, false, "caller"⟩
    let d' := afterPutBack d (Envelope.new "m1" "prices" 0)
    ∃ request request' : Message Unit, Journey Unit c d 1 d' ∧ Decoded d request ∧
      Decoded d' request' ∧ returnAddress request = "caller" ∧ returnAddress request' = "" ∧
      ¬KeepsAddress Unit request request' := by
  intro c d d'
  have hread : Envelope.fromHeaders "f1" 0 d.headers d.routingKey d.messageId =
      some (Envelope.new "m1" "prices" 0) := Envelope.fromHeaders_empty
  obtain ⟨e', hread'⟩ := Option.isSome_iff_exists.mp (isSome_read_afterPutBack hread)
  let request : Message Unit :=
    ⟨(), Envelope.new "m1" "prices" 0, "prices", none, false, d.body, "caller"⟩
  let request' : Message Unit := ⟨(), e', "prices", none, false, d.body, ""⟩
  have hjourney : Journey Unit c d 1 d' := .hop .start (hop_putBack hread c)
  have hdecoded : Decoded d request := ⟨rfl, _, _, hread⟩
  have hdecoded' : Decoded d' request' := ⟨rfl, _, _, hread'⟩
  have hthere : returnAddress request = "caller" := by
    rw [returnAddress_of_decoded hdecoded, Dict.get?_empty]
    rfl
  have hhere : returnAddress request' = "" := by
    rw [returnAddress_of_decoded hdecoded', hjourney.carries.1, Dict.get?_empty]
    rfl
  refine ⟨request, request', hjourney, hdecoded, hdecoded', hthere, hhere, fun hkeeps ↦ ?_⟩
  have hsame := hkeeps.1
  rw [hthere, hhere] at hsame
  exact absurd hsame (by decide)

end RequestReply

end AcemqAmqp
