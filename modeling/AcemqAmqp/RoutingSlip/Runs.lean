import AcemqAmqp.Consumer.Safety
import AcemqAmqp.RoutingSlip.Pipeline
import Mathlib.Data.List.DropRight

/-!
# The runs of a pipeline

Messages enter a declared pipeline through `send`, which mints a run for each,
or without a slip on the queue of a step, whose handler has a slip of its own
for them.  Everything that is published on their way, by a handler or by the
consumer that puts a delivery back, descends from the message that entered.
-/

namespace AcemqAmqp

open Interaction Program

/-! ## What a message says of its route -/

/-- A published message, and the entry of the history it descends from. -/
structure Traveller where
  root : ℕ
  exchange : String
  routingKey : String
  messageId : String
  headers : Dict String Value

namespace Traveller

def of (root : ℕ) (exchange routingKey : String) (message : Outbound) : Traveller :=
  ⟨root, exchange, routingKey, message.messageId, message.headers⟩

variable (t : Traveller)

def route : String := text (t.headers.get? Headers.route)

def runId : String := text (t.headers.get? Headers.routeId)

/-- It carries a declared route. -/
def Routed : Prop := splitNames t.route ≠ []

instance : Decidable t.Routed := inferInstanceAs (Decidable (_ ≠ _))

/-- It carries no itinerary in either form. -/
def Slipless : Prop :=
  (t.headers.get? headerRoutingSlip = none ∨ t.headers.get? headerRoutingSlip = some .null) ∧ ¬t.Routed

/-- The broker hands it to a consumer, perhaps with headers of its own. -/
structure Arrives (d : Delivery) : Prop where
  messageId : d.messageId = t.messageId
  headers : ∀ name, Headers.isReserved name = true ∨ name = headerRoutingSlip →
    d.headers.get? name = t.headers.get? name

end Traveller

/-! ## Histories -/

/-- How a message entered. -/
inductive Entry
  | sent (run : String)
  | straight
  deriving DecidableEq

/-- The messages that have entered, and everything published so far. -/
structure System where
  entries : List Entry
  travellers : List Traveller

namespace System

def initial : System := ⟨[], []⟩

def publish (s : System) (ts : List Traveller) : System :=
  { s with travellers := s.travellers ++ ts }

def enter (s : System) (entry : Entry) (t : ℕ → Traveller) : System where
  entries := s.entries ++ [entry]
  travellers := s.travellers ++ [t s.entries.length]

end System

namespace Pipeline

variable (p : Pipeline)

/-- `send`, up to its publish. -/
def send (run : String) (e : Envelope) : Except Failure Stop := start (p.route "" run) none run e

def publisher (stop : Stop) : Publisher :=
  ⟨p.connection, p.origin, stop.exchange, stop.routingKey, p.contentType, true, true⟩

/-- The identifiers `build` mints for its steps are distinct. -/
structure Minted (mints : ℕ → Tick) : Prop where
  named : ∀ position < p.steps.length, (mints position).run ≠ ""
  distinct : ∀ position < p.steps.length, ∀ position' < p.steps.length,
    (mints position).run = (mints position').run → position = position'

/-- An identifier that has not been minted before. -/
structure Fresh (mints : ℕ → Tick) (s : System) (run : String) : Prop where
  named : run ≠ ""
  unsent : .sent run ∉ s.entries
  unminted : ∀ position < p.steps.length, run ≠ (mints position).run

/-- What can happen.  Nothing is taken out of the system: a message may be
delivered any number of times.  A handler that has sent a message on and the
consumer's own copies are moves of their own, since a consumer can die between them. -/
inductive Move (Payload : Type) (mints : ℕ → Tick) : System → System → Prop
  | sent {s : System} {run : String} {e : Envelope} {stop : Stop} (body : Bytes) :
      p.Fresh mints s run → p.send run e = .ok stop →
      Move Payload mints s (s.enter (.sent run) fun root ↦
        .of root stop.exchange stop.routingKey ((p.publisher stop).outbound body stop.envelope))
  | straight {s : System} {t : Traveller} {position : ℕ} :
      p.Lands t.exchange t.routingKey position → t.Slipless →
      Move Payload mints s (s.enter .straight fun root ↦ { t with root := root })
  | followed {s : System} {t : Traveller} {position : ℕ} {d : Delivery} {fresh : String}
      {now : Instant} {message : Message Payload} {events : List (Event (Follower.Surroundings Payload))}
      {x : Except Failure Ack} :
      t ∈ s.travellers → p.Lands t.exchange t.routingKey position → t.Arrives d →
      Envelope.fromHeaders fresh now d.headers d.routingKey d.messageId = some message.envelope →
      Runs (Anything _) ((p.follower (mints position) position).travel message) events x →
      Move Payload mints s (s.publish <| (Follower.published events).map
        fun (exchange, routingKey, message) ↦ .of t.root exchange routingKey message)
  | settled {s : System} {t : Traveller} {position : ℕ} {step : String} {retry : RetryPolicy}
      {d : Delivery} {fresh : String} {now : Instant} {e : Envelope}
      {events : List (Event (Consumer.Broker Payload))} {x : Except Failure Unit} :
      t ∈ s.travellers → p.Lands t.exchange t.routingKey position →
      p.steps[position]? = some step → t.Arrives d →
      Envelope.fromHeaders fresh now d.headers d.routingKey d.messageId = some e →
      Runs Consumer.Answered ((p.consumer retry step).handleOne d e) events x →
      (∀ decided ∈ Consumer.decisions events, decided.1 = e) →
      Move Payload mints s (s.publish <| (Consumer.publishes events).map
        fun q ↦ .of t.root q.exchange q.key q.message)

/-- A history: what was published after any number of moves. -/
def History (Payload : Type) (mints : ℕ → Tick) (s : System) : Prop :=
  Relation.ReflTransGen (p.Move Payload mints) .initial s

/-- Messages without a slip are alone on the queue of a step that has a next
one: those of two entries are not on one such queue, and those of one entry are
not on two. -/
def Alone (s : System) : Prop :=
  ∀ t ∈ s.travellers, ∀ t' ∈ s.travellers, t.Slipless → t'.Slipless →
    ∀ position position', p.Lands t.exchange t.routingKey position →
      p.Lands t'.exchange t'.routingKey position' → position + 1 < p.steps.length →
      position' + 1 < p.steps.length → (t.root = t'.root ↔ position = position')

end Pipeline

/-! ## Slips on the wire -/

theorem trimmed_strip (cs : List Char) : strip (strip cs) = strip cs := by
  have hstrip : ∀ cs, strip cs = (cs.dropWhile isSpace).rdropWhile isSpace := fun _ ↦ rfl
  set front := cs.dropWhile isSpace with hfront
  have hkept : (front.rdropWhile isSpace).dropWhile isSpace = front.rdropWhile isSpace := by
    rw [List.dropWhile_eq_self_iff]
    intro hpos
    have hprefix := List.rdropWhile_prefix isSpace front
    have hfrontPos : 0 < front.length := hpos.trans_le hprefix.length_le
    rw [List.IsPrefix.getElem hprefix]
    exact List.dropWhile_eq_self_iff.mp (List.dropWhile_idempotent isSpace cs) hfrontPos
  rw [hstrip cs, ← hfront, hstrip, hkept, List.rdropWhile_idempotent]

theorem splitNames_empty : splitNames "" = [] := by decide +kernel

theorem trimmed_of_mem_splitNames {route name : String} (h : name ∈ splitNames route) :
    name ≠ "" ∧ Trimmed name := by
  obtain ⟨cs, hcs, rfl⟩ := List.mem_map.mp h
  obtain ⟨hmem, hne⟩ := List.mem_filter.mp hcs
  obtain ⟨part, -, rfl⟩ := List.mem_map.mp hmem
  refine ⟨by simpa using hne, ?_⟩
  rw [Trimmed, String.toList_ofList]
  exact trimmed_strip part

section wire

variable {slip : RoutingSlip} {e e' : Envelope} {fresh pipeline : String} {t : Traveller} {root : ℕ}

theorem outgoing_route (p : Publisher) (e : Envelope) : (p.outgoing e).route = e.route ∧
    (p.outgoing e).routeId = e.routeId ∧ (p.outgoing e).headers = e.headers ∧
      (p.outgoing e).extensions = e.extensions := by
  unfold Publisher.outgoing
  split
  · exact ⟨rfl, rfl, rfl, rfl⟩
  · exact ⟨rfl, rfl, rfl, rfl⟩

theorem route_toHeaders (e : Envelope) (routingKey : String) :
    text ((e.toHeaders routingKey).get? Headers.route) = e.route := by
  rw [Envelope.get?_toHeaders_known (by decide), Envelope.text_route]

theorem routeId_toHeaders (h : e.route ≠ "") (routingKey : String) :
    text ((e.toHeaders routingKey).get? Headers.routeId) = e.routeId := by
  rw [Envelope.get?_toHeaders_known (by decide), Envelope.text_routeId h]

theorem route_outbound (p : Publisher) (body : Bytes) (e : Envelope) (root : ℕ)
    (exchange routingKey : String) :
    (Traveller.of root exchange routingKey (p.outbound body e)).route = e.route :=
  (route_toHeaders _ _).trans (outgoing_route p e).1

theorem routed_outbound (p : Publisher) (body : Bytes) (root : ℕ) (exchange routingKey : String)
    (h : splitNames e.route ≠ []) :
    (Traveller.of root exchange routingKey (p.outbound body e)).Routed ∧
      (Traveller.of root exchange routingKey (p.outbound body e)).runId = e.routeId := by
  obtain ⟨hroute, hrouteId, -, -⟩ := outgoing_route p e
  have hne : e.route ≠ "" := by
    intro hempty
    rw [hempty] at h
    exact h splitNames_empty
  constructor
  · rwa [Traveller.Routed, route_outbound]
  · exact (routeId_toHeaders (hroute.trans_ne hne) _).trans hrouteId

/-- What a message that is read says of its route. -/
structure Reads (t : Traveller) (e : Envelope) : Prop where
  route : e.route = t.route
  runId : e.routeId = t.runId
  itinerary : e.headers.get? headerRoutingSlip = t.headers.get? headerRoutingSlip
  extensions : e.extensions.get? headerRoutingSlip = none

theorem reads_of_arrives {d : Delivery} {now : Instant} (harrives : t.Arrives d)
    (h : Envelope.fromHeaders fresh now d.headers d.routingKey d.messageId = some e) : Reads t e := by
  obtain ⟨hheaders, hextensions⟩ := Envelope.fromHeaders_headers h headerRoutingSlip_free
  simp only [Envelope.fromHeaders, Option.bind_eq_bind, Option.bind_eq_some_iff, Option.pure_def,
    Option.some.injEq] at h
  obtain ⟨firstSeen, -, rfl⟩ := h
  exact ⟨congrArg text (harrives.headers _ (.inl (by decide))),
    congrArg text (harrives.headers _ (.inl (by decide))),
    hheaders.trans (harrives.headers _ (.inr rfl)), hextensions⟩

/-- An itinerary that is written is the header of the application, and there is
no declared route beside one that was not there. -/
theorem onto_json (hform : slip.form = .json) (h : slip.onto fresh e = .ok e') :
    e'.headers.get? headerRoutingSlip = some (.text slip.toHeader) ∧ e'.route = e.route ∧
      e'.extensions = e.extensions := by
  rw [RoutingSlip.onto, hform] at h
  obtain rfl := Except.ok.inj h
  exact ⟨Dict.get?_set_self, rfl, rfl⟩

theorem onto_stepNames (hform : slip.form = .stepNames)
    (htrimmed : ∀ name ∈ slip.every.map Step.word, Trimmed name) (h : slip.onto fresh e = .ok e') :
    splitNames e'.route ≠ [] ∧ e'.routeId = orElse slip.runId fresh := by
  rw [RoutingSlip.onto, hform] at h
  obtain ⟨names, hnames, h⟩ := Fallible.bind_ok_iff.mp h
  obtain ⟨rfl, hdeclarable⟩ := stepNames_ok_iff.mp hnames
  obtain rfl := Except.ok.inj h
  have hne : slip.every.map Step.word ≠ [] := by
    simpa using hdeclarable.nonempty
  refine ⟨?_, rfl⟩
  show splitNames (joinNames (slip.every.map Step.word)) ≠ []
  rw [(splitNames_joinNames_iff hne ?_ ?_).mpr htrimmed]
  · exact hne
  · intro hmem
    obtain ⟨s, hs, hword⟩ := List.mem_map.mp hmem
    exact (hdeclarable.named s hs).1 hword
  · intro name hname
    obtain ⟨s, hs, rfl⟩ := List.mem_map.mp hname
    exact (hdeclarable.named s hs).2.1

theorem itinerary_form {room : Room} {raw : String} (h : itinerary room e raw = .ok slip) :
    slip.form = .json := by
  unfold itinerary at h
  cases hloads : Json.loadsWithin (room.reading.getD raw.toList.length) raw with
  | error trouble =>
      rw [hloads] at h
      cases trouble <;> cases h
  | ok written =>
      rw [hloads] at h
      dsimp only at h
      split at h
      · rename_i read hread
        obtain rfl := Except.ok.inj h
        cases written with
        | obj items =>
            obtain ⟨steps, -, hread⟩ := Fallible.bind_ok_iff.mp hread
            obtain ⟨done, -, hread⟩ := Fallible.bind_ok_iff.mp hread
            obtain rfl := Except.ok.inj hread
            rfl
        | _ => cases hread
      · cases h

/-- The three things a message can carry. -/
theorem slipWithin_cases {room : Room} (hreads : Reads t e) {found : Option RoutingSlip}
    (h : slipWithin room e pipeline = .ok found) :
    (∃ slip, found = some slip ∧ slip.form = .json) ∨
      (t.Routed ∧ ∃ slip, found = some slip ∧ slip.form = .stepNames ∧ slip.runId = t.runId ∧
        slip.every.map Step.word = splitNames t.route) ∨
      (t.Slipless ∧ found = none) := by
  have hdeclared : (t.headers.get? headerRoutingSlip = none ∨
      t.headers.get? headerRoutingSlip = some .null) → found = declaredRoute e pipeline →
      (t.Routed ∧ ∃ slip, found = some slip ∧ slip.form = .stepNames ∧ slip.runId = t.runId ∧
        slip.every.map Step.word = splitNames t.route) ∨ (t.Slipless ∧ found = none) := by
    intro hnone hfound
    unfold declaredRoute at hfound
    simp only [hreads.route] at hfound
    by_cases hnames : splitNames t.route = []
    · rw [if_pos hnames] at hfound
      exact .inr ⟨⟨hnone, not_not.mpr hnames⟩, hfound⟩
    · rw [if_neg hnames] at hfound
      refine .inl ⟨hnames, _, hfound, rfl, hreads.runId, ?_⟩
      have hword : ∀ name, (Step.declared pipeline name).word = name := orElse_self
      rw [RoutingSlip.every, List.take_append_drop, List.map_map]
      exact (List.map_congr_left fun name _ ↦ hword name).trans (List.map_id _)
  unfold slipWithin at h
  rw [hreads.itinerary] at h
  split at h
  · rename_i hnone
    exact .inr (hdeclared (.inl hnone) (Except.ok.inj h).symm)
  · rename_i hnull
    exact .inr (hdeclared (.inr hnull) (Except.ok.inj h).symm)
  · obtain ⟨slip, hslip, hsome⟩ := Fallible.map_ok_iff.mp h
    exact .inl ⟨slip, hsome.symm, itinerary_form hslip⟩
  · obtain ⟨slip, hslip, hsome⟩ := Fallible.map_ok_iff.mp h
    exact .inl ⟨slip, hsome.symm, itinerary_form hslip⟩
  · cases h

end wire

/-! ## What a hop says of its run -/

namespace Pipeline

variable {p : Pipeline} {mint : Tick} {position : ℕ}

theorem route_word (p : Pipeline) (runId fresh : String) :
    (p.route runId fresh).every.map Step.word = p.steps := by
  have hword : ∀ name, (Step.declared p.name name).word = name := orElse_self
  rw [RoutingSlip.every, route, List.nil_append, List.map_map]
  exact (List.map_congr_left fun name _ ↦ hword name).trans (List.map_id _)

theorem word_completedAt (s : Step) (completedAt : String) :
    Step.word { s with completedAt := completedAt } = s.word := rfl

theorem steps_advance (slip : RoutingSlip) (now : Instant) :
    (slip.advance now).steps = slip.steps.tail ∧ (slip.advance now).runId = slip.runId := by
  unfold RoutingSlip.advance
  split
  · rename_i hsteps
    rw [hsteps]
    exact ⟨rfl, rfl⟩
  · rename_i hsteps
    rw [hsteps]
    exact ⟨rfl, rfl⟩

theorem unslipped_spec (p : Pipeline) (mint : Tick) (position : ℕ) :
    (p.unslipped mint position).form = .stepNames ∧
      (p.unslipped mint position).runId = mint.run ∧
      (p.unslipped mint position).every.map Step.word = p.steps ∧
      (p.unslipped mint position).steps.length = p.steps.length - position := by
  induction position with
  | zero =>
      refine ⟨rfl, rfl, p.route_word "" mint.run, ?_⟩
      simp [unslipped, route]
  | succ position ih =>
      obtain ⟨hform, hrun, hwords, hlength⟩ := ih
      obtain ⟨hsteps, hrun'⟩ := steps_advance (p.unslipped mint position) mint.now
      rw [unslipped, advance_form, hrun', every_advance word_completedAt, hsteps, List.length_tail,
        hlength]
      exact ⟨hform, hrun, hwords, Nat.sub_sub ..⟩

theorem trimmed_steps (p : Pipeline) : ∀ name ∈ p.steps, Trimmed name := fun name hname ↦
  (isStepName_spec (p.valid name hname)).2.1

theorem writeOn_ok {slip : RoutingSlip} {origin : String} {tick : Tick} {onwards : Step} {e : Envelope}
    {stop : Stop} (h : writeOn slip none origin tick onwards e = .ok stop) :
    ∃ e', (slip.advance tick.now).onto tick.run (e.passedOn tick.id origin) = .ok e' ∧
      stop = ⟨onwards.exchange, onwards.routingKey, slip.advance tick.now, e'⟩ := by
  obtain ⟨written, hform, h⟩ := Fallible.bind_ok_iff.mp h
  obtain rfl := Except.ok.inj hform
  obtain ⟨e', hwritten, hstop⟩ := Fallible.bind_ok_iff.mp h
  exact ⟨e', hwritten, (Except.ok.inj hstop).symm⟩

/-- Where the run of a message that was sent on comes from. -/
structure Hopped (p : Pipeline) (mint : Tick) (position : ℕ) (t hop : Traveller) : Prop where
  slipped : ¬hop.Slipless
  run : hop.Routed → (t.Routed ∧ ∃ fresh, hop.runId = orElse t.runId fresh) ∨
    (t.Slipless ∧ position + 1 < p.steps.length ∧ ∃ fresh, hop.runId = orElse mint.run fresh)

theorem hopped_of_sendsOn {Payload : Type} {t : Traveller} {e : Envelope} (hreads : Reads t e)
    {events : List (Event (Follower.Surroundings Payload))}
    (h : (p.follower mint position).SendsOn e events) (root : ℕ) :
    ∀ sent ∈ Follower.published events,
      p.Hopped mint position t (.of root sent.1 sent.2.1 sent.2.2) := by
  obtain ⟨slip, tick, onwards, stop, body, hslip, -, hnext, hwrite, hpublished⟩ := h
  obtain ⟨e', hwritten, rfl⟩ := writeOn_ok hwrite
  set f := p.follower mint position with hf
  set stop : Stop := ⟨onwards.exchange, onwards.routingKey, slip.advance tick.now, e'⟩ with hstop
  rw [hpublished]
  intro sent hsent
  obtain rfl := List.mem_singleton.mp hsent
  set hop := Traveller.of root stop.exchange stop.routingKey ((f.publisher stop).outbound body e')
    with hhop
  have hnamed : ∀ run, slip.form = .stepNames → slip.runId = run →
      (∀ name ∈ slip.every.map Step.word, Trimmed name) → hop.Routed ∧
        hop.runId = orElse run tick.run := by
    intro run hform hrun htrimmed
    rw [← every_advance word_completedAt slip tick.now] at htrimmed
    obtain ⟨hne, hid⟩ := onto_stepNames ((advance_form slip tick.now).trans hform) htrimmed hwritten
    rw [(steps_advance slip tick.now).2, hrun] at hid
    obtain ⟨hhopRouted, hhopRun⟩ := routed_outbound (f.publisher stop) body root stop.exchange
      stop.routingKey hne
    exact ⟨hhopRouted, hhopRun.trans hid⟩
  rw [Follower.slipOf] at hslip
  cases hfound : slipWithin f.room e f.pipeline with
  | error unreadable => simp [hfound] at hslip
  | ok found =>
      rw [hfound] at hslip
      rcases slipWithin_cases hreads hfound with ⟨slip', rfl, hform⟩ |
        ⟨ht, slip', rfl, hform, hrun, hwords⟩ | ⟨ht, rfl⟩
      · obtain rfl := Except.ok.inj hslip
        obtain ⟨hitinerary, hnoRoute, hextension⟩ :=
          onto_json ((advance_form slip' tick.now).trans hform) hwritten
        have hfree : e'.extensions.get? headerRoutingSlip = none := by
          rw [hextension]
          exact hreads.extensions
        obtain ⟨-, -, hheaders, hextensions⟩ := outgoing_route (f.publisher stop) e'
        have hheader : hop.headers.get? headerRoutingSlip =
            some (.text (slip'.advance tick.now).toHeader) := by
          refine (Envelope.get?_toHeaders_of_application headerRoutingSlip_free ?_).trans ?_
          · rw [hextensions, hfree]
          · rw [hheaders, hitinerary]
        have hunrouted : ¬hop.Routed := by
          rw [Traveller.Routed, route_outbound, hnoRoute, not_not]
          exact splitNames_empty
        refine ⟨fun hslipless ↦ ?_, fun hhopRouted ↦ absurd hhopRouted hunrouted⟩
        have hnone := hslipless.1
        simp [hheader] at hnone
      · obtain rfl := Except.ok.inj hslip
        obtain ⟨hhopRouted, hid⟩ := hnamed t.runId hform hrun fun name hname ↦
          (trimmed_of_mem_splitNames (hwords ▸ hname)).2
        exact ⟨fun hslipless ↦ hslipless.2 hhopRouted, fun _ ↦ .inl ⟨ht, _, hid⟩⟩
      · obtain rfl := Except.ok.inj hslip
        obtain ⟨hform, hrun, hwords, hlength⟩ := p.unslipped_spec mint position
        obtain ⟨hhopRouted, hid⟩ := hnamed mint.run hform hrun fun name hname ↦
          p.trimmed_steps name (hwords ▸ hname)
        refine ⟨fun hslipless ↦ hslipless.2 hhopRouted, fun _ ↦ .inr ⟨ht, ?_, _, hid⟩⟩
        rw [RoutingSlip.next, (steps_advance _ tick.now).1] at hnext
        obtain ⟨rest, hrest⟩ := List.head?_eq_some_iff.mp hnext
        have hleft := congrArg List.length hrest
        rw [List.length_tail, hlength, List.length_cons] at hleft
        omega

/-- What a copy the consumer makes of a message says of its route: what the
message says. -/
theorem copied_route {t : Traveller} {d : Delivery} {e copy : Envelope} (hreads : Reads t e)
    (hcopied : Consumer.Copied e copy) (root : ℕ) (exchange key : String) :
    ((Traveller.of root exchange key (Consumer.hop d copy)).Slipless → t.Slipless) ∧
      ((Traveller.of root exchange key (Consumer.hop d copy)).Routed → t.Routed ∧
        (Traveller.of root exchange key (Consumer.hop d copy)).runId = t.runId) := by
  have hkept : copy.route = e.route ∧ copy.routeId = e.routeId ∧ copy.headers = e.headers ∧
      copy.extensions = e.extensions := by
    cases hcopied with
    | self | attempt | error => exact ⟨rfl, rfl, rfl, rfl⟩
  obtain ⟨hroute, hrouteId, hheaders, hextensions⟩ := hkept
  set made := Traveller.of root exchange key (Consumer.hop d copy) with hmade
  have hmadeRoute : made.route = t.route :=
    (route_toHeaders copy d.routingKey).trans (hroute.trans hreads.route)
  have hrouted : made.Routed ↔ t.Routed := by rw [Traveller.Routed, Traveller.Routed, hmadeRoute]
  have hheader : made.headers.get? headerRoutingSlip = t.headers.get? headerRoutingSlip := by
    refine (Envelope.get?_toHeaders_of_application headerRoutingSlip_free ?_).trans ?_
    · rw [hextensions, hreads.extensions]
    · rw [hheaders, hreads.itinerary]
  constructor
  · rintro ⟨hnone, hunrouted⟩
    rw [hheader] at hnone
    exact ⟨hnone, fun h ↦ hunrouted (hrouted.mpr h)⟩
  · intro h
    refine ⟨hrouted.mp h, (routeId_toHeaders ?_ d.routingKey).trans (hrouteId.trans hreads.runId)⟩
    rw [hroute, hreads.route, ← hmadeRoute]
    intro hempty
    rw [Traveller.Routed, hempty] at h
    exact h splitNames_empty

/-! ## What a history keeps -/

variable {Payload : Type} {mints : ℕ → Tick} {s s' : System} {t : Traveller}

/-- Where the run of a message comes from: it was minted when the message
entered, or it is the one of a step whose queue the message was on without a slip. -/
def Origin (p : Pipeline) (mints : ℕ → Tick) (s : System) (root : ℕ) (runId : String) : Prop :=
  s.entries[root]? = some (.sent runId) ∨
    ∃ t ∈ s.travellers, t.root = root ∧ t.Slipless ∧ ∃ position,
      p.Lands t.exchange t.routingKey position ∧ position + 1 < p.steps.length ∧
        runId = (mints position).run

structure Kept (p : Pipeline) (mints : ℕ → Tick) (s : System) (t : Traveller) : Prop where
  rooted : t.root < s.entries.length
  slipless : t.Slipless → s.entries[t.root]? = some .straight
  routed : t.Routed → p.Origin mints s t.root t.runId

/-- The invariant of a history. -/
structure Sound (p : Pipeline) (mints : ℕ → Tick) (s : System) : Prop where
  kept : ∀ t ∈ s.travellers, p.Kept mints s t
  once : ∀ (root root' : ℕ) (run : String), s.entries[root]? = some (.sent run) →
    s.entries[root']? = some (.sent run) → root = root'
  fresh : ∀ run, Entry.sent run ∈ s.entries →
    run ≠ "" ∧ ∀ position < p.steps.length, run ≠ (mints position).run

/-- More has entered, and more has been published. -/
structure Before (s s' : System) : Prop where
  entries : ∀ (root : ℕ) (entry : Entry), s.entries[root]? = some entry → s'.entries[root]? = some entry
  travellers : ∀ t ∈ s.travellers, t ∈ s'.travellers

theorem before_enter (entry : Entry) (t : ℕ → Traveller) : Before s (s.enter entry t) where
  entries root entry' h := by
    rw [System.enter, List.getElem?_append_left (List.getElem?_eq_some_iff.mp h).1, h]
  travellers t ht := List.mem_append_left _ ht

theorem before_publish (ts : List Traveller) : Before s (s.publish ts) where
  entries _ _ h := h
  travellers _ ht := List.mem_append_left _ ht

theorem Origin.mono {root : ℕ} {runId : String} (h : p.Origin mints s root runId)
    (hbefore : Before s s') : p.Origin mints s' root runId := by
  rcases h with hsent | ⟨t, ht, hroot, hslipless, hstep⟩
  · exact .inl (hbefore.entries _ _ hsent)
  · exact .inr ⟨t, hbefore.travellers t ht, hroot, hslipless, hstep⟩

theorem Kept.mono (h : p.Kept mints s t) (hbefore : Before s s') : p.Kept mints s' t where
  rooted := by
    obtain ⟨entry, hentry⟩ : ∃ entry, s.entries[t.root]? = some entry :=
      ⟨_, List.getElem?_eq_getElem h.rooted⟩
    exact (List.getElem?_eq_some_iff.mp (hbefore.entries _ _ hentry)).1
  slipless hslipless := hbefore.entries _ _ (h.slipless hslipless)
  routed hrouted := (h.routed hrouted).mono hbefore

theorem Origin.named (hminted : p.Minted mints) (hsound : p.Sound mints s) {root : ℕ} {runId : String}
    (h : p.Origin mints s root runId) : runId ≠ "" := by
  rcases h with hsent | ⟨t, -, -, -, position, -, hposition, rfl⟩
  · exact (hsound.fresh runId (List.mem_of_getElem? hsent)).1
  · exact hminted.named position (by omega)

/-- What is published on the way of a message descends from where it does. -/
theorem Sound.publish (hsound : p.Sound mints s) {ts : List Traveller}
    (hts : ∀ t ∈ ts, p.Kept mints s t) : p.Sound mints (s.publish ts) where
  kept t ht := by
    rcases List.mem_append.mp ht with hold | hnew
    · exact (hsound.kept t hold).mono (before_publish ts)
    · exact (hts t hnew).mono (before_publish ts)
  once := hsound.once
  fresh := hsound.fresh

theorem Sound.enter (hsound : p.Sound mints s) {entry : Entry} {t : ℕ → Traveller}
    (hentry : ∀ run, entry = .sent run → p.Fresh mints s run)
    (ht : p.Kept mints (s.enter entry t) (t s.entries.length)) : p.Sound mints (s.enter entry t) where
  kept t' ht' := by
    rcases List.mem_append.mp ht' with hold | hnew
    · exact (hsound.kept t' hold).mono (before_enter entry t)
    · rw [List.mem_singleton.mp hnew]
      exact ht
  once := by
    have hcases : ∀ (root : ℕ) (run : String), (s.entries ++ [entry])[root]? = some (.sent run) →
        s.entries[root]? = some (.sent run) ∨ root = s.entries.length ∧ entry = .sent run := by
      intro root run h
      rcases Nat.lt_trichotomy root s.entries.length with hlt | rfl | hgt
      · rw [List.getElem?_append_left hlt] at h
        exact .inl h
      · rw [List.getElem?_concat_length] at h
        exact .inr ⟨rfl, Option.some.inj h⟩
      · rw [List.getElem?_eq_none (by rw [List.length_append, List.length_singleton]; omega)] at h
        cases h
    intro root root' run h h'
    rcases hcases root run h with hold | ⟨rfl, hnew⟩
    · rcases hcases root' run h' with hold' | ⟨rfl, hnew'⟩
      · exact hsound.once root root' run hold hold'
      · exact absurd (List.mem_of_getElem? hold) (hentry run hnew').unsent
    · rcases hcases root' run h' with hold' | ⟨rfl, -⟩
      · exact absurd (List.mem_of_getElem? hold') (hentry run hnew).unsent
      · rfl
  fresh run hrun := by
    rcases List.mem_append.mp hrun with hold | hnew
    · exact hsound.fresh run hold
    · have hfresh := hentry run (List.mem_singleton.mp hnew).symm
      exact ⟨hfresh.named, hfresh.unminted⟩

theorem Sound.followed (hminted : p.Minted mints) (hsound : p.Sound mints s) (ht : t ∈ s.travellers)
    {position : ℕ} (hlands : p.Lands t.exchange t.routingKey position) {hop : Traveller}
    (hroot : hop.root = t.root) (h : p.Hopped (mints position) position t hop) :
    p.Kept mints s hop where
  rooted := hroot ▸ (hsound.kept t ht).rooted
  slipless hslipless := absurd hslipless h.slipped
  routed hrouted := by
    rw [hroot]
    rcases h.run hrouted with ⟨htRouted, fresh, hrun⟩ | ⟨hslipless, hposition, fresh, hrun⟩
    · have horigin := (hsound.kept t ht).routed htRouted
      rw [hrun, Envelope.orElse_of_ne_empty (horigin.named hminted hsound)]
      exact horigin
    · rw [hrun, Envelope.orElse_of_ne_empty (hminted.named position (by omega))]
      exact .inr ⟨t, ht, rfl, hslipless, position, hlands, hposition, rfl⟩

/-- A message that `send` publishes carries the run it minted. -/
theorem send_spec {run : String} {e : Envelope} {stop : Stop} (hrun : run ≠ "")
    (h : p.send run e = .ok stop) (body : Bytes) (root : ℕ) :
    (Traveller.of root stop.exchange stop.routingKey
        ((p.publisher stop).outbound body stop.envelope)).Routed ∧
      (Traveller.of root stop.exchange stop.routingKey
        ((p.publisher stop).outbound body stop.envelope)).runId = run := by
  rw [send, start] at h
  cases hnext : (p.route "" run).next with
  | none =>
      rw [hnext] at h
      cases h
  | some first =>
      rw [hnext] at h
      obtain ⟨slip, hslip, h⟩ := Fallible.bind_ok_iff.mp h
      obtain rfl := Except.ok.inj hslip
      obtain ⟨e', hwritten, hstop⟩ := Fallible.bind_ok_iff.mp h
      obtain rfl := Except.ok.inj hstop
      have htrimmed : ∀ name ∈ (p.route "" run).every.map Step.word, Trimmed name := by
        rw [route_word]
        exact p.trimmed_steps
      obtain ⟨hne, hid⟩ := onto_stepNames rfl htrimmed hwritten
      set stop : Stop := ⟨first.exchange, first.routingKey, p.route "" run, e'⟩
      obtain ⟨hrouted, hstopRun⟩ := routed_outbound (p.publisher stop) body root stop.exchange
        stop.routingKey hne
      exact ⟨hrouted, hstopRun.trans (hid.trans (Envelope.orElse_of_ne_empty hrun run))⟩

/-- One move keeps the invariant. -/
theorem Sound.move (hminted : p.Minted mints) (hsound : p.Sound mints s)
    (h : p.Move Payload mints s s') : p.Sound mints s' := by
  cases h with
  | @sent run e stop body hfresh hsend =>
      obtain ⟨hrouted, hrun⟩ := send_spec hfresh.named hsend body s.entries.length
      refine hsound.enter (fun run' hrun' ↦ Entry.sent.inj hrun' ▸ hfresh) ⟨?_, ?_, ?_⟩
      · simp [System.enter, Traveller.of]
      · exact fun hslipless ↦ absurd hrouted hslipless.2
      · intro _
        left
        rw [hrun]
        exact List.getElem?_concat_length
  | @straight t position hlands hslipless =>
      refine hsound.enter (fun run hrun ↦ nomatch hrun) ⟨?_, ?_, ?_⟩
      · simp [System.enter]
      · exact fun _ ↦ List.getElem?_concat_length
      · exact fun hrouted ↦ absurd hrouted hslipless.2
  | @followed t position d fresh now message events x ht hlands harrives hread hrun =>
      apply hsound.publish
      intro hop hhop
      obtain ⟨sent, hsent, rfl⟩ := List.mem_map.mp hhop
      rcases always_iff_runs.mp (Follower.travel_spec message) _ _ hrun with hnone | hsends
      · rw [hnone] at hsent
        exact absurd hsent List.not_mem_nil
      · exact hsound.followed hminted ht hlands rfl
          (hopped_of_sendsOn (reads_of_arrives harrives hread) hsends t.root sent hsent)
  | @settled t position step retry d fresh now e events x ht hlands hstep harrives hread hrun hleft =>
      apply hsound.publish
      intro made hmade
      obtain ⟨q, hq, rfl⟩ := List.mem_map.mp hmade
      obtain ⟨e', copy, hmessage, hcopied, hfrom⟩ :=
        always_iff_runs.mp Consumer.handleOne_copied _ _ hrun q hq
      have hsame : e' = e := hfrom.elim id fun ⟨decision, hdecided⟩ ↦ hleft _ hdecided
      subst hsame
      rw [hmessage]
      obtain ⟨hslipless, hrouted⟩ :=
        copied_route (reads_of_arrives harrives hread) hcopied t.root q.exchange q.key
      have hkept := hsound.kept t ht
      refine ⟨hkept.rooted, fun h ↦ hkept.slipless (hslipless h), fun h ↦ ?_⟩
      rw [(hrouted h).2]
      exact hkept.routed (hrouted h).1

theorem sound_of_history (hminted : p.Minted mints) (h : p.History Payload mints s) :
    p.Sound mints s := by
  induction h with
  | refl =>
      refine ⟨fun t ht ↦ absurd ht List.not_mem_nil, fun root root' run h ↦ ?_, fun run hrun ↦ ?_⟩
      · cases h
      · exact absurd hrun List.not_mem_nil
  | tail _ hmove ih => exact ih.move hminted hmove

/-- A run identifier names one run, where messages without a slip are alone. -/
theorem run_names_one_run (p : Pipeline) {mints : ℕ → Tick} (hminted : p.Minted mints) {s : System}
    (hhistory : p.History Payload mints s) (halone : p.Alone s) :
    ∀ t ∈ s.travellers, t.Routed → t.runId ≠ "" ∧
      ∀ t' ∈ s.travellers, t'.Routed → (t.runId = t'.runId ↔ t.root = t'.root) := by
  have hsound := sound_of_history hminted hhistory
  have hcrossed : ∀ root root' run run', s.entries[root]? = some (.sent run) →
      ∀ t ∈ s.travellers, t.root = root' → t.Slipless → ∀ position, position + 1 < p.steps.length →
      run' = (mints position).run → (run = run' ↔ root = root') := by
    rintro root root' run run' hsent t ht rfl hslipless position hposition rfl
    have hunminted := (hsound.fresh run (List.mem_of_getElem? hsent)).2 position (by omega)
    refine ⟨fun h ↦ absurd h hunminted, fun h ↦ ?_⟩
    rw [h, (hsound.kept t ht).slipless hslipless] at hsent
    cases hsent
  intro t ht hrouted
  have horigin := (hsound.kept t ht).routed hrouted
  refine ⟨horigin.named hminted hsound, fun t' ht' hrouted' ↦ ?_⟩
  have horigin' := (hsound.kept t' ht').routed hrouted'
  rcases horigin with hsent | ⟨u, hu, hroot, hslipless, position, hlands, hposition, hrun⟩
  · rcases horigin' with hsent' | ⟨u', hu', hroot', hslipless', position', -, hposition', hrun'⟩
    · constructor
      · exact fun h ↦ hsound.once _ _ _ hsent (h ▸ hsent')
      · intro h
        rw [h, hsent'] at hsent
        exact (Entry.sent.inj (Option.some.inj hsent)).symm
    · exact hcrossed _ _ _ _ hsent u' hu' hroot' hslipless' position' hposition' hrun'
  · rcases horigin' with hsent' | ⟨u', hu', hroot', hslipless', position', hlands', hposition', hrun'⟩
    · rw [eq_comm, hcrossed _ _ _ _ hsent' u hu hroot hslipless position hposition hrun, eq_comm]
    · rw [← hroot, ← hroot', halone u hu u' hu' hslipless hslipless' position position' hlands hlands'
        hposition hposition', hrun, hrun']
      constructor
      · exact hminted.distinct position (by omega) position' (by omega)
      · exact fun h ↦ h ▸ rfl

/-! ## Two messages on one queue -/

theorem every_unslipped (p : Pipeline) (mint : Tick) (position : ℕ) :
    ∀ s ∈ (p.unslipped mint position).every, ∃ name ∈ p.steps, ∃ completedAt,
      s = { Step.declared p.name name with completedAt := completedAt } := by
  induction position with
  | zero =>
      intro s hs
      obtain ⟨name, hname, rfl⟩ := List.mem_map.mp hs
      exact ⟨name, hname, "", rfl⟩
  | succ position ih =>
      intro s hs
      obtain ⟨s₀, hs₀, completedAt, rfl⟩ := mem_every_advance hs
      obtain ⟨name, hname, before, rfl⟩ := ih s₀ hs₀
      exact ⟨name, hname, completedAt, rfl⟩

theorem declarable_unslipped (p : Pipeline) (mint : Tick) (position : ℕ) :
    (p.unslipped mint position).Declarable := by
  have hword : ∀ name, (Step.declared p.name name).word = name := orElse_self
  refine ⟨?_, ?_, ?_⟩
  · intro hnil
    have hwords := (p.unslipped_spec mint position).2.2.1
    rw [hnil] at hwords
    exact p.nonempty hwords.symm
  · intro s hs s' hs'
    obtain ⟨name, -, completedAt, rfl⟩ := p.every_unslipped mint position s hs
    obtain ⟨name', -, completedAt', rfl⟩ := p.every_unslipped mint position s' hs'
    rfl
  · intro s hs
    obtain ⟨name, hname, completedAt, rfl⟩ := p.every_unslipped mint position s hs
    obtain ⟨hne, -, hcomma⟩ := isStepName_spec (p.valid name hname)
    rw [word_completedAt, hword]
    exact ⟨hne, hcomma, .inr (.inr rfl)⟩

/-- A message without a slip goes on from a step that has a next one, with the
run of that step. -/
theorem exists_followed {t : Traveller} (hposition : position + 1 < p.steps.length)
    (message : Message Payload) (hreads : Reads t message.envelope) (hslipless : t.Slipless)
    (payload : Payload) (body : Bytes) (root : ℕ) :
    ∃ events x hop, Runs (Anything _) ((p.follower mint position).travel message) events x ∧
      (Follower.published events).map (fun (exchange, routingKey, message) ↦
        Traveller.of root exchange routingKey message) = [hop] ∧
      hop.root = root ∧ hop.Routed ∧ hop.runId = mint.run := by
  set f := p.follower mint position with hf
  set advanced := p.unslipped mint (position + 1) with hadvanced
  obtain ⟨hform, hrun, hwords, hlength⟩ := p.unslipped_spec mint (position + 1)
  have hslip : f.slipOf message.envelope = .ok (p.unslipped mint position) := by
    have hnone : slipWithin f.room message.envelope f.pipeline = .ok none := by
      have hdeclared : declaredRoute message.envelope f.pipeline = none := by
        unfold declaredRoute
        simp only [hreads.route]
        exact if_pos (not_not.mp hslipless.2)
      unfold slipWithin
      rw [hreads.itinerary]
      rcases hslipless.1 with hheader | hheader
      · rw [hheader, ← hdeclared]
      · rw [hheader, ← hdeclared]
    rw [Follower.slipOf, hnone]
    rfl
  obtain ⟨onwards, hnext⟩ : ∃ onwards, advanced.next = some onwards := by
    cases hsteps : advanced.steps with
    | nil =>
        rw [hsteps] at hlength
        simp only [List.length_nil] at hlength
        omega
    | cons onwards rest => exact ⟨onwards, by rw [RoutingSlip.next, hsteps]; rfl⟩
  obtain ⟨e', hwritten⟩ := exists_onto (fun _ ↦ p.declarable_unslipped mint (position + 1)) mint.run
    (message.envelope.passedOn mint.id f.origin)
  set stop : Stop := ⟨onwards.exchange, onwards.routingKey, advanced, e'⟩ with hstop
  have hwrite : writeOn (p.unslipped mint position) f.form f.origin mint onwards message.envelope =
      .ok stop := by
    refine Fallible.bind_ok_iff.mpr ⟨advanced, rfl, Fallible.bind_ok_iff.mpr ⟨e', hwritten, rfl⟩⟩
  obtain ⟨events, x, hruns, hpublished⟩ := Follower.exists_runs_travel hslip hnext hwrite payload body
  have htrimmed : ∀ name ∈ advanced.every.map Step.word, Trimmed name := by
    rw [hwords]
    exact p.trimmed_steps
  obtain ⟨hne, hid⟩ := onto_stepNames hform htrimmed hwritten
  obtain ⟨hrouted, hrunId⟩ := routed_outbound (f.publisher stop) body root stop.exchange
    stop.routingKey hne
  refine ⟨events, x, _, hruns, by rw [hpublished]; rfl, rfl, hrouted, ?_⟩
  rw [hrunId, hid, hrun, orElse_self]

/-- A message without a slip that can be read can send one on, with the run of
its step and not one of its own. -/
theorem exists_hop (mints : ℕ → Tick) (hposition : position + 1 < p.steps.length) (ht : t ∈ s.travellers)
    (hlands : p.Lands t.exchange t.routingKey position) (hslipless : t.Slipless) {fresh : String}
    {now : Instant} {e : Envelope}
    (hread : Envelope.fromHeaders fresh now t.headers t.routingKey t.messageId = some e)
    (payload : Payload) : ∃ hop, p.Move Payload mints s (s.publish [hop]) ∧ hop.root = t.root ∧
      hop.Routed ∧ hop.runId = (mints position).run := by
  set d : Delivery := ⟨0, [], none, t.routingKey, t.messageId, t.headers, false, ""⟩
  have harrives : t.Arrives d := ⟨rfl, fun _ _ ↦ rfl⟩
  set message : Message Payload := ⟨payload, e, t.routingKey, none, false, [], ""⟩
  obtain ⟨events, x, hop, hruns, hpublished, hroot, hrouted, hrun⟩ := exists_followed
    hposition message (reads_of_arrives harrives hread) hslipless payload [] t.root
  refine ⟨hop, ?_, hroot, hrouted, hrun⟩
  rw [← hpublished]
  exact .followed ht hlands harrives hread hruns

/-- Where messages without a slip are not alone, and can be read, a run may come
to have two identifiers, or an identifier to name two runs. -/
theorem exists_misnamed (p : Pipeline) {mints : ℕ → Tick} (hminted : p.Minted mints)
    (hhistory : p.History Payload mints s)
    (hread : ∀ t ∈ s.travellers, t.Slipless → ∃ fresh now e,
      Envelope.fromHeaders fresh now t.headers t.routingKey t.messageId = some e)
    (hmany : ¬p.Alone s) (payload : Payload) : ∃ s', p.History Payload mints s' ∧
      ∃ hop ∈ s'.travellers, ∃ hop' ∈ s'.travellers, hop.Routed ∧ hop'.Routed ∧
        ¬(hop.runId = hop'.runId ↔ hop.root = hop'.root) := by
  unfold Alone at hmany
  push Not at hmany
  obtain ⟨t, ht, t', ht', hslipless, hslipless', position, position', hlands, hlands', hposition,
    hposition', hmany⟩ := hmany
  obtain ⟨fresh, now, e, he⟩ := hread t ht hslipless
  obtain ⟨fresh', now', e', he'⟩ := hread t' ht' hslipless'
  obtain ⟨hop, hmove, hroot, hrouted, hrun⟩ :=
    exists_hop mints hposition ht hlands hslipless he payload
  obtain ⟨hop', hmove', hroot', hrouted', hrun'⟩ := exists_hop mints (s := s.publish [hop]) hposition'
    (List.mem_append_left _ ht') hlands' hslipless' he' payload
  refine ⟨_, (hhistory.tail hmove).tail hmove', hop, List.mem_append_left _ (List.mem_append_right _
    (List.mem_singleton_self hop)), hop', List.mem_append_right _ (List.mem_singleton_self hop'),
    hrouted, hrouted', fun hnamed ↦ ?_⟩
  have hruns : hop.runId = hop'.runId ↔ position = position' := by
    rw [hrun, hrun']
    exact ⟨hminted.distinct position (by omega) position' (by omega), fun h ↦ h ▸ rfl⟩
  rw [hroot, hroot', hruns] at hnamed
  rcases hmany with ⟨hsame, hother⟩ | ⟨hother, hsame⟩
  · exact hother (hnamed.mpr hsame)
  · exact hother (hnamed.mp hsame)

theorem exists_send (p : Pipeline) (run : String) (e : Envelope) : ∃ stop, p.send run e = .ok stop := by
  have hsteps : (p.route "" run).steps.length = p.steps.length := List.length_map ..
  obtain ⟨e', hwritten⟩ := exists_onto (fun _ ↦ p.declarable_unslipped ⟨0, "", run⟩ 0) run e
  cases hroute : (p.route "" run).steps with
  | nil =>
      rw [hroute] at hsteps
      exact absurd (List.eq_nil_of_length_eq_zero hsteps.symm) p.nonempty
  | cons first rest =>
      refine ⟨⟨first.exchange, first.routingKey, p.route "" run, e'⟩, ?_⟩
      rw [send, start, RoutingSlip.next, hroute]
      exact Fallible.bind_ok_iff.mpr ⟨p.route "" run, rfl, Fallible.bind_ok_iff.mpr ⟨e', hwritten, rfl⟩⟩

/-- A pipeline of two steps. -/
def twoSteps : Pipeline where
  name := "orders"
  steps := ["check", "pack"]
  named := by decide
  valid := by decide
  nodup := by decide
  nonempty := by decide
  connection := ⟨0, 1⟩
  origin := ""
  contentType := ""
  room := .ample

/-- What is minted when it is built. -/
def twoMints : ℕ → Tick
  | 0 => ⟨0, "first", "one"⟩
  | _ => ⟨0, "second", "two"⟩

/-- A message with no headers for the first step. -/
def unheaded (root : ℕ) : Traveller := ⟨root, "orders", "check", "", ∅⟩

theorem minted_twoMints : twoSteps.Minted twoMints := by
  constructor
  · decide
  · decide

theorem lands_unheaded : twoSteps.Lands "orders" "check" 0 := ⟨"check", rfl, .inl ⟨rfl, rfl⟩⟩

theorem slipless_unheaded (root : ℕ) : (unheaded root).Slipless :=
  ⟨.inl rfl, not_not.mpr splitNames_empty⟩

theorem read_unheaded : Envelope.fromHeaders "" 0 ∅ "check" "" =
    some (.new (orElse "" "") (orElse "check" defaultType) 0) := Envelope.fromHeaders_empty

/-- One message is sent, and another is published for the first step without a slip. -/
theorem run_names_one_run_twoSteps : ∃ s, twoSteps.History Unit twoMints s ∧ twoSteps.Alone s ∧
    (∃ t ∈ s.travellers, ∃ t' ∈ s.travellers, t.Routed ∧ t'.Routed ∧ t.root ≠ t'.root) ∧
      ∀ t ∈ s.travellers, t.Routed → t.runId ≠ "" ∧
        ∀ t' ∈ s.travellers, t'.Routed → (t.runId = t'.runId ↔ t.root = t'.root) := by
  obtain ⟨stop, hstop⟩ := twoSteps.exists_send "three" (.new "message" "order" 0)
  obtain ⟨hsent, -⟩ := send_spec (by decide) hstop [] 0
  set s₁ := System.initial.enter (.sent "three") fun root ↦ .of root stop.exchange stop.routingKey
    ((twoSteps.publisher stop).outbound [] stop.envelope) with hs₁
  set s₂ := s₁.enter .straight unheaded with hs₂
  have hfresh : twoSteps.Fresh twoMints .initial "three" := ⟨by decide, by decide, by decide⟩
  have hentered : twoSteps.History Unit twoMints s₂ :=
    (Relation.ReflTransGen.single (.sent [] hfresh hstop)).tail
      (.straight lands_unheaded (slipless_unheaded 0))
  have hlength : 0 + 1 < twoSteps.steps.length := by decide
  obtain ⟨hop, hmove, hroot, hrouted, -⟩ := exists_hop twoMints (s := s₂)
    (t := unheaded 1) hlength (by simp [hs₂, hs₁, System.enter, System.initial])
    lands_unheaded (slipless_unheaded 1) read_unheaded ()
  have hhistory : twoSteps.History Unit twoMints (s₂.publish [hop]) := hentered.tail hmove
  have honly : ∀ t ∈ (s₂.publish [hop]).travellers, t.Slipless → t = unheaded 1 := by
    intro t ht hslipless
    simp only [hs₂, hs₁, System.enter, System.publish, System.initial, List.nil_append, List.mem_append,
      List.mem_singleton, List.length_nil, List.length_singleton] at ht
    rcases ht with (rfl | rfl) | rfl
    · exact absurd hsent hslipless.2
    · rfl
    · exact absurd hrouted hslipless.2
  have hfirst : ∀ position, twoSteps.Lands "orders" "check" position → position = 0 := by
    rintro position ⟨step, hstep, ⟨-, rfl⟩ | ⟨hempty, -⟩⟩
    · rcases position with _ | _ | position
      · rfl
      · exact absurd hstep (by decide)
      · cases hstep
    · exact absurd hempty (by decide)
  have halone : twoSteps.Alone (s₂.publish [hop]) := by
    intro t ht t' ht' hslipless hslipless' position position' hlands hlands' _ _
    rw [honly t ht hslipless] at hlands ⊢
    rw [honly t' ht' hslipless'] at hlands' ⊢
    exact iff_of_true rfl ((hfirst position hlands).trans (hfirst position' hlands').symm)
  refine ⟨s₂.publish [hop], hhistory, halone, ⟨_, List.mem_append_left _ (List.mem_append_left _
    (List.mem_singleton_self _)), hop, List.mem_append_right _ (List.mem_singleton_self _), hsent,
    hrouted, ?_⟩, twoSteps.run_names_one_run minted_twoMints hhistory halone⟩
  rw [hroot]
  exact Nat.zero_ne_one

/-- Two messages without a slip are published for the first step, and both hops carry its run. -/
theorem two_messages_one_run : twoSteps.Minted twoMints ∧
    ¬∀ s, twoSteps.History Unit twoMints s → ∀ t ∈ s.travellers, t.Routed → t.runId ≠ "" ∧
      ∀ t' ∈ s.travellers, t'.Routed → (t.runId = t'.runId ↔ t.root = t'.root) := by
  refine ⟨minted_twoMints, fun hclaim ↦ ?_⟩
  set s := (System.initial.enter .straight unheaded).enter .straight unheaded with hs
  have hentered : twoSteps.History Unit twoMints s :=
    (Relation.ReflTransGen.single (.straight lands_unheaded (slipless_unheaded 0))).tail
      (.straight lands_unheaded (slipless_unheaded 0))
  have htravellers : s.travellers = [unheaded 0, unheaded 1] := rfl
  have hread : ∀ t ∈ s.travellers, t.Slipless → ∃ fresh now e,
      Envelope.fromHeaders fresh now t.headers t.routingKey t.messageId = some e := by
    intro t ht _
    rw [htravellers, List.mem_pair] at ht
    rcases ht with rfl | rfl <;> exact ⟨_, _, _, read_unheaded⟩
  have hmany : ¬twoSteps.Alone s := by
    intro halone
    have hone := halone (unheaded 0) (by simp [htravellers]) (unheaded 1) (by simp [htravellers])
      (slipless_unheaded 0) (slipless_unheaded 1) 0 0 lands_unheaded lands_unheaded (by decide) (by decide)
    exact Nat.zero_ne_one (hone.mpr rfl)
  obtain ⟨s', hhistory, hop, hhop, hop', hhop', hrouted, hrouted', hmisnamed⟩ :=
    exists_misnamed twoSteps minted_twoMints hentered hread hmany ()
  exact hmisnamed ((hclaim s' hhistory hop hhop hrouted).2 hop' hhop' hrouted')

end Pipeline

end AcemqAmqp
