import AcemqAmqp.Pipeline.Then

/-!
# What led to a message

Services read messages, send on what their steps make of them, and try again what
they could not handle.  Whatever comes of the first message belongs to its run:
it has its correlation, its headers and its age, and its causes lead back to it.
-/

namespace AcemqAmqp

namespace Then

open Interaction Program

/-! ## What is read again -/

/-- The names of headers a broker writes itself, as `x-death` when it dead-letters; none is the library's. -/
structure BrokerNames where
  writes : String → Bool
  free : ∀ name, writes name = true → Headers.isReserved name = false

/-- The broker hands a table on, and nothing else has changed. -/
def BrokerNames.Arrives (broker : BrokerNames) (written raw : Dict String Value) : Prop :=
  ∀ name, broker.writes name = false → raw.get? name = written.get? name

variable {broker : BrokerNames}

theorem BrokerNames.writes_of_reserved {name : String} (h : Headers.isReserved name = true) :
    broker.writes name = false := by
  cases hwrites : broker.writes name with
  | false => rfl
  | true => exact absurd (h.symm.trans (broker.free name hwrites)) nofun

/-- An envelope that is read as it was written. -/
structure Legible (e : Envelope) : Prop where
  identified : e.id ≠ ""
  foreign : e.Foreign
  dated : fromMillis (millis e.firstSeen) = some e.firstSeen

/-- What travels with a message besides itself: the application's headers, but for the broker's, and the
names the library has no field for. -/
structure SameHeaders (broker : BrokerNames) (e copy : Envelope) : Prop where
  headers : ∀ name, broker.writes name = false → copy.headers.get? name = e.headers.get? name
  extensions : ∀ name, copy.extensions.get? name = e.extensions.get? name

theorem sameHeaders_of_eq {e copy : Envelope} (hheaders : copy.headers = e.headers)
    (hextensions : copy.extensions = e.extensions) : SameHeaders broker e copy :=
  ⟨fun _ _ ↦ by rw [hheaders], fun _ ↦ by rw [hextensions]⟩

theorem SameHeaders.trans {e copy later : Envelope} (h : SameHeaders broker e copy)
    (h' : SameHeaders broker copy later) : SameHeaders broker e later where
  headers name hname := (h'.headers name hname).trans (h.headers name hname)
  extensions name := (h'.extensions name).trans (h.extensions name)

/-- What a copy of an envelope has in common with it. -/
structure Keeps (broker : BrokerNames) (e copy : Envelope) : Prop where
  id : copy.id = e.id
  correlationId : copy.correlationId = e.correlationId
  causationId : copy.causationId = e.causationId
  firstSeen : copy.firstSeen = e.firstSeen
  same : SameHeaders broker e copy

theorem Keeps.legible {e copy : Envelope} (h : Keeps broker e copy) (he : Legible e) : Legible copy where
  identified := h.id ▸ he.identified
  foreign name hname := by
    apply he.foreign
    rw [Dict.mem_iff_get?, h.same.extensions, ← Dict.mem_iff_get?] at *
    exact hname
  dated := h.firstSeen ▸ he.dated

theorem Keeps.trans {e copy later : Envelope} (h : Keeps broker e copy) (h' : Keeps broker copy later) :
    Keeps broker e later where
  id := h'.id.trans h.id
  correlationId := h'.correlationId.trans h.correlationId
  causationId := h'.causationId.trans h.causationId
  firstSeen := h'.firstSeen.trans h.firstSeen
  same := h.same.trans h'.same

variable {fresh : String} {now : Instant} {raw : Dict String Value} {key routingKey messageId : String}
  {e e' copy : Envelope}

theorem legible_of_read (hfresh : fresh ≠ "") (h : Envelope.fromHeaders fresh now raw routingKey messageId = some e) :
    Legible e := by
  obtain ⟨hextensions, -, hid⟩ := Envelope.fromHeaders_foreign h
  refine ⟨hid hfresh, fun name hname ↦ ?_, fromMillis_millis (Envelope.fromHeaders_firstSeen h)⟩
  rw [hextensions] at hname
  exact (Dict.mem_filter.mp hname).1

theorem Legible.sameHeaders (h : Legible e) (harrives : broker.Arrives (e.toHeaders key) raw)
    (hread : Envelope.fromHeaders fresh now raw routingKey messageId = some e') : SameHeaders broker e e' := by
  obtain ⟨hextensions, hheaders, -⟩ := Envelope.fromHeaders_foreign hread
  constructor
  · intro name hname
    have hwritten : Envelope.applicationHeaders (e.toHeaders key) = e.headers :=
      Envelope.applicationHeaders_toHeaders h.foreign
    rw [hheaders, ← hwritten, Envelope.applicationHeaders, Envelope.applicationHeaders, Dict.get?_filter,
      Dict.get?_filter, harrives name hname]
  · intro name
    have hwritten : (e.toHeaders key).filter Envelope.isUnknown = e.extensions :=
      Envelope.filter_isUnknown_toHeaders h.foreign
    rw [hextensions, ← hwritten, Dict.get?_filter, Dict.get?_filter]
    split
    · rename_i hunknown
      rw [Envelope.isUnknown, Bool.and_eq_true] at hunknown
      exact harrives name (broker.writes_of_reserved hunknown.1)
    · rfl

/-- A copy that the broker hands on is read as it was written. -/
theorem Legible.keeps (h : Legible e) (harrives : broker.Arrives (e.toHeaders key) raw)
    (hread : Envelope.fromHeaders fresh now raw routingKey messageId = some e') : Keeps broker e e' := by
  have hsame := Envelope.fromHeaders_congr
    (fun name hname ↦ harrives name (broker.writes_of_reserved (Headers.isReserved_of_mem_reserved name hname)))
    (Envelope.fromHeaders_toHeaders h.identified h.foreign h.dated fresh now routingKey messageId) hread
  have hid := congrArg EnvelopeFields.id hsame
  have hcorrelation := congrArg EnvelopeFields.correlationId hsame
  have hcausation := congrArg EnvelopeFields.causationId hsame
  have hseen := congrArg EnvelopeFields.firstSeen hsame
  exact ⟨hid, hcorrelation, hcausation, hseen, h.sameHeaders harrives hread⟩

/-- It can be read wherever the broker hands it on. -/
theorem Legible.readable (h : Legible e) (fresh : String) (now : Instant) (routingKey messageId : String)
    (harrives : broker.Arrives (e.toHeaders key) raw) :
    ∃ e', Envelope.fromHeaders fresh now raw routingKey messageId = some e' := by
  have hseen : broker.writes Headers.firstSeen = false := broker.writes_of_reserved (by decide)
  apply Option.isSome_iff_exists.mp
  rw [Envelope.isSome_fromHeaders, harrives _ hseen, Envelope.get?_toHeaders_firstSeen, number_some_int, h.dated]
  rfl

/-- What is published of a message again: it as it is, on another attempt, or with what went wrong. -/
inductive Again (e : Envelope) : Envelope → Prop
  | same : Again e e
  | attempt (n : ℤ) : Again e (e.withAttempt n)
  | error (reason : String) : Again e (e.withError reason)

theorem settled_correlationId (h : Legible e) : orElse e.correlationId e.id = e.correlationId :=
  if_neg fun hempty ↦ h.identified (e.correlated hempty)

theorem Again.keeps (h : Again e copy) (he : Legible e) : Keeps broker e copy := by
  cases h with
  | same => exact ⟨rfl, rfl, rfl, rfl, sameHeaders_of_eq rfl rfl⟩
  | attempt | error => exact ⟨rfl, settled_correlationId he, rfl, rfl, sameHeaders_of_eq rfl rfl⟩

/-- The run goes on with another message. -/
structure Continues (broker : BrokerNames) (e next : Envelope) : Prop where
  legible : Legible next
  correlationId : next.correlationId = e.correlationId
  causationId : next.causationId = e.id
  firstSeen : next.firstSeen = e.firstSeen
  same : SameHeaders broker e next

theorem continues_ledTo (h : Legible e) (hfresh : fresh ≠ "") : Continues broker e (ledTo e fresh) where
  legible := ⟨hfresh, h.foreign, h.dated⟩
  correlationId := if_neg fun hempty ↦ h.identified (e.correlated hempty)
  causationId := rfl
  firstSeen := rfl
  same := sameHeaders_of_eq rfl rfl

theorem Continues.keeps (h : Continues broker e e') (hkeeps : Keeps broker e' copy) : Continues broker e copy where
  legible := hkeeps.legible h.legible
  correlationId := hkeeps.correlationId.trans h.correlationId
  causationId := hkeeps.causationId.trans h.causationId
  firstSeen := hkeeps.firstSeen.trans h.firstSeen
  same := h.same.trans hkeeps.same

theorem keeps_outgoing (p : Publisher) (h : Legible e) : Keeps broker e (p.outgoing e) := by
  rw [Publisher.outgoing]
  split
  · exact ⟨rfl, settled_correlationId h, rfl, rfl, sameHeaders_of_eq rfl rfl⟩
  · exact ⟨rfl, rfl, rfl, rfl, sameHeaders_of_eq rfl rfl⟩

/-! ## The run of a message -/

variable (Payload : Type) (broker)

/-- Identifiers that are minted are not empty. -/
def Minting : Assumption (Surroundings Payload)
  | .mint, fresh => (fresh : String) ≠ ""
  | _, _ => True

/-- The messages of a run that services have read: the one it began with; what was published on the
way of a step, for any publisher and with any outcome; and what was published again. -/
inductive Descends (root : Envelope) : Envelope → Prop
  | root : Descends root root
  | onwards {p : Publisher} {message : Message Payload} {t : List (Event (Surroundings Payload))}
      {x : Except Failure Ack} {m : String × String × Outbound} {answer : BrokerAnswer} {fresh : String} {now : Instant}
      {raw : Dict String Value} {routingKey messageId : String} {e : Envelope} :
      Descends root message.envelope → Runs (Minting Payload) (onwards p message) t x → (m, answer) ∈ handed t →
      broker.Arrives m.2.2.headers raw → fresh ≠ "" →
      Envelope.fromHeaders fresh now raw routingKey messageId = some e → Descends root e
  | again {e copy e' : Envelope} {key fresh : String} {now : Instant} {raw : Dict String Value}
      {routingKey messageId : String} :
      Descends root e → Again e copy → broker.Arrives (copy.toHeaders key) raw → fresh ≠ "" →
      Envelope.fromHeaders fresh now raw routingKey messageId = some e' → Descends root e'

/-- A message of the run: what is the same in all of them, and its causes, one after the other, the
last of them the message the run began with or a copy of it. -/
structure OfRun (root e : Envelope) : Prop where
  legible : Legible e
  correlationId : e.correlationId = root.correlationId
  firstSeen : e.firstSeen = root.firstSeen
  same : SameHeaders broker root e
  causes : ∃ causes : List Envelope, (e :: causes).IsChain (fun later earlier ↦ later.causationId = earlier.id) ∧
    (∀ cause ∈ causes, Descends broker Payload root cause) ∧
    ∀ first ∈ (e :: causes).getLast?, first.id = root.id ∧ first.causationId = root.causationId

variable {broker Payload} {root : Envelope}

theorem ofRun_root (h : Legible root) : OfRun broker Payload root root where
  legible := h
  correlationId := rfl
  firstSeen := rfl
  same := sameHeaders_of_eq rfl rfl
  causes := by
    refine ⟨[], .singleton root, fun cause hcause ↦ absurd hcause List.not_mem_nil, fun first hfirst ↦ ?_⟩
    obtain rfl := Option.some.inj hfirst
    exact ⟨rfl, rfl⟩

theorem OfRun.continues (h : OfRun broker Payload root e) (hdescends : Descends broker Payload root e)
    (hnext : Continues broker e e') : OfRun broker Payload root e' where
  legible := hnext.legible
  correlationId := hnext.correlationId.trans h.correlationId
  firstSeen := hnext.firstSeen.trans h.firstSeen
  same := h.same.trans hnext.same
  causes := by
    obtain ⟨causes, hchain, hcauses, hfirst⟩ := h.causes
    refine ⟨e :: causes, .cons_cons hnext.causationId hchain, List.forall_mem_cons.mpr ⟨hdescends, hcauses⟩, ?_⟩
    rwa [List.getLast?_cons_cons]

/-- A copy has the causes of what it is a copy of. -/
theorem OfRun.keeps (h : OfRun broker Payload root e) (hkeeps : Keeps broker e copy) :
    OfRun broker Payload root copy where
  legible := hkeeps.legible h.legible
  correlationId := hkeeps.correlationId.trans h.correlationId
  firstSeen := hkeeps.firstSeen.trans h.firstSeen
  same := h.same.trans hkeeps.same
  causes := by
    obtain ⟨causes, hchain, hcauses, hfirst⟩ := h.causes
    refine ⟨causes, ?_, hcauses, fun first hlast ↦ ?_⟩
    · cases causes with
      | nil => exact .singleton copy
      | cons cause causes =>
          rw [List.isChain_cons_cons] at hchain ⊢
          exact ⟨hkeeps.causationId.trans hchain.1, hchain.2⟩
    · cases causes with
      | nil =>
          obtain rfl := Option.some.inj hlast
          obtain ⟨hid, hcausation⟩ := hfirst e rfl
          exact ⟨hkeeps.id.trans hid, hkeeps.causationId.trans hcausation⟩
      | cons cause causes =>
          rw [List.getLast?_cons_cons] at hlast hfirst
          exact hfirst first hlast

/-- What a step publishes continues the run of what it was given. -/
theorem continues_of_handed {p : Publisher} {message : Message Payload} {t : List (Event (Surroundings Payload))}
    {x : Except Failure Ack} {m : String × String × Outbound} {answer : BrokerAnswer} (h : Legible message.envelope)
    (hruns : Runs (Minting Payload) (onwards p message) t x) (hhanded : (m, answer) ∈ handed t)
    (harrives : broker.Arrives m.2.2.headers raw)
    (hread : Envelope.fromHeaders fresh now raw routingKey messageId = some e') :
    Continues broker message.envelope e' := by
  have hcourse := always_iff_runs.mp (onwards_course p message) t x (hruns.mono fun _ _ _ ↦ trivial)
  obtain hnone | ⟨minted, body, answer', hminted, hone⟩ := hcourse.handed
  · rw [hnone] at hhanded
    exact absurd hhanded List.not_mem_nil
  · rw [hone] at hhanded
    obtain ⟨rfl, rfl⟩ := Prod.mk.inj (List.mem_singleton.mp hhanded)
    have hnext : Continues broker _ _ := continues_ledTo h (hruns.answers _ hminted : minted ≠ "")
    have hkeeps : Keeps broker _ _ := keeps_outgoing p hnext.legible
    exact hnext.keeps (hkeeps.trans ((hkeeps.legible hnext.legible).keeps harrives hread))

/-- Whatever comes of a message, however often it and what comes of it are handled and published
again, and whatever the broker adds on the way, belongs to its run, and its causes lead back to it. -/
theorem descends_ofRun (hfresh : fresh ≠ "")
    (hroot : Envelope.fromHeaders fresh now raw routingKey messageId = some root)
    (h : Descends broker Payload root e) : OfRun broker Payload root e := by
  induction h with
  | root => exact ofRun_root (legible_of_read hfresh hroot)
  | onwards hdescends hruns hhanded harrives _ hread ih =>
      exact ih.continues hdescends (continues_of_handed ih.legible hruns hhanded harrives hread)
  | again _ hagain harrives _ hread ih =>
      have hcopy : Keeps broker _ _ := hagain.keeps ih.legible
      exact ih.keeps (hcopy.trans ((hcopy.legible ih.legible).keeps harrives hread))

/-- What RabbitMQ writes on a message that waited on a rung. -/
def deathNames : List String :=
  ["x-death", "x-first-death-exchange", "x-first-death-queue", "x-first-death-reason"]

def rabbit : BrokerNames where
  writes name := decide (name ∈ deathNames)
  free name hname := by
    have hfree : ∀ name ∈ deathNames, Headers.isReserved name = false := by decide
    exact hfree name (of_decide_eq_true hname)

/-- The shipment that was requested, on another attempt and with the rung it waited on in a header of the
broker's, was caused by the order. -/
theorem descends_ofRun_shipping : ∃ e, OfRun rabbit Unit placed.envelope e ∧ e.id = "f2" ∧ e.causationId = "f1" ∧
    e.headers.get? "x-first-death-reason" = some (.text "expired") := by
  have hplaced : Envelope.fromHeaders "f1" 0 ∅ "orders" "" = some placed.envelope := Envelope.fromHeaders_empty
  have hlegible := legible_of_read (by decide) hplaced
  have hnext : Continues rabbit _ _ := continues_ledTo hlegible (show "f2" ≠ "" by decide)
  have hsent : Keeps rabbit _ _ := keeps_outgoing toShipping hnext.legible
  have hruns := @runs_shipping (Minting Unit) trivial (show "f2" ≠ "" by decide) trivial trivial
  have harrives : rabbit.Arrives shipping.headers shipping.headers := fun _ _ ↦ rfl
  obtain ⟨first, hfirst⟩ := (hsent.legible hnext.legible).readable "f3" 0 "shipment.requested" "f2" harrives
  have hdescends : Descends rabbit Unit placed.envelope first :=
    .onwards .root hruns List.mem_cons_self harrives (by decide) hfirst
  have hkept := hsent.trans ((hsent.legible hnext.legible).keeps harrives hfirst)
  have hcopy : Keeps rabbit _ _ := (Again.attempt 2).keeps (hkept.legible hnext.legible)
  have hcopied := hcopy.legible (hkept.legible hnext.legible)
  let raw := ((first.withAttempt 2).toHeaders "shipments").set "x-first-death-reason" (.text "expired")
  have hdied : rabbit.Arrives ((first.withAttempt 2).toHeaders "shipments") raw := by
    intro name hname
    refine Dict.get?_set_ne ?_
    rintro rfl
    cases hname
  obtain ⟨e, he⟩ := hcopied.readable "f4" 0 "shipments" "f2" hdied
  have hagain : Descends rabbit Unit placed.envelope e := .again hdescends (.attempt 2) hdied (by decide) he
  have hall := (hkept.trans hcopy).trans (hcopied.keeps hdied he)
  refine ⟨e, descends_ofRun (by decide) hplaced hagain, hall.id, hall.causationId, ?_⟩
  rw [(Envelope.fromHeaders_headers he (by decide)).1]
  exact Dict.get?_set_self

end Then

end AcemqAmqp
