import AcemqAmqp.Pipeline.Lineage
import AcemqAmqp.Telemetry.Publishing

/-!
# What a delivery is put under

The trace headers of a message, from the `publish` span that wrote them to the
`process` span that is put under them: past the interceptors that come after,
onto the wire, and through every attempt at handling it.
-/

namespace AcemqAmqp

namespace Tracing

open Interaction Program Publisher Telemetry

variable {Payload : Type} {S : Interface} {carrier : ℕ → Dict String String}

/-! ## Headers that are handed on -/

/-- The headers that a parent is read from. -/
def traceHeaders : List String := [traceparent, tracestate]

/-- The trace headers of one table are in the other. -/
def HandsOn (headers headers' : Dict String Value) : Prop :=
  ∀ name ∈ traceHeaders, ∀ value, headers.get? name = some value → headers'.get? name = some value

/-- What a propagator wrote for a span is in a table, as far as it is of trace headers. -/
def Carries (carried : Dict String String) (headers : Dict String Value) : Prop :=
  ∀ name ∈ traceHeaders, ∀ value, carried.get? name = some value → headers.get? name = some (.text value)

theorem HandsOn.trans {headers between headers' : Dict String Value} (h : HandsOn headers between)
    (h' : HandsOn between headers') : HandsOn headers headers' :=
  fun name hname value hvalue ↦ h' name hname value (h name hname value hvalue)

theorem Carries.handsOn {carried : Dict String String} {headers headers' : Dict String Value}
    (h : Carries carried headers) (h' : HandsOn headers headers') : Carries carried headers' :=
  fun name hname value hvalue ↦ h' name hname _ (h name hname value hvalue)

theorem unreserved_traceHeaders : ∀ name ∈ traceHeaders, Headers.isReserved name = false := by decide

/-! ## From the span to the message -/

/-- A publish interceptor that lets the trace headers alone. -/
def Discreet (interceptor : Publisher.Interceptor Payload S) : Prop :=
  ∀ context, (interceptor context).Asks (Anything _) fun _ q ↦ match q with
    | .inl context' => HandsOn context.envelope.headers context'.envelope.headers
    | .inr _ => True

theorem handsOn_toHeaders (e : Envelope) (routingKey : String) : HandsOn e.headers (e.toHeaders routingKey) := by
  intro name _ value hvalue
  rw [Envelope.toHeaders_eq, Dict.get?_update, hvalue]
  rfl

/-- Every message that is published has these trace headers. -/
def GoesOutWith (headers : Dict String Value) : Event (Sending Payload) → Prop
  | ⟨.publish _ _ message, _⟩ => HandsOn headers message.headers
  | _ => True

theorem goesOutWith_innerSend (p : Publisher) (context : PublishContext Payload) :
    (p.innerSend context).Asks (Anything _) fun _ q ↦ ∀ answer, GoesOutWith context.envelope.headers ⟨q, answer⟩ := by
  have hrecord : ∀ {α : Type} (word : String) (x : Except Failure α),
      ((record word).bind fun _ ↦ Program.ofExcept x : Program (Sending Payload) Failure α).Asks (Anything _)
        fun _ q ↦ ∀ answer, GoesOutWith context.envelope.headers ⟨q, answer⟩ := by
    intro α word x
    refine Asks.bind ⟨fun _ ↦ trivial, fun _ _ ↦ trivial⟩ fun _ ↦ ?_
    cases x <;> trivial
  have hpublished : (p.handOver context).Asks (Anything _)
      fun _ q ↦ ∀ answer, GoesOutWith context.envelope.headers ⟨q, answer⟩ := by
    refine Asks.rescue (Asks.bind ((asks_call _ _).mpr fun _ ↦ trivial) fun body ↦ ?_) fun failure ↦ ?_
    · exact (asks_call _ _).mpr fun _ ↦ handsOn_toHeaders context.envelope context.routingKey
    · split
      · exact hrecord outcomeRefused (.error failure)
      · split
        · exact hrecord outcomeFailed (.error failure)
        · trivial
  refine Asks.bind hpublished fun result ↦ ?_
  split
  · exact hrecord outcomeUnroutable (.error _)
  · exact hrecord outcomeConfirmed (.ok result)

theorem goesOutWith_chain (p : Publisher) {inner : List (Publisher.Interceptor Payload S)}
    (hinner : ∀ interceptor ∈ inner, Discreet interceptor) {context : PublishContext Payload}
    {t : List (Event ((Sending Payload).sum S))} {sent : Sent Payload}
    (hrun : Runs (Anything _) (p.send inner context) t (.ok sent)) :
    ∀ event ∈ inners t, GoesOutWith context.envelope.headers event := by
  induction inner generalizing context t sent with
  | nil =>
      intro event hmem
      exact always_iff_runs.mp (goesOutWith_innerSend p context).always _ _ (runs_innermost hrun).1 event hmem event.2
  | cons interceptor rest ih =>
      obtain ⟨hfirst, hrest⟩ := List.forall_mem_cons.mp hinner
      refine Runs.expand_keeps (R := fun t ↦ ∀ event ∈ inners t, GoesOutWith context.envelope.headers event) nofun ?_ ?_
        (hfirst context) hrun
      · intro t t' h h'
        rw [inners_append]
        exact List.forall_mem_append.mpr ⟨h, h'⟩
      · intro q u r hq hanswer
        cases q with
        | inl context' =>
            intro event hmem
            have hlater := ih hrest hanswer event hmem
            obtain ⟨q, answer⟩ := event
            cases q with
            | publish => exact HandsOn.trans hq hlater
            | encode | record => trivial
        | inr q =>
            cases hanswer with
            | ask _ hret =>
                cases hret
                exact nofun

/-! ## From the message to whoever reads it -/

/-- The headers of a message as services read it, however often it is published again: the broker hands
the trace headers on with whatever else is in the table. -/
inductive Reread (headers : Dict String Value) : Envelope → Prop
  | first {fresh : String} {now : Instant} {raw : Dict String Value} {routingKey messageId : String} {e : Envelope} :
      HandsOn headers raw → Envelope.fromHeaders fresh now raw routingKey messageId = some e → Reread headers e
  | again {e copy e' : Envelope} {key fresh : String} {now : Instant} {raw : Dict String Value}
      {routingKey messageId : String} :
      Reread headers e → Then.Again e copy → HandsOn (copy.toHeaders key) raw →
      Envelope.fromHeaders fresh now raw routingKey messageId = some e' → Reread headers e'

theorem handsOn_fromHeaders {fresh : String} {now : Instant} {headers : Dict String Value}
    {routingKey messageId : String} {e : Envelope}
    (h : Envelope.fromHeaders fresh now headers routingKey messageId = some e) : HandsOn headers e.headers := by
  intro name hname value hvalue
  rw [(Envelope.fromHeaders_headers h (unreserved_traceHeaders name hname)).1]
  exact hvalue

theorem Reread.handsOn {headers : Dict String Value} {e : Envelope} (h : Reread headers e) :
    HandsOn headers e.headers := by
  induction h with
  | first harrives hread => exact harrives.trans (handsOn_fromHeaders hread)
  | @again e copy e' key fresh now raw routingKey messageId _ hagain harrives hread ih =>
      have hcopy : copy.headers = e.headers := by cases hagain <;> rfl
      have hwritten : HandsOn copy.headers e'.headers :=
        ((handsOn_toHeaders copy key).trans harrives).trans (handsOn_fromHeaders hread)
      exact ih.trans (hcopy ▸ hwritten)

/-- What is read of a carrier is what was written. -/
theorem Carries.parentOf {carried : Dict String String} {e : Envelope} (h : Carries carried e.headers) :
    ∀ name ∈ traceHeaders, ∀ value, carried.get? name = some value → (Tracing.parentOf e).get? name = some value := by
  intro name hname value hvalue
  refine Dict.get?_ofList_filterMap ?_ (h name hname value hvalue) ?_
  · rintro ⟨name', value'⟩ item hitem
    dsimp only at hitem
    split at hitem
    · cases hitem
    · split at hitem
      · exact (Option.some.inj hitem).symm ▸ rfl
      · cases hitem
  · exact if_pos (by simpa [traceHeaders] using hname)

/-! ## The spans of a run and its messages -/

theorem kind_write (span : Span) (w : Write) : (span.write w).kind = span.kind := by
  cases w with
  | finish => rfl
  | setAttribute | setStatus | addEvent | recordException =>
      rw [Span.write, Span.unended]
      split <;> rfl

theorem kind_writes (span : Span) (ws : List Write) : (ws.foldl Span.write span).kind = span.kind := by
  induction ws generalizing span with
  | nil => rfl
  | cons w rest ih => exact (ih _).trans (kind_write span w)

/-- Spans stay where they are, and of the kind they are. -/
theorem kind_follows {t : List (Event Tracer)} {spans spans' : List Span} (h : Follows (keep carrier) spans t spans')
    {i : ℕ} {span : Span} (hi : spans[i]? = some span) :
    ∃ span', spans'[i]? = some span' ∧ span'.kind = span.kind := by
  refine h.invariant (fun spans ↦ ∃ span', spans[i]? = some span' ∧ span'.kind = span.kind) ?_ ⟨span, hi, rfl⟩
  rintro ⟨q, r⟩ _ spans ⟨span', hspan', hkind⟩
  cases q with
  | startSpan =>
      refine ⟨span', ?_, hkind⟩
      rw [keep, List.getElem?_append_left (List.getElem?_eq_some_iff.mp hspan').1]
      exact hspan'
  | inject => exact ⟨span', hspan', hkind⟩
  | write j w =>
      refine ⟨_, (List.getElem?_modify ..).trans (congrArg _ hspan'), ?_⟩
      dsimp only
      split
      · exact (kind_write span' w).trans hkind
      · exact hkind

theorem length_follows {t : List (Event Tracer)} {spans spans' : List Span}
    (h : Follows (keep carrier) spans t spans') : spans.length ≤ spans'.length := by
  refine h.invariant (fun rows ↦ spans.length ≤ rows.length) ?_ le_rfl
  rintro ⟨q, r⟩ _ rows hle
  cases q with
  | startSpan => exact hle.trans (by simp [keep])
  | inject => exact hle
  | write => exact hle.trans (by simp [keep])

theorem carries_of_set {carried : Dict String String} {headers headers' : Dict String Value}
    (h : headers' = carried.items.foldl (fun headers item ↦ headers.set item.1 (.text item.2)) headers) :
    Carries carried headers' := by
  intro name _ value hvalue
  have hitems : (carried.items.map fun item ↦ (item.1, Value.text item.2)).map Prod.fst = carried.items.map Prod.fst :=
    List.map_map
  have hvalues := Dict.get?_foldl_set (d := headers) (k := name) _ (hitems ▸ carried.nodup)
  rw [List.foldl_map, ← h, Dict.lookup_map_snd] at hvalues
  rw [hvalues, show carried.items.lookup name = some value from hvalue]
  rfl

/-- Each message that goes out in a run has with it what was written for a `publish` span begun in it. -/
def Joined (carrier : ℕ → Dict String String) (t : Asked Payload S) : Prop :=
  ∀ base spans, Follows (keep carrier) base (traced t) spans →
    ∀ exchange key message answer, ⟨.publish exchange key message, answer⟩ ∈ inners t →
      ∃ i span, base.length ≤ i ∧ spans[i]? = some span ∧ span.kind = .producer ∧ Carries (carrier i) message.headers

theorem joined_nil : Joined carrier ([] : Asked Payload S) :=
  fun _ _ _ _ _ _ _ hmem ↦ absurd hmem List.not_mem_nil

theorem Joined.append {t t' : Asked Payload S} (h : Joined carrier t) (h' : Joined carrier t') :
    Joined carrier (t ++ t') := by
  intro base spans hfollows exchange key message answer hmem
  rw [traced_append, follows_append] at hfollows
  obtain ⟨between, hfirst, hsecond⟩ := hfollows
  rw [inners_append] at hmem
  obtain hmem | hmem := List.mem_append.mp hmem
  · obtain ⟨i, span, hi, hspan, hkind, hcarries⟩ := h base between hfirst exchange key message answer hmem
    obtain ⟨span', hspan', hkind'⟩ := kind_follows hsecond hspan
    exact ⟨i, span', hi, hspan', hkind'.trans hkind, hcarries⟩
  · obtain ⟨i, span, hi, hrest⟩ := h' between spans hsecond exchange key message answer hmem
    exact ⟨i, span, (length_follows hfirst).trans hi, hrest⟩

theorem joined_traced (hcarrier : Unreserved carrier) (p : Publisher) {system : String}
    {inner : List (Publisher.Interceptor Payload (Tracer.sum S))} (hinner : ∀ interceptor ∈ inner, Discreet interceptor)
    {context : PublishContext Payload} {t : Asked Payload S} {sent : Sent Payload}
    (hrun : Runs (Anything _) (p.send (publishInterceptor system :: inner) context) t (.ok sent)) :
    Joined carrier t := by
  intro base spans hfollows exchange key message answer hmem
  obtain ⟨left, between, rested, hset, hrest, hinners, hrested, rfl⟩ := exists_published hcarrier hrun hfollows
  have hstarted : (base ++ [startedPublish system context])[base.length]? = some (startedPublish system context) := by
    simp
  obtain ⟨span, hspan, hkind⟩ := kind_follows hrested hstarted
  refine ⟨base.length, _, le_rfl, (List.getElem?_modify ..).trans (congrArg _ hspan), ?_, ?_⟩
  · dsimp only
    rw [if_pos rfl]
    exact (kind_writes span _).trans hkind
  · rw [hinners] at hmem
    exact (carries_of_set hset).handsOn (goesOutWith_chain p hinner hrest _ hmem)

theorem joined_chain (hcarrier : Unreserved carrier) (p : Publisher) {system : String}
    (outer : List (Publisher.Interceptor Payload (Tracer.sum S)))
    {inner : List (Publisher.Interceptor Payload (Tracer.sum S))} (hinner : ∀ interceptor ∈ inner, Discreet interceptor)
    {context : PublishContext Payload} {t : Asked Payload S} {sent : Sent Payload}
    (hrun : Runs (Anything _) (p.send (outer ++ publishInterceptor system :: inner) context) t (.ok sent)) :
    Joined carrier t := by
  induction outer generalizing context t sent with
  | nil => exact joined_traced hcarrier p hinner hrun
  | cons interceptor rest ih =>
      refine Runs.expand_keeps (R := Joined carrier) joined_nil Joined.append ?_ (asks_true (interceptor context)) hrun
      intro q u r _ hanswer
      cases q with
      | inl context => exact ih hanswer
      | inr q =>
          cases hanswer with
          | ask _ hret =>
              cases hret
              exact fun _ _ _ _ _ _ _ hmem ↦ absurd hmem List.not_mem_nil

/-- What a message that was published is put under when it is handled, here or elsewhere and however often:
the context of a `publish` span that the publish began. -/
theorem handled_under_publish (hcarrier : Unreserved carrier) (p : Publisher) (system : String)
    (outer : List (Publisher.Interceptor Payload (Tracer.sum S)))
    {inner : List (Publisher.Interceptor Payload (Tracer.sum S))} (hinner : ∀ interceptor ∈ inner, Discreet interceptor)
    {context : PublishContext Payload} {t : Asked Payload S} {sent : Sent Payload}
    (hrun : Runs (Anything _) (p.send (outer ++ publishInterceptor system :: inner) context) t (.ok sent))
    {base spans : List Span} (hfollows : Follows (keep carrier) base (traced t) spans) {exchange key : String}
    {message : Outbound} {answer : BrokerAnswer} (hmem : ⟨.publish exchange key message, answer⟩ ∈ inners t)
    {e : Envelope} (hread : Reread message.headers e) :
    ∃ i span, base.length ≤ i ∧ spans[i]? = some span ∧ span.kind = .producer ∧
      ∀ name ∈ traceHeaders, ∀ value, (carrier i).get? name = some value → (parentOf e).get? name = some value := by
  obtain ⟨i, span, hi, hspan, hkind, hcarries⟩ :=
    joined_chain hcarrier p outer hinner hrun base spans hfollows exchange key message answer hmem
  exact ⟨i, span, hi, hspan, hkind, (hcarries.handsOn hread.handsOn).parentOf⟩

/-- The request for a shipment, read somewhere. -/
theorem handled_under_publish_returned : ∃ e, Reread (Then.toShipping.message shipmentTraced []).headers e ∧
    ∃ i span, 0 ≤ i ∧ spansReturned[i]? = some span ∧ span.kind = .producer ∧
      ∀ name ∈ traceHeaders, ∀ value, (traceContext i).get? name = some value →
        (parentOf e).get? name = some value := by
  have hseen : shipmentTraced.envelope.firstSeen = 0 := rfl
  have hread : (Envelope.fromHeaders "f3" 0 (Then.toShipping.message shipmentTraced []).headers "shipment.requested"
      "f1").isSome = true := by
    rw [Envelope.isSome_fromHeaders, Publisher.message, Envelope.get?_toHeaders_firstSeen, hseen, millis_zero]
    exact congrArg Option.isSome fromMillis_zero
  obtain ⟨e, he⟩ := Option.isSome_iff_exists.mp hread
  have hreread := Reread.first (fun _ _ _ hvalue ↦ hvalue) he
  exact ⟨e, hreread, handled_under_publish unreserved_traceContext Then.toShipping "rabbitmq" []
    (fun _ h ↦ absurd h List.not_mem_nil) runs_returned follows_returned (.tail _ (.head _)) hreread⟩

end Tracing

end AcemqAmqp
