import AcemqAmqp.Pipeline.Then
import AcemqAmqp.Telemetry.Spans

/-!
# Spans around publishes

`OpenTelemetryTracing`, the publishing side: the interceptor that starts a
`publish` span, puts its context into the message, and says how the publish
went.  What the spans of a run say is compared with what is counted in it.
-/

namespace AcemqAmqp

namespace Tracing

open Interaction Program Publisher Telemetry

variable {Payload : Type} {S : Interface} {carrier : ℕ → Dict String String}

/-! ## The interceptor -/

def publishAttributes (system : String) (context : PublishContext Payload) : Attributes :=
  .ofList
    [(attrSystem, .text system), (attrDestination, .text (orElse context.exchange context.routingKey)),
      (attrOperation, .text "publish"), (attrMessageId, .text context.envelope.id),
      (attrConversationId, .text context.envelope.correlationId), (attrRoutingKey, .text context.routingKey),
      (attrMessageType, .text context.envelope.type)]

def startPublish (system : String) (context : PublishContext Payload) : Act :=
  .startSpan (orElse context.exchange context.routingKey ++ " publish") .producer none
    (publishAttributes system context)

/-- The headers of a carrier, one by one.  A name that is not the application's stops it. -/
def setHeaders (context : PublishContext Payload) :
    List (String × String) → PublishContext Payload × Option Failure
  | [] => (context, none)
  | (name, value) :: rest =>
      match context.setHeader name (.text value) with
      | .ok context => setHeaders context rest
      | .error failure => (context, some failure)

/-- What is written of how a publish went. -/
def wentOut : Except Failure PublishResult → List Write
  | .error failure =>
      outcome (if failure.kind = .publishingPaused then outcomeRefused else outcomeFailed) ++ failed failure
  | .ok result =>
      outcome (if result.confirmed then outcomeConfirmed else outcomePublished) ++
        if result.routed then []
        else outcome outcomeUnroutable ++
          if result.returnReason = "" then [] else [.setAttribute attrReason (.text result.returnReason)]

/-- What an interceptor does with the tracer. -/
abbrev trace {α : Type} (q : Program Tracer Empty α) : Program ((Onward Payload).sum (Tracer.sum S)) Empty α :=
  beside (aside q)

/-- `publish_interceptor`. -/
def publishInterceptor (system : String) : Publisher.Interceptor Payload (Tracer.sum S) := fun context ↦
  (trace (.perform (I := Tracer) (startPublish system context))).bind fun span ↦
    (trace (.perform (I := Tracer) (.inject span))).bind fun headers ↦
      match setHeaders context headers.items with
      | (left, some failure) => (trace (writeAll span [.finish])).bind fun _ ↦ .ret (left, .error failure)
      | (left, none) => .ask (I := (Onward Payload).sum (Tracer.sum S)) (.inl left) fun sent ↦
          (trace (writeAll span (wentOut sent.2 ++ [.finish]))).bind fun _ ↦ .ret sent

/-! ## The interceptor in a chain -/

/-- What a chain of publish interceptors asks. -/
abbrev Asked (Payload : Type) (S : Interface) : Type := List (Event ((Sending Payload).sum (Tracer.sum S)))

/-- What the tracer was asked, and what it answered. -/
def traced (t : Asked Payload S) : List (Event Tracer) := inners (outers t)

theorem traced_append (t t' : Asked Payload S) : traced (t ++ t') = traced t ++ traced t' := by
  rw [traced, outers_append, inners_append]
  rfl

/-- Names a propagator may use. -/
def Unreserved (carrier : ℕ → Dict String String) : Prop :=
  ∀ span, ∀ name ∈ carrier span, Headers.isReserved name = false

theorem setHeader_ok {context : PublishContext Payload} {name : String} (hname : Headers.isReserved name = false)
    (value : Value) : ∃ left, context.setHeader name value = .ok left ∧
      left.envelope.headers = context.envelope.headers.set name value := by
  have happlication : ∀ other ∈ context.envelope.headers.set name value, Headers.isReserved other = false := by
    intro other hother
    obtain rfl | hbefore := Dict.mem_set.mp hother
    · exact hname
    · exact context.envelope.application other hbefore
  rw [PublishContext.setHeader, EnvelopeFields.postInit, dif_pos happlication]
  exact ⟨_, rfl, rfl⟩

/-- Every header of a carrier is set. -/
theorem setHeaders_ok {items : List (String × String)} (context : PublishContext Payload)
    (hitems : ∀ item ∈ items, Headers.isReserved item.1 = false) :
    ∃ left, setHeaders context items = (left, none) ∧ left.envelope.headers =
      items.foldl (fun headers item ↦ headers.set item.1 (.text item.2)) context.envelope.headers := by
  induction items generalizing context with
  | nil => exact ⟨context, rfl, rfl⟩
  | cons item rest ih =>
      obtain ⟨hitem, hrest⟩ := List.forall_mem_cons.mp hitems
      obtain ⟨between, hset, hheaders⟩ := @setHeader_ok Payload context item.1 hitem (.text item.2)
      obtain ⟨left, hleft, hall⟩ := ih between hrest
      refine ⟨left, ?_, ?_⟩
      · rw [setHeaders, hset]
        exact hleft
      · rw [hall, hheaders]
        rfl

/-- What the interceptor does itself, before the rest of a run. -/
theorem exists_trace {α : Type} {rest : PublishNext Payload (Tracer.sum S)} {q : Program Tracer Empty α}
    {f : α → Program ((Onward Payload).sum (Tracer.sum S)) Empty (Sent Payload)} {t : Asked Payload S}
    {sent : Sent Payload} {spans spans' : List Span}
    (hrun : Runs (Anything _) (((trace q).bind f).expand (answered rest)) t (.ok sent))
    (hfollows : Follows (keep carrier) spans (traced t) spans') :
    ∃ a u t' between, Runs (Anything _) q u (.ok a) ∧ Follows (keep carrier) spans u between ∧
      inners t = inners t' ∧ Runs (Anything _) ((f a).expand (answered rest)) t' (.ok sent) ∧
      Follows (keep carrier) between (traced t') spans' := by
  rw [expand_beside_bind, runs_bind] at hrun
  obtain ⟨impossible, -⟩ | ⟨t₁, t', a, rfl, hown, hrest⟩ := hrun
  · exact impossible.elim
  obtain ⟨houter, hinner⟩ := outers_of_beside hown
  rw [traced_append, follows_append] at hfollows
  obtain ⟨between, hfirst, hfollows⟩ := hfollows
  refine ⟨a, traced t₁, t', between, ?_, hfirst, ?_, hrest, hfollows⟩
  · exact (runs_aside houter).1
  · rw [inners_append, hinner, List.nil_append]

/-- A span as it is started for a publish. -/
def startedPublish (system : String) (context : PublishContext Payload) : Span :=
  ⟨orElse context.exchange context.routingKey ++ " publish", .producer, none, publishAttributes system context, none,
    [], [], 0⟩

/-- A publish that is traced goes out between the start of its span and the end of it, and takes with it
what the propagator has written. -/
theorem exists_published (hcarrier : Unreserved carrier) {system : String}
    {rest : PublishNext Payload (Tracer.sum S)} {context : PublishContext Payload} {t : Asked Payload S}
    {sent : Sent Payload} {spans spans' : List Span}
    (hrun : Runs (Anything _) (publishStep (publishInterceptor system) rest context) t (.ok sent))
    (hfollows : Follows (keep carrier) spans (traced t) spans') :
    ∃ (left : PublishContext Payload) (between : Asked Payload S) (rested : List Span),
      left.envelope.headers = (carrier spans.length).items.foldl
        (fun headers item ↦ headers.set item.1 (.text item.2)) context.envelope.headers ∧
      Runs (Anything _) (rest left) between (.ok sent) ∧ inners t = inners between ∧
      Follows (keep carrier) (spans ++ [startedPublish system context]) (traced between) rested ∧
      spans' = rested.modify spans.length fun row ↦ (wentOut sent.2 ++ [Write.finish]).foldl Span.write row := by
  obtain ⟨span, u, t₁, started, hstart, hstarted, hinners, hrun, hfollows⟩ := exists_trace hrun hfollows
  cases hstart with
  | ask _ hret =>
  cases hret
  obtain ⟨hspan, rfl⟩ := hstarted
  change spans.length = span at hspan
  obtain rfl := hspan
  obtain ⟨headers, u, t₂, injected, hinject, hinjected, hinners', hrun, hfollows⟩ := exists_trace hrun hfollows
  cases hinject with
  | ask _ hret =>
  cases hret
  obtain ⟨hheaders, rfl⟩ := hinjected
  change carrier spans.length = headers at hheaders
  obtain rfl := hheaders
  obtain ⟨left, hleft, hset⟩ := setHeaders_ok context fun item hitem ↦
    hcarrier spans.length item.1 (List.mem_map_of_mem hitem)
  rw [hleft] at hrun
  obtain ⟨between, t₃, answer, rfl, hrest, hrun⟩ := runs_andThen.mp hrun
  rw [traced_append, follows_append] at hfollows
  obtain ⟨rested, hrested, hfollows⟩ := hfollows
  obtain ⟨_, u, t₄, written, hwrites, hwritten, hinners'', hrun, hfollows⟩ := exists_trace hrun hfollows
  cases hrun
  obtain rfl := hfollows
  obtain ⟨-, rfl⟩ := follows_writeAll hwrites hwritten
  refine ⟨left, between, rested, hset, hrest, ?_, hrested, rfl⟩
  rw [hinners, hinners', inners_append, hinners'']
  exact List.append_nil _

/-! ## The word on the span and the word that is counted -/

/-- What was counted, in order. -/
def counted? : Event (Sending Payload) → Option String
  | ⟨.record outcome, _⟩ => some outcome
  | _ => none

def counted (t : List (Event (Sending Payload))) : List String := t.filterMap counted?

/-- Some queue has the message, or what went wrong is an `Exception`. -/
def Plain : Event (Sending Payload) → Prop
  | ⟨.encode _, answer⟩ => ∀ failure, answer = .error failure → failure.isException = true
  | ⟨.publish _ _ _, answer⟩ => (∀ result, answer = .answered result → result.routed = true) ∧
      ∀ failure, answer = .raised failure → failure.isException = true
  | ⟨.record _, _⟩ => True

/-- The last word on the span of a publish. -/
def lastWord : Except Failure PublishResult → String
  | .error failure => if failure.kind = .publishingPaused then outcomeRefused else outcomeFailed
  | .ok result =>
      if result.routed then if result.confirmed then outcomeConfirmed else outcomePublished else outcomeUnroutable

/-- How many publishes were begun. -/
def attempts (t : List (Event (Sending Payload))) : ℕ :=
  t.countP fun
    | ⟨.encode _, _⟩ => true
    | _ => false

/-- One publish: at most one word is counted, and which. -/
structure Counted (t : List (Event (Sending Payload))) (answer : Except Failure PublishResult) : Prop where
  one : attempts t = 1
  once : (counted t).length ≤ 1
  same : counted t = [lastWord answer] ↔ ∀ event ∈ t, Plain event

/-- What comes of a publish before anything is counted. -/
structure Uncounted (t : List (Event (Sending Payload))) (answer : Except Failure PublishResult) : Prop where
  one : attempts t = 1
  none : counted t = []
  plain : (∀ event ∈ t, Plain event) ↔
    onEnd answer (fun result ↦ result.routed = true) fun failure ↦ failure.isException = true
  confirmed : ∀ result, answer = .ok result → result.routed = true → result.confirmed = true

theorem plain_publishRaw {c : Connection} {exchange routingKey : String} {message : Outbound} {answer : BrokerAnswer}
    {x : Except Failure PublishResult} (h : c.publishRaw exchange routingKey message answer = x) :
    @Plain Payload ⟨.publish exchange routingKey message, answer⟩ ↔
      onEnd x (fun result ↦ result.routed = true) fun failure ↦ failure.isException = true := by
  subst h
  cases answer with
  | blocked | noPermit | unconfirmed => exact iff_of_true ⟨nofun, nofun⟩ rfl
  | raised failure => simp [Plain, Connection.publishRaw]
  | answered result =>
      rw [Connection.publishRaw]
      split
      next hnack => simp [Plain, hnack.2, Failure.isException, Failure.publishError]
      next => simp [Plain]

theorem confirmed_of_publishRaw {c : Connection} {exchange routingKey : String} {message : Outbound}
    {answer : BrokerAnswer} {result : PublishResult}
    (h : c.publishRaw exchange routingKey message answer = .ok result) (hrouted : result.routed = true) :
    result.confirmed = true := by
  have hdelivered := (publishRaw_routed_iff c exchange routingKey message answer).mp ⟨result, h, hrouted⟩
  cases answer with
  | answered given =>
      obtain ⟨hconfirmed, -⟩ := Bool.and_eq_true_iff.mp hdelivered
      rw [Connection.publishRaw, if_neg fun hnack ↦ by simp [hnack.1] at hconfirmed] at h
      obtain rfl := Except.ok.inj h
      exact hconfirmed
  | blocked | noPermit | unconfirmed | raised => cases hdelivered

theorem uncounted_published (p : Publisher) (context : PublishContext Payload) :
    ((Program.call (I := Sending Payload) (.encode context.payload) id).bind fun body ↦
      .call (I := Sending Payload) (.publish context.exchange context.routingKey (p.message context body))
        (p.connection.publishRaw context.exchange context.routingKey (p.message context body))).Always
          (Anything _) Uncounted := by
  intro body _
  cases body with
  | error failure => exact ⟨rfl, rfl, by simp [Plain], nofun⟩
  | ok body =>
      intro answer _
      have hplain : (∀ event ∈ ([⟨.encode context.payload, .ok body⟩, ⟨.publish context.exchange context.routingKey
          (p.message context body), answer⟩] : List (Event (Sending Payload))), Plain event) ↔
            onEnd (p.connection.publishRaw context.exchange context.routingKey (p.message context body) answer)
              (fun result ↦ result.routed = true) fun failure ↦ failure.isException = true := by
        rw [List.forall_mem_cons, List.forall_mem_singleton, plain_publishRaw rfl]
        exact and_iff_right nofun
      dsimp only
      cases hraw : p.connection.publishRaw context.exchange context.routingKey (p.message context body) answer with
      | error failure => exact ⟨rfl, rfl, hraw ▸ hplain, nofun⟩
      | ok result =>
          refine ⟨rfl, rfl, hraw ▸ hplain, fun given hgiven ↦ ?_⟩
          obtain rfl := Except.ok.inj hgiven
          exact confirmed_of_publishRaw hraw

/-- What is counted, after what has come of the publish. -/
theorem Uncounted.counted {t : List (Event (Sending Payload))} {answer answer' : Except Failure PublishResult}
    (h : Uncounted t answer) {word : String}
    (hword : onEnd answer (fun result ↦ result.routed = true) (fun failure ↦ failure.isException = true) ↔
      lastWord answer' = word) :
    Counted (t ++ [⟨.record word, ()⟩]) answer' := by
  have hcounted : Tracing.counted (t ++ [⟨.record word, ()⟩]) = [word] := by
    rw [Tracing.counted, List.filterMap_append]
    show Tracing.counted t ++ [word] = [word]
    rw [h.none]
    rfl
  refine ⟨List.countP_append.trans (congrArg (· + 0) h.one), hcounted ▸ le_rfl, ?_⟩
  rw [hcounted, List.cons.injEq, eq_comm, and_iff_left rfl, ← hword, ← h.plain]
  rw [List.forall_mem_append, List.forall_mem_singleton]
  exact (and_iff_left trivial).symm

theorem counted_innerSend (p : Publisher) (context : PublishContext Payload) :
    (p.innerSend context).Always (Anything _) Counted := by
  unfold innerSend handOver
  rw [always_bind, always_rescue]
  refine (uncounted_published p context).mono fun t x h ↦ ?_
  cases x with
  | error failure =>
      by_cases hpaused : failure.kind = .publishingPaused
      · rw [onEnd_error, if_pos hpaused]
        refine fun _ _ ↦ h.counted ?_
        simp [Failure.isException, hpaused, lastWord]
      rw [onEnd_error, if_neg hpaused]
      split
      next hexception =>
        refine fun _ _ ↦ h.counted ?_
        simp [hexception, lastWord, hpaused]
      next hexception =>
        rw [always_raise, List.append_nil]
        refine ⟨h.one, h.none ▸ Nat.zero_le 1, iff_of_false ?_ fun hplain ↦ hexception (h.plain.mp hplain)⟩
        rw [h.none]
        exact (List.cons_ne_nil _ _).symm
  | ok result =>
      rw [onEnd_ok, onEnd_ok]
      split
      next hunroutable =>
        refine fun _ _ ↦ h.counted (iff_of_false ?_ ?_)
        · simp [hunroutable.2]
        · show ¬outcomeFailed = outcomeUnroutable
          decide
      next =>
        refine fun _ _ ↦ h.counted ?_
        cases hrouted : result.routed with
        | true => simp [lastWord, hrouted, h.confirmed result rfl hrouted]
        | false => simp [lastWord, hrouted, outcomeUnroutable, outcomeConfirmed]

/-- The word a span says. -/
def Span.word? (span : Span) : Option Value := span.attributes.get? attrOutcome

/-- Not ended, and the last word on it. -/
structure Span.Says (span : Span) (word : String) : Prop where
  ends : span.ends = 0
  word : span.word? = some (.text word)

/-- Neither an outcome nor the end. -/
def Write.Quiet : Write → Prop
  | .setAttribute name _ => name ≠ attrOutcome
  | .finish => False
  | _ => True

theorem says_outcome {span : Span} (h : span.ends = 0) (word : String) :
    ((outcome word).foldl Span.write span).Says word := by
  unfold outcome
  constructor <;> split <;> simp [Span.write, Span.unended, Span.word?, h]

theorem Span.Says.write {span : Span} {word : String} {w : Write} (h : span.Says word) (hw : w.Quiet) :
    (span.write w).Says word := by
  cases w with
  | finish => exact hw.elim
  | setAttribute name value =>
      rw [Span.write, Span.unended_of_ends h.ends]
      exact ⟨h.ends, (Dict.get?_set_ne (Ne.symm hw)).trans h.word⟩
  | setStatus | addEvent | recordException =>
      rw [Span.write, Span.unended_of_ends h.ends]
      exact ⟨h.ends, h.word⟩

theorem Span.Says.writes {span : Span} {word : String} {ws : List Write} (h : span.Says word)
    (hws : ∀ w ∈ ws, w.Quiet) : (ws.foldl Span.write span).Says word := by
  induction ws generalizing span with
  | nil => exact h
  | cons w rest ih =>
      obtain ⟨hw, hrest⟩ := List.forall_mem_cons.mp hws
      exact ih (h.write hw) hrest

theorem says_wentOut {span : Span} (h : span.ends = 0) (answer : Except Failure PublishResult) :
    ((wentOut answer).foldl Span.write span).Says (lastWord answer) := by
  cases answer with
  | error failure =>
      rw [wentOut, List.foldl_append]
      refine (says_outcome h _).writes ?_
      simp [failed, Write.Quiet]
  | ok result =>
      rw [wentOut, List.foldl_append, lastWord]
      cases result.routed with
      | true => exact says_outcome h _
      | false =>
          rw [if_neg Bool.false_ne_true, if_neg Bool.false_ne_true, List.foldl_append]
          refine (says_outcome (says_outcome h _).ends _).writes ?_
          split
          · exact nofun
          · exact List.forall_mem_singleton.mpr (show attrReason ≠ attrOutcome by decide)

/-- The words of the spans that a run has begun, beside those that are counted in it. -/
def Audited (carrier : ℕ → Dict String String) (t : Asked Payload S) : Prop :=
  ∀ base spans, Follows (keep carrier) base (traced t) spans → ∃ own, spans = base ++ own ∧
    (∀ span ∈ own, span.ends = 1) ∧ own.length = attempts (inners t) ∧ (counted (inners t)).length ≤ own.length ∧
      (own.map Span.word? = (counted (inners t)).map (fun word ↦ some (.text word)) ↔
        ∀ event ∈ inners t, Plain event)

theorem audited_nil : Audited carrier ([] : Asked Payload S) := by
  intro base spans hfollows
  obtain rfl := hfollows
  exact ⟨[], (List.append_nil _).symm, nofun, rfl, le_rfl, iff_of_true rfl nofun⟩

theorem Audited.append {t t' : Asked Payload S} (h : Audited carrier t) (h' : Audited carrier t') :
    Audited carrier (t ++ t') := by
  intro base spans hfollows
  rw [traced_append, follows_append] at hfollows
  obtain ⟨between, hfirst, hsecond⟩ := hfollows
  obtain ⟨own, rfl, hends, hone, hle, hsame⟩ := h base between hfirst
  obtain ⟨own', rfl, hends', hone', hle', hsame'⟩ := h' _ spans hsecond
  refine ⟨own ++ own', List.append_assoc .., ?_, ?_, ?_, ?_⟩
  · exact List.forall_mem_append.mpr ⟨hends, hends'⟩
  · rw [inners_append, attempts, List.countP_append, List.length_append]
    exact congrArg₂ _ hone hone'
  · rw [inners_append, counted, List.filterMap_append, List.length_append, List.length_append]
    exact Nat.add_le_add hle hle'
  · rw [inners_append, counted, List.filterMap_append, List.map_append, List.map_append, List.forall_mem_append,
      ← hsame, ← hsame']
    refine ⟨fun hall ↦ ?_, fun ⟨hfirst, hsecond⟩ ↦ ?_⟩
    · have hlength := congrArg List.length hall
      simp only [List.length_append, List.length_map] at hlength
      refine List.append_inj hall ?_
      rw [List.length_map, List.length_map]
      change own.length + own'.length = (counted (inners t)).length + (counted (inners t')).length at hlength
      omega
    · exact congrArg₂ _ hfirst hsecond

/-- A publish interceptor that has nothing to do with the tracer. -/
def Aloof (interceptor : Publisher.Interceptor Payload (Tracer.sum S)) : Prop :=
  ∀ context, (interceptor context).Asks (Anything _) fun _ q ↦ match q with
    | .inl _ => True
    | .inr q => Elsewhere q

theorem modify_last (base : List Span) (span : Span) (f : Span → Span) :
    (base ++ [span]).modify base.length f = base ++ [f span] := by
  induction base with
  | nil => rfl
  | cons row rest ih => exact congrArg (row :: ·) ih

theorem audited_traced (hcarrier : Unreserved carrier) (p : Publisher) {system : String}
    {context : PublishContext Payload} {t : Asked Payload S} {sent : Sent Payload}
    (hrun : Runs (Anything _) (publishStep (publishInterceptor system) p.innermost context) t (.ok sent)) :
    Audited carrier t := by
  intro base spans hfollows
  obtain ⟨left, between, rested, -, hinnermost, hinners, hrested, rfl⟩ := exists_published hcarrier hrun hfollows
  obtain ⟨hsend, hnone⟩ := runs_innermost hinnermost
  have hcounted := always_iff_runs.mp (counted_innerSend p left) _ _ hsend
  obtain rfl : base ++ [startedPublish system context] = rested := by
    rw [traced, hnone] at hrested
    exact hrested
  have hsays := says_wentOut (show (startedPublish system context).ends = 0 from rfl) sent.2
  rw [hinners, modify_last, List.foldl_append]
  refine ⟨[_], rfl, List.forall_mem_singleton.mpr ?_, hcounted.one.symm, hcounted.once, ?_⟩
  · exact congrArg (· + 1) hsays.ends
  · have hword : [(((wentOut sent.2).foldl Span.write (startedPublish system context)).write .finish)].map Span.word? =
        [lastWord sent.2].map fun word ↦ some (.text word) := congrArg (fun word ↦ [word]) hsays.word
    have hinjective : Function.Injective fun word : String ↦ some (Value.text word) :=
      fun _ _ h ↦ Value.text.inj (Option.some.inj h)
    rw [← hcounted.same, eq_comm (a := counted _)]
    exact hword ▸ hinjective.list_map.eq_iff

theorem audited_chain (hcarrier : Unreserved carrier) (p : Publisher) {system : String}
    {interceptors : List (Publisher.Interceptor Payload (Tracer.sum S))}
    (hinterceptors : ∀ interceptor ∈ interceptors, Aloof interceptor) {context : PublishContext Payload}
    {t : Asked Payload S} {sent : Sent Payload}
    (hrun : Runs (Anything _) (p.send (interceptors ++ [publishInterceptor system]) context) t (.ok sent)) :
    Audited carrier t := by
  induction interceptors generalizing context t sent with
  | nil => exact audited_traced hcarrier p hrun
  | cons interceptor rest ih =>
      obtain ⟨haloof, hrest⟩ := List.forall_mem_cons.mp hinterceptors
      refine Runs.expand_keeps audited_nil Audited.append ?_ (haloof context) hrun
      intro q u r hq hanswer
      cases q with
      | inl context => exact ih hrest hanswer
      | inr q =>
          obtain ⟨q', rfl⟩ := hq
          cases hanswer with
          | ask _ hret =>
              cases hret
              exact @audited_nil Payload S carrier

/-- However often the interceptors of a publisher send on what they were given, there is a span for each publish
that was begun, and it ends once.  The spans say what is counted exactly where no message was taken by the broker
without a queue for it, and no publish was cut off. -/
theorem publish_words_agree (hcarrier : Unreserved carrier) (p : Publisher) (system : String)
    {interceptors : List (Publisher.Interceptor Payload (Tracer.sum S))}
    (hinterceptors : ∀ interceptor ∈ interceptors, Aloof interceptor) {context : PublishContext Payload}
    {t : Asked Payload S} {sent : Sent Payload}
    (hrun : Runs (Anything _) (p.send (interceptors ++ [publishInterceptor system]) context) t (.ok sent))
    {base spans : List Span} (hfollows : Follows (keep carrier) base (traced t) spans) :
    ∃ own, spans = base ++ own ∧ own.length = attempts (inners t) ∧ (∀ span ∈ own, span.ends = 1) ∧
      (own.map Span.word? = (counted (inners t)).map (fun word ↦ some (.text word)) ↔
        ∀ event ∈ inners t, Plain event) := by
  obtain ⟨own, hown, hends, hone, -, hsame⟩ := audited_chain hcarrier p hinterceptors hrun base spans hfollows
  exact ⟨own, hown, hone, hends, hsame⟩

/-! A request for a shipment, and the exchange has no queue for it. -/

def shipment : PublishContext Unit := Then.toShipping.contextOf () none "f1" 0 none ""

/-- The propagator writes one header. -/
def traceContext (_ : ℕ) : Dict String String := .ofList [(traceparent, "00-af-b7-01")]

def shipmentTraced : PublishContext Unit := (setHeaders shipment (traceContext 0).items).1

def noRoute : Except Failure PublishResult :=
  .error (.unroutable "f1" "shipping-events" "shipment.requested" "NO_ROUTE")

def returned : Asked Unit Alone :=
  [⟨.inr (.inl (startPublish "rabbitmq" shipment)), (0 : ℕ)⟩, ⟨.inr (.inl (.inject 0)), traceContext 0⟩,
    ⟨.inl (.encode ()), .ok []⟩,
    ⟨.inl (.publish "shipping-events" "shipment.requested" (Then.toShipping.message shipmentTraced [])),
      .answered ⟨"f1", true, false, "NO_ROUTE"⟩⟩,
    ⟨.inl (.record outcomeUnroutable), ()⟩] ++
    (wentOut noRoute ++ [Write.finish]).map fun w ↦ ⟨.inr (.inl (.write 0 w)), ()⟩

theorem runs_returned : Runs (Anything _) (Then.toShipping.send [publishInterceptor "rabbitmq"] shipment) returned
    (.ok (shipmentTraced, noRoute)) := by
  refine .ask trivial (.ask trivial ?_)
  refine .ask trivial (.ask trivial (.ask trivial ?_))
  exact .ask trivial (.ask trivial (.ask trivial (.ask trivial (.ask trivial (.ret _)))))

theorem unreserved_traceContext : Unreserved traceContext := by
  intro _
  show ∀ name ∈ Dict.ofList [(traceparent, "00-af-b7-01")], Headers.isReserved name = false
  decide

def spansReturned : List Span := (traced returned).foldl (fun spans event ↦ (keep traceContext spans event.1).2) []

theorem follows_returned : Follows (keep traceContext) [] (traced returned) spansReturned :=
  ⟨rfl, rfl, rfl, rfl, rfl, rfl, rfl, rfl⟩

/-- It is counted as unroutable, and its span says that it failed. -/
theorem publish_words_agree_returned : ∃ own, spansReturned = [] ++ own ∧ own.length = attempts (inners returned) ∧
    (∀ span ∈ own, span.ends = 1) ∧
      (own.map Span.word? = (counted (inners returned)).map (fun word ↦ some (.text word)) ↔
        ∀ event ∈ inners returned, Plain event) :=
  publish_words_agree unreserved_traceContext Then.toShipping "rabbitmq" (fun _ h ↦ absurd h List.not_mem_nil)
    runs_returned follows_returned

end Tracing

end AcemqAmqp
