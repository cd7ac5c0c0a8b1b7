import AcemqAmqp.Foundations.Dict
import AcemqAmqp.Wire.Value

/-!
# The envelope and its headers

What travels with a message besides the message, and the header table it is
written to and read back from.  What `__post_init__` establishes is carried by
the structure: an attempt and a version start at 1, a route position at 0, and
the application's headers never use a reserved name.
-/

namespace AcemqAmqp

/-! ## Names on the wire -/

namespace Headers

def id : String := "x-acemq-id"
def type : String := "x-acemq-type"
def version : String := "x-acemq-version"
def correlation : String := "x-acemq-correlation"
def causation : String := "x-acemq-causation"
def attempt : String := "x-acemq-attempt"
def firstSeen : String := "x-acemq-first-seen"
def origin : String := "x-acemq-origin"
def error : String := "x-acemq-error"
def claim : String := "x-acemq-claim"
def route : String := "x-acemq-route"
def routePosition : String := "x-acemq-route-position"
def routeId : String := "x-acemq-route-id"

/-- The prefix every reserved name shares. -/
def nameStart : String := "x-acemq-"

/-- Every name this library writes and understands. -/
def reserved : List String :=
  [id, type, version, correlation, causation, attempt, firstSeen, origin, error, claim, route,
    routePosition, routeId]

/-- Whether a header name belongs to the library rather than to the application. -/
def isReserved (name : String) : Bool := nameStart.toList.isPrefixOf name.toList

theorem isReserved_of_mem_reserved : ∀ name ∈ reserved, isReserved name = true := by decide

end Headers

/-- The type of a message published with neither a type nor a routing key. -/
def defaultType : String := "message"

/-- `a or b`, for strings. -/
def orElse (a b : String) : String := if a = "" then b else a

@[simp] theorem orElse_empty (b : String) : orElse "" b = b := if_pos rfl

@[simp] theorem orElse_self (a : String) : orElse a a = a := by simp [orElse]

/-! ## The envelope -/

/-- The arguments of an envelope, as they are given. -/
structure EnvelopeFields where
  id : String
  type : String
  version : ℤ
  correlationId : String
  causationId : String
  attempt : ℤ
  firstSeen : Instant
  origin : String
  error : String
  claim : String
  route : String
  routePosition : ℤ
  routeId : String
  headers : Dict String Value
  extensions : Dict String Value

structure Envelope extends EnvelopeFields where
  correlated : correlationId = "" → id = ""
  one_le_version : 1 ≤ version
  one_le_attempt : 1 ≤ attempt
  routePosition_nonneg : 0 ≤ routePosition
  application : ∀ name ∈ headers, Headers.isReserved name = false

/-- `__post_init__`, for application headers already known not to use a reserved name. -/
def EnvelopeFields.settle (f : EnvelopeFields)
    (h : ∀ name ∈ f.headers, Headers.isReserved name = false) : Envelope where
  toEnvelopeFields := { f with
    correlationId := orElse f.correlationId f.id
    attempt := if f.attempt < 1 then 1 else f.attempt
    version := if f.version < 1 then 1 else f.version
    routePosition := if f.routePosition < 0 then 0 else f.routePosition }
  correlated := by
    unfold orElse
    split
    · exact fun hid ↦ hid
    · exact fun hc ↦ absurd hc ‹_›
  one_le_version := by split <;> omega
  one_le_attempt := by split <;> omega
  routePosition_nonneg := by split <;> omega
  application := h

/-- `__post_init__`: a reserved name among the application's headers is refused. -/
def EnvelopeFields.postInit (f : EnvelopeFields) : Option Envelope :=
  if h : ∀ name ∈ f.headers, Headers.isReserved name = false then some (f.settle h) else none

/-- Headers an application may give an envelope. -/
abbrev ApplicationHeaders := { headers : Dict String Value //
  ∀ name ∈ headers, Headers.isReserved name = false }

namespace Envelope

/-- `Envelope(id=id, type=type, first_seen=firstSeen, headers=headers)`. -/
def carrying (id type : String) (firstSeen : Instant) (headers : ApplicationHeaders) : Envelope :=
  EnvelopeFields.settle
    { id := id, type := type, version := 1, correlationId := "", causationId := "", attempt := 1
      firstSeen := firstSeen, origin := "", error := "", claim := "", route := ""
      routePosition := 0, routeId := "", headers := headers.1, extensions := ∅ } headers.2

/-- `Envelope(id=id, type=type, first_seen=firstSeen)`. -/
def new (id type : String) (firstSeen : Instant) : Envelope :=
  EnvelopeFields.settle
    { id := id, type := type, version := 1, correlationId := "", causationId := "", attempt := 1
      firstSeen := firstSeen, origin := "", error := "", claim := "", route := ""
      routePosition := 0, routeId := "", headers := ∅, extensions := ∅ }
    fun _ h ↦ absurd h List.not_mem_nil

/-- `with_(attempt=n)`. -/
def withAttempt (e : Envelope) (n : ℤ) : Envelope :=
  { e.toEnvelopeFields with attempt := n }.settle e.application

/-- `with_(error=reason)`. -/
def withError (e : Envelope) (reason : String) : Envelope :=
  { e.toEnvelopeFields with error := reason }.settle e.application

/-- `with_(origin=origin)`. -/
def withOrigin (e : Envelope) (origin : String) : Envelope :=
  { e.toEnvelopeFields with origin := origin }.settle e.application

/-- `with_(attempt=1, error="")`. -/
def restarted (e : Envelope) : Envelope :=
  { e.toEnvelopeFields with attempt := 1, error := "" }.settle e.application

theorem withAttempt_attempt {n : ℤ} (hn : 1 ≤ n) (e : Envelope) :
    (e.withAttempt n).attempt = n := by
  simp only [withAttempt, EnvelopeFields.settle]
  exact if_neg (by omega)

@[simp] theorem withAttempt_firstSeen (e : Envelope) (n : ℤ) :
    (e.withAttempt n).firstSeen = e.firstSeen := rfl

@[simp] theorem withError_attempt (e : Envelope) (reason : String) :
    (e.withError reason).attempt = e.attempt := by
  have hpos := e.one_le_attempt
  simp only [withError, EnvelopeFields.settle]
  exact if_neg (by omega)

/-! ## Writing -/

/-- A dictionary with one more item when the text is not empty. -/
def writeText (written : Dict String Value) (item : String × String) : Dict String Value :=
  if item.2 = "" then written else written.set item.1 (.text item.2)

/-- The headers a message always carries. -/
def always (e : Envelope) (routingKey : String) : Dict String Value :=
  .ofList [(Headers.id, .text e.id),
    (Headers.type, .text (orElse e.type (orElse routingKey defaultType))),
    (Headers.version, .int e.version),
    (Headers.correlation, .text (orElse e.correlationId e.id)),
    (Headers.attempt, .int e.attempt),
    (Headers.firstSeen, .int (millis e.firstSeen))]

/-- The headers of a declared route, written when there is one. -/
def writeRoute (e : Envelope) (written : Dict String Value) : Dict String Value :=
  if e.route = "" then written
  else
    let written := written.set Headers.route (.text e.route)
    let written := written.set Headers.routePosition (.int e.routePosition)
    writeText written (Headers.routeId, e.routeId)

/-- The AMQP headers for this envelope. -/
def toHeaders (e : Envelope) (routingKey : String) : Dict String Value :=
  let written := (e.extensions.filter (· ∉ Headers.reserved)).update (e.always routingKey)
  let written := [(Headers.causation, e.causationId), (Headers.origin, e.origin),
    (Headers.error, e.error), (Headers.claim, e.claim)].foldl writeText written
  (e.writeRoute written).update e.headers

theorem get?_writeText_of_ne {written : Dict String Value} {item : String × String}
    {name : String} (h : name ≠ item.1) : (writeText written item).get? name = written.get? name := by
  unfold writeText
  split
  · rfl
  · exact Dict.get?_set_ne h

theorem get?_writeRoute_of_notMem {e : Envelope} {written : Dict String Value} {name : String}
    (h : name ∉ [Headers.route, Headers.routePosition, Headers.routeId]) :
    (e.writeRoute written).get? name = written.get? name := by
  simp only [List.mem_cons, List.not_mem_nil, or_false, not_or] at h
  obtain ⟨hroute, hposition, hid⟩ := h
  unfold writeRoute
  split
  · rfl
  · rw [get?_writeText_of_ne hid, Dict.get?_set_ne hposition, Dict.get?_set_ne hroute]

/-- The names `always` writes; nothing written after them replaces one. -/
def alwaysNames : List String :=
  [Headers.id, Headers.type, Headers.version, Headers.correlation, Headers.attempt,
    Headers.firstSeen]

/-- The names that are written when there is something to write. -/
def laterNames : List String :=
  [Headers.causation, Headers.origin, Headers.error, Headers.claim] ++
    [Headers.route, Headers.routePosition, Headers.routeId]

theorem items_always (e : Envelope) (routingKey : String) :
    (e.always routingKey).items = [(Headers.id, .text e.id),
      (Headers.type, .text (orElse e.type (orElse routingKey defaultType))),
      (Headers.version, .int e.version),
      (Headers.correlation, .text (orElse e.correlationId e.id)),
      (Headers.attempt, .int e.attempt),
      (Headers.firstSeen, .int (millis e.firstSeen))] := by
  have hnodup : alwaysNames.Nodup := by decide
  exact Dict.items_ofList hnodup

theorem get?_toHeaders_of_mem_always {e : Envelope} {routingKey name : String} {v : Value}
    (h : (name, v) ∈ (e.always routingKey).items) :
    (e.toHeaders routingKey).get? name = some v := by
  have hname : name ∈ alwaysNames := by
    rw [items_always] at h
    exact List.mem_map_of_mem (f := Prod.fst) h
  have hlater : ∀ later ∈ laterNames, name ≠ later := by
    have hdisjoint : ∀ n ∈ alwaysNames, ∀ later ∈ laterNames, n ≠ later := by decide
    exact hdisjoint name hname
  have happ : e.headers.get? name = none := by
    have hknown : ∀ n ∈ alwaysNames, Headers.isReserved n = true := by decide
    rw [Dict.get?_eq_none_iff]
    intro hmem
    have hfree := e.application name hmem
    rw [hknown name hname] at hfree
    exact Bool.noConfusion hfree
  rw [toHeaders, Dict.get?_update, happ, Option.none_or, get?_writeRoute_of_notMem]
  · simp only [List.foldl_cons, List.foldl_nil]
    rw [get?_writeText_of_ne (hlater _ (by simp [laterNames])),
      get?_writeText_of_ne (hlater _ (by simp [laterNames])),
      get?_writeText_of_ne (hlater _ (by simp [laterNames])),
      get?_writeText_of_ne (hlater _ (by simp [laterNames])),
      Dict.get?_update, Dict.mem_items_iff.mp h, Option.some_or]
  · intro hmem
    have hroute : name ∈ laterNames := List.mem_append_right _ hmem
    exact hlater name hroute rfl

theorem get?_toHeaders_attempt (e : Envelope) (routingKey : String) :
    (e.toHeaders routingKey).get? Headers.attempt = some (.int e.attempt) := by
  apply get?_toHeaders_of_mem_always
  rw [items_always]
  simp

theorem get?_toHeaders_firstSeen (e : Envelope) (routingKey : String) :
    (e.toHeaders routingKey).get? Headers.firstSeen = some (.int (millis e.firstSeen)) := by
  apply get?_toHeaders_of_mem_always
  rw [items_always]
  simp

/-- A header of the application is written as it is, unless an extension has its name. -/
theorem get?_toHeaders_of_application {e : Envelope} {routingKey name : String}
    (hname : Headers.isReserved name = false) (hextension : e.extensions.get? name = none) :
    (e.toHeaders routingKey).get? name = e.headers.get? name := by
  have hne : ∀ known ∈ alwaysNames ++ laterNames, name ≠ known := by
    have hreserved : ∀ known ∈ alwaysNames ++ laterNames, Headers.isReserved known = true := by decide
    rintro known hknown rfl
    rw [hreserved name hknown] at hname
    exact Bool.noConfusion hname
  have halways : (e.always routingKey).get? name = none := by
    rw [Dict.get?_eq_none_iff]
    intro hmem
    obtain ⟨v, hv⟩ := Dict.mem_iff_get?.mp hmem
    have hitem := Dict.mem_items_iff.mpr hv
    rw [items_always] at hitem
    have hmemName : name ∈ alwaysNames := List.mem_map_of_mem (f := Prod.fst) hitem
    exact hne name (List.mem_append_left _ hmemName) rfl
  have hlater : ∀ known ∈ laterNames, name ≠ known := fun known hknown ↦
    hne known (List.mem_append_right _ hknown)
  rw [toHeaders, Dict.get?_update, get?_writeRoute_of_notMem]
  · simp only [List.foldl_cons, List.foldl_nil]
    rw [get?_writeText_of_ne (hlater _ (by simp [laterNames])),
      get?_writeText_of_ne (hlater _ (by simp [laterNames])),
      get?_writeText_of_ne (hlater _ (by simp [laterNames])),
      get?_writeText_of_ne (hlater _ (by simp [laterNames])),
      Dict.get?_update, halways, Dict.get?_filter, hextension]
    simp
  · intro hmem
    exact hlater name (List.mem_append_right _ hmem) rfl

/-- A copy that differs from the envelope in its attempt and its error at most. -/
structure Alike (e copy : Envelope) : Prop where
  id : copy.id = e.id
  firstSeen : copy.firstSeen = e.firstSeen
  headers : copy.headers = e.headers
  extensions : copy.extensions = e.extensions

theorem alike_self (e : Envelope) : Alike e e := ⟨rfl, rfl, rfl, rfl⟩

theorem alike_withAttempt (e : Envelope) (n : ℤ) : Alike e (e.withAttempt n) := ⟨rfl, rfl, rfl, rfl⟩

theorem alike_withError (e : Envelope) (reason : String) : Alike e (e.withError reason) :=
  ⟨rfl, rfl, rfl, rfl⟩

theorem alike_restarted (e : Envelope) : Alike e e.restarted := ⟨rfl, rfl, rfl, rfl⟩

/-! ## Reading -/

/-- The application's own headers among those of a delivery. -/
def applicationHeaders (raw : Dict String Value) : Dict String Value :=
  raw.filter fun name ↦ !Headers.isReserved name

theorem isReserved_applicationHeaders {raw : Dict String Value} :
    ∀ name ∈ applicationHeaders raw, Headers.isReserved name = false := by
  intro name hname
  obtain ⟨v, hv⟩ := Dict.mem_iff_get?.mp hname
  by_contra hres
  simp [applicationHeaders, hres] at hv

/-- Reads an envelope off a delivery.  `fresh` is the identifier a message with
none is given and `now` the time it was read; there is no envelope when the
first-seen header is outside the years a `datetime` has. -/
def fromHeaders (fresh : String) (now : Instant) (raw : Dict String Value)
    (routingKey messageId : String) : Option Envelope := do
  let identifier := orElse (text (raw.get? Headers.id)) (orElse messageId fresh)
  let firstSeen ← fromMillis (number (raw.get? Headers.firstSeen) (millis now))
  let fields : EnvelopeFields :=
    { id := identifier
      type := orElse (text (raw.get? Headers.type)) (orElse routingKey defaultType)
      version := number (raw.get? Headers.version) 1
      correlationId := orElse (text (raw.get? Headers.correlation)) identifier
      causationId := text (raw.get? Headers.causation)
      attempt := number (raw.get? Headers.attempt) 1
      firstSeen := firstSeen
      origin := text (raw.get? Headers.origin)
      error := text (raw.get? Headers.error)
      claim := text (raw.get? Headers.claim)
      route := text (raw.get? Headers.route)
      routePosition := number (raw.get? Headers.routePosition) 0
      routeId := text (raw.get? Headers.routeId)
      headers := applicationHeaders raw
      extensions := raw.filter fun name ↦ Headers.isReserved name && name ∉ Headers.reserved }
  return fields.settle isReserved_applicationHeaders

/-- Whether the first-seen header, if it is a number at all, is a `datetime`. -/
def readable (raw : Dict String Value) : Bool :=
  (fromMillis (number (raw.get? Headers.firstSeen) 0)).isSome

/-- Only the first-seen header can keep an envelope from being read. -/
theorem isSome_fromHeaders {fresh : String} {now : Instant} {raw : Dict String Value}
    {routingKey messageId : String} :
    (fromHeaders fresh now raw routingKey messageId).isSome =
      (fromMillis (number (raw.get? Headers.firstSeen) (millis now))).isSome := by
  unfold fromHeaders
  cases fromMillis (number (raw.get? Headers.firstSeen) (millis now)) <;> rfl

/-- The attempt a header table carries. -/
def attemptOf (raw : Dict String Value) : ℤ :=
  if number (raw.get? Headers.attempt) 1 < 1 then 1 else number (raw.get? Headers.attempt) 1

theorem fromHeaders_attempt {fresh : String} {now : Instant} {raw : Dict String Value}
    {routingKey messageId : String} {e : Envelope}
    (h : fromHeaders fresh now raw routingKey messageId = some e) : e.attempt = attemptOf raw := by
  simp only [fromHeaders, Option.bind_eq_bind, Option.bind_eq_some_iff, Option.pure_def,
    Option.some.injEq] at h
  obtain ⟨firstSeen, -, rfl⟩ := h
  rfl

theorem attemptOf_of_get? {raw : Dict String Value} {n : ℤ} (hpos : 1 ≤ n)
    (h : raw.get? Headers.attempt = some (.int n)) : attemptOf raw = n := by
  rw [attemptOf, h, number_some_int, if_neg (by omega)]

/-- A message with no headers at all, from a publisher that is not this library. -/
theorem fromHeaders_empty {fresh routingKey messageId : String} :
    fromHeaders fresh 0 ∅ routingKey messageId =
      some (new (orElse messageId fresh) (orElse routingKey defaultType) 0) := by
  have hempty : ∀ p : String → Bool, (∅ : Dict String Value).filter p = ∅ := fun _ ↦ rfl
  simp [fromHeaders, fromMillis_zero, new, EnvelopeFields.settle, applicationHeaders, hempty]

theorem fromHeaders_firstSeen {fresh : String} {now : Instant} {raw : Dict String Value}
    {routingKey messageId : String} {e : Envelope}
    (h : fromHeaders fresh now raw routingKey messageId = some e) :
    fromMillis (number (raw.get? Headers.firstSeen) (millis now)) = some e.firstSeen := by
  simp only [fromHeaders, Option.bind_eq_bind, Option.bind_eq_some_iff, Option.pure_def,
    Option.some.injEq] at h
  obtain ⟨firstSeen, hfirstSeen, rfl⟩ := h
  exact hfirstSeen

/-- What an envelope that was read says about the application's headers, and
that its extensions have names of the library's. -/
theorem fromHeaders_headers {fresh : String} {now : Instant} {raw : Dict String Value}
    {routingKey messageId : String} {e : Envelope}
    (h : fromHeaders fresh now raw routingKey messageId = some e) {name : String}
    (hname : Headers.isReserved name = false) :
    e.headers.get? name = raw.get? name ∧ e.extensions.get? name = none := by
  simp only [fromHeaders, Option.bind_eq_bind, Option.bind_eq_some_iff, Option.pure_def,
    Option.some.injEq] at h
  obtain ⟨firstSeen, -, rfl⟩ := h
  constructor
  · show (applicationHeaders raw).get? name = raw.get? name
    rw [applicationHeaders, Dict.get?_filter, if_pos (by rw [hname]; rfl)]
  · show (raw.filter _).get? name = none
    rw [Dict.get?_filter, if_neg (by rw [hname]; simp)]

end Envelope

end AcemqAmqp
