import AcemqAmqp.Wire.Envelope

/-!
# The envelope over the wire

Writing an envelope splits its header table into three parts that do not meet:
the names the library knows, the library's names it has no field for, and the
application's.  Reading takes the table apart along the same lines.
-/

namespace AcemqAmqp

namespace Envelope

variable {e : Envelope} {routingKey : String}

/-- Every name `toHeaders` writes a field under. -/
def knownNames : List String := alwaysNames ++ laterNames

theorem mem_knownNames_iff : ∀ {name : String}, name ∈ knownNames ↔ name ∈ Headers.reserved := by
  have hsub : ∀ name ∈ knownNames, name ∈ Headers.reserved := by decide
  have hsup : ∀ name ∈ Headers.reserved, name ∈ knownNames := by decide
  exact fun {name} ↦ ⟨hsub name, hsup name⟩

/-- `x-acemq-` names this library has no field for. -/
def isUnknown (name : String) : Bool := Headers.isReserved name && name ∉ Headers.reserved

/-- The table before the application's headers are added. -/
def fields (e : Envelope) (routingKey : String) : Dict String Value :=
  e.writeRoute ([(Headers.causation, e.causationId), (Headers.origin, e.origin),
    (Headers.error, e.error), (Headers.claim, e.claim)].foldl writeText
      ((e.extensions.filter (· ∉ Headers.reserved)).update (e.always routingKey)))

theorem toHeaders_eq (e : Envelope) (routingKey : String) :
    e.toHeaders routingKey = (e.fields routingKey).update e.headers := rfl

/-! ## What is not a field -/

section filtered

variable {p : String → Bool} (hp : ∀ name ∈ knownNames, p name = false)
include hp

theorem filter_writeText {written : Dict String Value} {name value : String}
    (hname : name ∈ knownNames) : (writeText written (name, value)).filter p = written.filter p := by
  unfold writeText
  split
  · rfl
  · exact Dict.filter_set_of_neg (hp _ hname)

theorem filter_writeRoute (written : Dict String Value) :
    (e.writeRoute written).filter p = written.filter p := by
  have hroute : Headers.route ∈ knownNames := by decide
  have hposition : Headers.routePosition ∈ knownNames := by decide
  have hid : Headers.routeId ∈ knownNames := by decide
  unfold writeRoute
  split
  · rfl
  · rw [filter_writeText hp hid, Dict.filter_set_of_neg (hp _ hposition),
      Dict.filter_set_of_neg (hp _ hroute)]

/-- Apart from the names it knows, the library writes the extensions it carries. -/
theorem filter_fields : (e.fields routingKey).filter p =
    (e.extensions.filter (· ∉ Headers.reserved)).filter p := by
  have halways : ∀ name ∈ e.always routingKey, p name = false := by
    intro name hname
    obtain ⟨v, hv⟩ := Dict.mem_iff_get?.mp hname
    have hitem := Dict.mem_items_iff.mpr hv
    rw [items_always] at hitem
    exact hp name (List.mem_append_left _ (List.mem_map_of_mem (f := Prod.fst) hitem))
  have hcausation : Headers.causation ∈ knownNames := by decide
  have horigin : Headers.origin ∈ knownNames := by decide
  have herror : Headers.error ∈ knownNames := by decide
  have hclaim : Headers.claim ∈ knownNames := by decide
  simp only [fields, List.foldl_cons, List.foldl_nil]
  rw [filter_writeRoute hp, filter_writeText hp hclaim, filter_writeText hp herror,
    filter_writeText hp horigin, filter_writeText hp hcausation, Dict.filter_update_of_neg halways]

end filtered

/-- No extension has a name of the application's, and none a name the library has a field for. -/
def Foreign (e : Envelope) : Prop := ∀ name ∈ e.extensions, isUnknown name = true

theorem isUnknown_eq_false {name : String} (h : name ∈ knownNames) : isUnknown name = false := by
  have hreserved := mem_knownNames_iff.mp h
  simp [isUnknown, hreserved]

theorem isReserved_of_mem_knownNames {name : String} (h : name ∈ knownNames) :
    Headers.isReserved name = true :=
  Headers.isReserved_of_mem_reserved name (mem_knownNames_iff.mp h)

/-- The application's headers are written as they are, in their order. -/
theorem applicationHeaders_toHeaders (h : e.Foreign) :
    applicationHeaders (e.toHeaders routingKey) = e.headers := by
  have hfree : ∀ name ∈ e.headers, (!Headers.isReserved name) = true := fun name hname ↦ by
    rw [e.application name hname]
    rfl
  have hknown : ∀ name ∈ knownNames, (!Headers.isReserved name) = false := fun name hname ↦ by
    rw [isReserved_of_mem_knownNames hname]
    rfl
  have hnone : (e.extensions.filter (· ∉ Headers.reserved)).filter (!Headers.isReserved ·) = ∅ := by
    refine Dict.filter_eq_empty fun name hname ↦ ?_
    have hunknown := h name (Dict.mem_filter.mp hname).2
    simp only [isUnknown, Bool.and_eq_true] at hunknown
    rw [hunknown.1]
    rfl
  rw [applicationHeaders, toHeaders_eq, Dict.filter_update_of_pos hfree, filter_fields hknown, hnone,
    Dict.empty_update]

/-- The extensions are written as they are, in their order. -/
theorem filter_isUnknown_toHeaders (h : e.Foreign) :
    (e.toHeaders routingKey).filter isUnknown = e.extensions := by
  have hfree : ∀ name ∈ e.headers, isUnknown name = false := fun name hname ↦ by
    simp [isUnknown, e.application name hname]
  have hkept : ∀ name ∈ e.extensions, decide (name ∉ Headers.reserved) = true := fun name hname ↦ by
    have hunknown := h name hname
    simp only [isUnknown, Bool.and_eq_true] at hunknown
    exact hunknown.2
  rw [toHeaders_eq, Dict.filter_update_of_neg hfree, filter_fields fun _ ↦ isUnknown_eq_false,
    Dict.filter_eq_self hkept, Dict.filter_eq_self h]

/-! ## What is a field -/

theorem get?_toHeaders_known {name : String} (h : name ∈ knownNames) :
    (e.toHeaders routingKey).get? name = (e.fields routingKey).get? name := by
  have hnone : e.headers.get? name = none := by
    rw [Dict.get?_eq_none_iff]
    intro hmem
    have hfree := e.application name hmem
    rw [isReserved_of_mem_knownNames h] at hfree
    exact Bool.noConfusion hfree
  rw [toHeaders_eq, Dict.get?_update, hnone, Option.none_or]

/-- An empty text is not written, and reads as an empty text. -/
theorem text_writeText {written : Dict String Value} {name value : String}
    (h : written.get? name = none) :
    text ((writeText written (name, value)).get? name) = value := by
  by_cases hvalue : value = ""
  · simp [writeText, hvalue, h]
  · simp [writeText, hvalue]

/-- The names that are not always written are not there before they are. -/
theorem get?_always_later {name : String} (h : name ∈ laterNames) :
    ((e.extensions.filter (· ∉ Headers.reserved)).update (e.always routingKey)).get? name = none := by
  have halways : (e.always routingKey).get? name = none := by
    rw [Dict.get?_eq_none_iff]
    intro hmem
    obtain ⟨v, hv⟩ := Dict.mem_iff_get?.mp hmem
    have hitem := Dict.mem_items_iff.mpr hv
    rw [items_always] at hitem
    have hname : name ∈ alwaysNames := List.mem_map_of_mem (f := Prod.fst) hitem
    have hdisjoint : ∀ n ∈ alwaysNames, n ∉ laterNames := by decide
    exact hdisjoint name hname h
  have hreserved : name ∈ Headers.reserved := mem_knownNames_iff.mp (List.mem_append_right _ h)
  simp [Dict.get?_update, halways, hreserved]

theorem text_causation : text ((e.fields routingKey).get? Headers.causation) = e.causationId := by
  simp only [fields, List.foldl_cons, List.foldl_nil]
  rw [get?_writeRoute_of_notMem (by decide), get?_writeText_of_ne (show _ ≠ Headers.claim by decide),
    get?_writeText_of_ne (show _ ≠ Headers.error by decide),
    get?_writeText_of_ne (show _ ≠ Headers.origin by decide)]
  exact text_writeText (get?_always_later (by decide))

theorem text_origin : text ((e.fields routingKey).get? Headers.origin) = e.origin := by
  simp only [fields, List.foldl_cons, List.foldl_nil]
  rw [get?_writeRoute_of_notMem (by decide), get?_writeText_of_ne (show _ ≠ Headers.claim by decide),
    get?_writeText_of_ne (show _ ≠ Headers.error by decide)]
  refine text_writeText ?_
  rw [get?_writeText_of_ne (show _ ≠ Headers.causation by decide)]
  exact get?_always_later (by decide)

theorem text_error : text ((e.fields routingKey).get? Headers.error) = e.error := by
  simp only [fields, List.foldl_cons, List.foldl_nil]
  rw [get?_writeRoute_of_notMem (by decide), get?_writeText_of_ne (show _ ≠ Headers.claim by decide)]
  refine text_writeText ?_
  rw [get?_writeText_of_ne (show _ ≠ Headers.origin by decide),
    get?_writeText_of_ne (show _ ≠ Headers.causation by decide)]
  exact get?_always_later (by decide)

theorem text_claim : text ((e.fields routingKey).get? Headers.claim) = e.claim := by
  simp only [fields, List.foldl_cons, List.foldl_nil]
  rw [get?_writeRoute_of_notMem (by decide)]
  refine text_writeText ?_
  rw [get?_writeText_of_ne (show _ ≠ Headers.error by decide),
    get?_writeText_of_ne (show _ ≠ Headers.origin by decide),
    get?_writeText_of_ne (show _ ≠ Headers.causation by decide)]
  exact get?_always_later (by decide)

/-- Before the route is written none of its names is there. -/
theorem get?_route_none {name : String}
    (h : name ∈ [Headers.route, Headers.routePosition, Headers.routeId]) :
    ([(Headers.causation, e.causationId), (Headers.origin, e.origin), (Headers.error, e.error),
      (Headers.claim, e.claim)].foldl writeText
        ((e.extensions.filter (· ∉ Headers.reserved)).update (e.always routingKey))).get? name =
      none := by
  have hother : ∀ n ∈ [Headers.route, Headers.routePosition, Headers.routeId],
      n ∈ laterNames ∧ n ≠ Headers.causation ∧ n ≠ Headers.origin ∧ n ≠ Headers.error ∧
        n ≠ Headers.claim := by decide
  obtain ⟨hlater, hcausation, horigin, herror, hclaim⟩ := hother name h
  simp only [List.foldl_cons, List.foldl_nil]
  rw [get?_writeText_of_ne hclaim, get?_writeText_of_ne herror, get?_writeText_of_ne horigin,
    get?_writeText_of_ne hcausation]
  exact get?_always_later hlater

theorem text_route : text ((e.fields routingKey).get? Headers.route) = e.route := by
  by_cases hroute : e.route = ""
  · rw [fields, writeRoute, if_pos hroute, get?_route_none (by decide), hroute]
    rfl
  · rw [fields, writeRoute, if_neg hroute, get?_writeText_of_ne (show _ ≠ Headers.routeId by decide),
      Dict.get?_set_ne (by decide), Dict.get?_set_self]
    rfl

theorem number_routePosition (h : e.route ≠ "") (fallback : ℤ) :
    number ((e.fields routingKey).get? Headers.routePosition) fallback = e.routePosition := by
  rw [fields, writeRoute, if_neg h, get?_writeText_of_ne (show _ ≠ Headers.routeId by decide),
    Dict.get?_set_self, number_some_int]

theorem text_routeId (h : e.route ≠ "") :
    text ((e.fields routingKey).get? Headers.routeId) = e.routeId := by
  rw [fields, writeRoute, if_neg h]
  refine text_writeText ?_
  rw [Dict.get?_set_ne (by decide), Dict.get?_set_ne (by decide), get?_route_none (by decide)]

/-- Without a route neither its position nor its identifier is written. -/
theorem get?_fields_of_no_route (h : e.route = "") :
    (e.fields routingKey).get? Headers.routePosition = none ∧
      (e.fields routingKey).get? Headers.routeId = none := by
  rw [fields, writeRoute, if_pos h]
  exact ⟨get?_route_none (by decide), get?_route_none (by decide)⟩

/-! ## There and back -/

/-- What `toHeaders` says of an envelope: the type it was published with, the
first-seen instant as it is read back, and nothing of a route there is none of. -/
def reread (e : Envelope) (routingKey : String) (seen : Instant) : Envelope :=
  { e with
    type := orElse e.type (orElse routingKey defaultType)
    firstSeen := seen
    routePosition := if e.route = "" then 0 else e.routePosition
    routeId := if e.route = "" then "" else e.routeId
    routePosition_nonneg := by
      have hpos := e.routePosition_nonneg
      split <;> omega }

theorem eq_of_fields {e' : Envelope} (h : e.toEnvelopeFields = e'.toEnvelopeFields) : e = e' := by
  cases e
  cases e'
  simpa using h

theorem orElse_ne_empty {a b : String} (h : a ≠ "" ∨ b ≠ "") : orElse a b ≠ "" := by
  unfold orElse
  split
  · exact h.resolve_left fun hne ↦ hne ‹_›
  · assumption

theorem orElse_of_ne_empty {a : String} (h : a ≠ "") (b : String) : orElse a b = a := if_neg h

theorem type_ne_empty (type routingKey : String) :
    orElse type (orElse routingKey defaultType) ≠ "" :=
  orElse_ne_empty (.inr (orElse_ne_empty (.inr (by decide))))

/-- An envelope with an identifier is read back field by field. -/
theorem fromHeaders_toHeaders (hid : e.id ≠ "") (hforeign : e.Foreign) {seen : Instant}
    (hseen : fromMillis (millis e.firstSeen) = some seen) (fresh : String) (now : Instant)
    (routingKey' messageId : String) :
    fromHeaders fresh now (e.toHeaders routingKey) routingKey' messageId =
      some (e.reread routingKey seen) := by
  have hwritten : ∀ {name v}, (name, v) ∈ (e.always routingKey).items →
      (e.toHeaders routingKey).get? name = some v := fun h ↦ get?_toHeaders_of_mem_always h
  rw [items_always] at hwritten
  have hident : (e.toHeaders routingKey).get? Headers.id = some (.text e.id) := hwritten (by simp)
  have htype : (e.toHeaders routingKey).get? Headers.type =
      some (.text (orElse e.type (orElse routingKey defaultType))) := hwritten (by simp)
  have hversion : (e.toHeaders routingKey).get? Headers.version = some (.int e.version) :=
    hwritten (by simp)
  have hcorrelation : (e.toHeaders routingKey).get? Headers.correlation =
      some (.text e.correlationId) := by
    rw [hwritten (v := .text (orElse e.correlationId e.id)) (by simp),
      orElse_of_ne_empty fun h ↦ hid (e.correlated h)]
  have hattempt : (e.toHeaders routingKey).get? Headers.attempt = some (.int e.attempt) :=
    hwritten (by simp)
  have hroute : e.route = "" → number ((e.fields routingKey).get? Headers.routePosition) 0 = 0 ∧
      text ((e.fields routingKey).get? Headers.routeId) = "" := by
    intro h
    rw [(get?_fields_of_no_route h).1, (get?_fields_of_no_route h).2]
    exact ⟨number_none 0, text_none⟩
  rw [fromHeaders, get?_toHeaders_firstSeen, number_some_int, hseen]
  refine congrArg some (eq_of_fields ?_)
  simp only [EnvelopeFields.settle, reread, EnvelopeFields.mk.injEq, hident, htype, hversion,
    hcorrelation, hattempt, text_some_text, number_some_int, applicationHeaders_toHeaders hforeign,
    orElse_of_ne_empty hid, orElse_of_ne_empty (type_ne_empty _ _),
    orElse_of_ne_empty fun h ↦ hid (e.correlated h), true_and]
  rw [get?_toHeaders_known (show Headers.causation ∈ knownNames by decide), text_causation,
    get?_toHeaders_known (show Headers.origin ∈ knownNames by decide), text_origin,
    get?_toHeaders_known (show Headers.error ∈ knownNames by decide), text_error,
    get?_toHeaders_known (show Headers.claim ∈ knownNames by decide), text_claim,
    get?_toHeaders_known (show Headers.route ∈ knownNames by decide), text_route,
    get?_toHeaders_known (show Headers.routePosition ∈ knownNames by decide),
    get?_toHeaders_known (show Headers.routeId ∈ knownNames by decide)]
  refine ⟨if_neg (not_lt.mpr e.one_le_version), rfl, if_neg (not_lt.mpr e.one_le_attempt), rfl, rfl,
    rfl, rfl, ?_, ?_, ?_⟩
  · by_cases h : e.route = ""
    · rw [(hroute h).1, if_pos h]
      exact if_neg (lt_irrefl 0)
    · rw [number_routePosition h, if_neg h, if_neg (not_lt.mpr e.routePosition_nonneg)]
  · by_cases h : e.route = ""
    · rw [(hroute h).2, if_pos h]
    · rw [text_routeId h, if_neg h]
  · exact filter_isUnknown_toHeaders hforeign

/-- Writing an envelope that was read back changes nothing. -/
theorem toHeaders_reread {seen : Instant} (hseen : millis seen = millis e.firstSeen)
    (routingKey' : String) : (e.reread routingKey seen).toHeaders routingKey' = e.toHeaders routingKey := by
  have halways : (e.reread routingKey seen).always routingKey' = e.always routingKey := by
    simp only [always, reread, hseen, orElse_of_ne_empty (type_ne_empty _ _)]
  have hroute : (e.reread routingKey seen).writeRoute = e.writeRoute := by
    funext written
    by_cases h : e.route = ""
    · simp [writeRoute, reread, h]
    · simp [writeRoute, reread, h]
  rw [toHeaders, halways, hroute]
  rfl

theorem get?_set_congr {written written' : Dict String Value} {name : String}
    (h : written.get? name = written'.get? name) (n : String) (v : Value) :
    (written.set n v).get? name = (written'.set n v).get? name := by
  rw [Dict.get?_set, Dict.get?_set, h]

theorem get?_writeText_congr {written written' : Dict String Value} {name : String}
    (h : written.get? name = written'.get? name) (item : String × String) :
    (writeText written item).get? name = (writeText written' item).get? name := by
  unfold writeText
  split
  · exact h
  · exact get?_set_congr h _ _

/-- An extension never stands for a name the library has a field for. -/
theorem get?_toHeaders_of_known {name : String} (h : name ∈ Headers.reserved)
    (extensions : Dict String Value) :
    (toHeaders { e with extensions := extensions } routingKey).get? name =
      (e.toHeaders routingKey).get? name := by
  have hknown := mem_knownNames_iff.mpr h
  have hbase : ∀ ext : Dict String Value,
      ((ext.filter (· ∉ Headers.reserved)).update (e.always routingKey)).get? name =
        (e.always routingKey).get? name := by
    intro ext
    rw [Dict.get?_update, Dict.get?_filter, if_neg (by simp [h]), Option.or_none]
  have htexts : ∀ (items : List (String × String)) (written written' : Dict String Value),
      written.get? name = written'.get? name →
      (items.foldl writeText written).get? name = (items.foldl writeText written').get? name := by
    intro items
    induction items with
    | nil => exact fun _ _ hsame ↦ hsame
    | cons item items ih => exact fun _ _ hsame ↦ ih _ _ (get?_writeText_congr hsame item)
  have hroute : ∀ {written written' : Dict String Value}, written.get? name = written'.get? name →
      (e.writeRoute written).get? name = (e.writeRoute written').get? name := by
    intro written written' hsame
    unfold writeRoute
    split
    · exact hsame
    · exact get?_writeText_congr (get?_set_congr (get?_set_congr hsame _ _) _ _) _
  rw [get?_toHeaders_known hknown, get?_toHeaders_known hknown]
  exact hroute (htexts _ _ _ ((hbase _).trans (hbase _).symm))

/-! ## What survives -/

/-- What the constructor makes of arguments a publisher may give: an identifier,
extensions that are foreign, and nothing of a route where there is none. -/
structure Accepted (e : Envelope) : Prop where
  identified : e.id ≠ ""
  foreign : e.Foreign
  routed : e.route = "" → e.routePosition = 0 ∧ e.routeId = ""

theorem reread_of_accepted (h : e.Accepted) (seen : Instant) : e.reread routingKey seen =
    { e with type := orElse e.type (orElse routingKey defaultType), firstSeen := seen } := by
  refine eq_of_fields ?_
  by_cases hroute : e.route = ""
  · simp [reread, hroute, h.routed hroute]
  · simp [reread, hroute]

theorem fromHeaders_foreign {fresh : String} {now : Instant} {raw : Dict String Value}
    {messageId : String} (h : fromHeaders fresh now raw routingKey messageId = some e) :
    e.extensions = raw.filter isUnknown ∧ e.headers = applicationHeaders raw ∧
      (fresh ≠ "" → e.id ≠ "") := by
  simp only [fromHeaders, Option.bind_eq_bind, Option.bind_eq_some_iff, Option.pure_def,
    Option.some.injEq] at h
  obtain ⟨firstSeen, -, rfl⟩ := h
  exact ⟨rfl, rfl, fun hfresh ↦ orElse_ne_empty (.inr (orElse_ne_empty (.inr hfresh)))⟩

/-- Tables that agree on the library's names are read alike, but for what else they hold. -/
theorem fromHeaders_congr {fresh : String} {now : Instant} {raw raw' : Dict String Value} {messageId : String}
    {e' : Envelope} (hraw : ∀ name ∈ Headers.reserved, raw'.get? name = raw.get? name)
    (h : fromHeaders fresh now raw routingKey messageId = some e)
    (h' : fromHeaders fresh now raw' routingKey messageId = some e') :
    { e'.toEnvelopeFields with headers := e.headers, extensions := e.extensions } = e.toEnvelopeFields := by
  simp only [fromHeaders, Option.bind_eq_bind, Option.bind_eq_some_iff, Option.pure_def,
    Option.some.injEq] at h h'
  obtain ⟨firstSeen, hfirstSeen, rfl⟩ := h
  obtain ⟨firstSeen', hfirstSeen', rfl⟩ := h'
  rw [hraw _ (by decide), hfirstSeen, Option.some.injEq] at hfirstSeen'
  have hid := hraw Headers.id (by decide)
  have htype := hraw Headers.type (by decide)
  have hversion := hraw Headers.version (by decide)
  have hcorrelation := hraw Headers.correlation (by decide)
  have hcausation := hraw Headers.causation (by decide)
  have hattempt := hraw Headers.attempt (by decide)
  have horigin := hraw Headers.origin (by decide)
  have herror := hraw Headers.error (by decide)
  have hclaim := hraw Headers.claim (by decide)
  have hroute := hraw Headers.route (by decide)
  have hposition := hraw Headers.routePosition (by decide)
  have hrouteId := hraw Headers.routeId (by decide)
  simp only [EnvelopeFields.settle, hid, htype, hversion, hcorrelation, hcausation, hattempt, horigin, herror,
    hclaim, hroute, hposition, hrouteId, hfirstSeen']

/-- An envelope is read back as it was written, but for its type, which is
settled, and its first-seen instant, which keeps its millisecond; and a table
that was read and rewritten keeps every header that is not the library's to
write, and is not changed by reading and writing it again. -/
theorem envelope_survives_the_wire :
    (∀ (e : Envelope) (routingKey fresh messageId : String) (now : Instant) (ms : ℤ), e.Accepted →
      e.firstSeen = ms * 1000 → -62135596800000 ≤ ms → ms ≤ 253402300799999 →
      ∃ seen, fromHeaders fresh now (e.toHeaders routingKey) routingKey messageId =
          some { e with type := orElse e.type (orElse routingKey defaultType), firstSeen := seen } ∧
        millis seen = ms ∧ |seen - e.firstSeen| ≤ 16 ∧
        (|ms| < 8589934592000 → seen = e.firstSeen)) ∧
    (∀ (raw : Dict String Value) (routingKey fresh messageId : String) (now : Instant) (e : Envelope),
      fresh ≠ "" → fromHeaders fresh now raw routingKey messageId = some e →
      (∀ name, Headers.isReserved name = false ∨ isUnknown name = true →
        (e.toHeaders routingKey).get? name = raw.get? name) ∧
      (∀ name ∈ Headers.reserved, ∀ extensions : Dict String Value,
        (toHeaders { e with extensions := extensions } routingKey).get? name =
          (e.toHeaders routingKey).get? name) ∧
      ∀ fresh' now' routingKey' messageId', ∃ e',
        fromHeaders fresh' now' (e.toHeaders routingKey) routingKey' messageId' = some e' ∧
          e'.toHeaders routingKey' = e.toHeaders routingKey) := by
  constructor
  · intro e routingKey fresh messageId now ms haccepted hms hlow hhigh
    have hmillis : millis e.firstSeen = ms := by rw [hms, millis_whole hlow hhigh]
    obtain ⟨seen, hseen⟩ := Option.isSome_iff_exists.mp (isSome_fromMillis_iff.mpr ⟨hlow, hhigh⟩)
    refine ⟨seen, ?_, millis_of_fromMillis hseen, ?_, fun hexact ↦ ?_⟩
    · rw [fromHeaders_toHeaders haccepted.identified haccepted.foreign (by rwa [hmillis]),
        reread_of_accepted haccepted]
    · rw [hms]
      exact abs_fromMillis_sub_le hseen
    · rw [fromMillis_whole hexact, Option.some.injEq] at hseen
      rw [hms, hseen]
  · intro raw routingKey fresh messageId now e hfresh hread
    obtain ⟨hextensions, hheaders, hid⟩ := fromHeaders_foreign hread
    have hforeign : e.Foreign := by
      intro name hname
      rw [hextensions] at hname
      exact (Dict.mem_filter.mp hname).1
    refine ⟨fun name hname ↦ ?_, fun name hname ↦ get?_toHeaders_of_known hname, ?_⟩
    · rcases hname with happlication | hunknown
      · have hsame : applicationHeaders (e.toHeaders routingKey) = applicationHeaders raw := by
          rw [applicationHeaders_toHeaders hforeign, hheaders]
        simpa [applicationHeaders, happlication] using congrArg (Dict.get? · name) hsame
      · have hsame : (e.toHeaders routingKey).filter isUnknown = raw.filter isUnknown := by
          rw [filter_isUnknown_toHeaders hforeign, hextensions]
        simpa [hunknown] using congrArg (Dict.get? · name) hsame
    · intro fresh' now' routingKey' messageId'
      have hseen := fromMillis_millis (fromHeaders_firstSeen hread)
      exact ⟨_, fromHeaders_toHeaders (hid hfresh) hforeign hseen _ _ _ _, toHeaders_reread rfl _⟩

theorem accepted_new {id type : String} (h : id ≠ "") (firstSeen : Instant) :
    (new id type firstSeen).Accepted where
  identified := h
  foreign := fun _ hname ↦ absurd hname List.not_mem_nil
  routed := fun _ ↦ ⟨rfl, rfl⟩

/-- An envelope on the second step of a declared route, retried once, with a header of the
application and one that another library wrote. -/
def onRoute : Envelope :=
  EnvelopeFields.settle
    { id := "m1", type := "order.placed", version := 2, correlationId := "c1", causationId := "m0", attempt := 2
      firstSeen := 1500000, origin := "shop", error := "TimeoutError: slow", claim := "", route := "check,pay"
      routePosition := 1, routeId := "r1", headers := .ofList [("tenant", .text "acme")]
      extensions := .ofList [("x-acemq-shard", .int 3)] } <| by
    intro name hname
    obtain rfl | hname := Dict.mem_set.mp hname
    · decide
    · exact absurd hname List.not_mem_nil

theorem accepted_onRoute : onRoute.Accepted where
  identified := by decide
  foreign name hname := by
    obtain rfl | hname := Dict.mem_set.mp hname
    · decide
    · exact absurd hname List.not_mem_nil
  routed h := absurd h (by decide)

/-- What a publisher in another language may send. -/
def sentElsewhere : Dict String Value :=
  .ofList [("x-acemq-id", .text "m7"), ("x-acemq-attempt", .text "3"), ("x-acemq-first-seen", .int 1500),
    ("x-acemq-region", .text "eu"), ("x-acemq-route", .text "pay"), ("customer", .int 9)]

/-- An envelope with headers, an extension and a route survives, and a table from elsewhere keeps its
foreign headers. -/
theorem envelope_survives_the_wire_onRoute :
    (∃ seen, fromHeaders "f1" 0 (onRoute.toHeaders "orders") "orders" "" =
        some { onRoute with type := orElse "order.placed" (orElse "orders" defaultType), firstSeen := seen } ∧
      millis seen = 1500 ∧ |seen - 1500000| ≤ 16 ∧ (|(1500 : ℤ)| < 8589934592000 → seen = 1500000)) ∧
    ∃ e, fromHeaders "f2" 0 sentElsewhere "orders" "" = some e ∧
      (e.toHeaders "orders").get? "customer" = some (.int 9) ∧
      (e.toHeaders "orders").get? "x-acemq-region" = some (.text "eu") ∧
      ∃ e', fromHeaders "f3" 5 (e.toHeaders "orders") "orders" "" = some e' ∧
        e'.toHeaders "orders" = e.toHeaders "orders" := by
  constructor
  · exact envelope_survives_the_wire.1 onRoute "orders" "f1" "" 0 1500 accepted_onRoute rfl (by decide) (by decide)
  · have hread : (fromHeaders "f2" 0 sentElsewhere "orders" "").isSome = true := by
      rw [isSome_fromHeaders]
      exact isSome_fromMillis_iff.mpr (by decide)
    obtain ⟨e, he⟩ := Option.isSome_iff_exists.mp hread
    obtain ⟨hkept, -, hagain⟩ := envelope_survives_the_wire.2 sentElsewhere "orders" "f2" "" 0 e (by decide) he
    exact ⟨e, he, hkept "customer" (by decide), hkept "x-acemq-region" (by decide), hagain "f3" 5 "orders" ""⟩

/-- From the year 2242 on a double cannot tell microseconds apart, and a
first-seen instant can come back as the microsecond before it. -/
theorem envelope_survives_the_wire_far :
    let e := new "m1" "order.placed" 8589934592001000
    e.Accepted ∧ e.firstSeen = 8589934592001 * 1000 ∧
      fromHeaders "f1" 0 (e.toHeaders "orders") "orders" "" ≠
        some { e with type := orElse e.type (orElse "orders" defaultType) } := by
  intro e
  have haccepted : e.Accepted := accepted_new (by decide) 8589934592001000
  have hseconds : e.firstSeen = 8589934592001 * 1000 := rfl
  have hmillis : millis e.firstSeen = 8589934592001 := by
    rw [hseconds]
    exact millis_whole (by norm_num) (by norm_num)
  have hknown : fromMillis (millis e.firstSeen) = some (e.firstSeen - 1) := by
    rw [hmillis, fromMillis_inexact, hseconds]
    rfl
  have hread : fromHeaders "f1" 0 (e.toHeaders "orders") "orders" "" = some (e.reread "orders" _) :=
    fromHeaders_toHeaders haccepted.identified haccepted.foreign hknown "f1" 0 "orders" ""
  refine ⟨haccepted, rfl, fun hsame ↦ ?_⟩
  rw [hread] at hsame
  have hseen := congrArg (fun read ↦ read.map fun e : Envelope ↦ e.firstSeen) hsame
  exact absurd hseen (by decide)

end Envelope

end AcemqAmqp
