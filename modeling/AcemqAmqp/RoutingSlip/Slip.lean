import AcemqAmqp.Core.Json
import AcemqAmqp.Wire.Envelope
import Mathlib.Data.List.Dedup
import Mathlib.Data.List.Sort
import Mathlib.Data.String.Basic

/-!
# Routing slips

The itinerary a message carries, and the two forms it is written in: a JSON
document of its steps, or the names of the steps between commas with a position
beside them.
-/

namespace AcemqAmqp

/-! ## Room for what is nested -/

/-- How many lists and objects inside each other the interpreter reads and prints before it raises a
`RecursionError`; as many as there are where it says `none`. -/
structure Room where
  reading : Option ℕ
  printing : Option ℕ

def Room.ample : Room := ⟨none, none⟩

/-- `RecursionError`.  What the interpreter was doing is left out of its text. -/
def recursionError : Failure := ⟨.exception, "RecursionError", "maximum recursion depth exceeded"⟩

/-! ## Steps -/

inductive SlipForm
  | json
  | stepNames
  deriving DecidableEq

structure Step where
  exchange : String
  routingKey : String
  name : String
  completedAt : String
  deriving DecidableEq

/-- The itinerary as JSON: an application header. -/
def headerRoutingSlip : String := "acemq-routing-slip"

/-- `type(value).__name__`. -/
def Value.typeName : Value → String
  | null => "NoneType"
  | bool _ => "bool"
  | int _ => "int"
  | float _ => "float"
  | decimal _ => "Decimal"
  | text _ => "str"
  | bytes _ => "bytes"
  | timestamp _ => "datetime"
  | list _ => "list"
  | table _ => "dict"

namespace Step

/-- A step of a declared route, `Step(exchange, name, name=name)`. -/
def declared (exchange name : String) : Step := ⟨exchange, name, name, ""⟩

def str (s : Step) : String := orElse s.name (s.exchange ++ "/" ++ s.routingKey)

/-- A field, written when there is something to write. -/
def written (field text : String) : List (String × Json) :=
  if text = "" then [] else [(field, .str text)]

def toJson (s : Step) : Json :=
  .obj ([("exchange", .str s.exchange), ("routingKey", .str s.routingKey)] ++
    written "name" s.name ++ written "completedAt" s.completedAt)

/-- `str(raw.get(field) or "")`. -/
def field (room : Room) (raw : Dict String Json) (field : String) : Except Failure String :=
  match raw.get? field with
  | none => .ok ""
  | some value =>
      if (loads value).truthy = false then .ok ""
      else if value.depth ≤ room.printing.getD value.depth then .ok (loads value).str
      else .error recursionError

def fromJson (room : Room) : Json → Except Failure Step
  | .obj items => do
      let raw := Dict.ofList items
      return ⟨← field room raw "exchange", ← field room raw "routingKey", ← field room raw "name",
        ← field room raw "completedAt"⟩
  | raw => .error <| valueError <|
      "acemq: a routing slip step must be an object, not <class " ++
        reprText (loads raw).typeName ++ ">"

end Step

/-! ## Slips -/

structure RoutingSlip where
  steps : List Step
  done : List Step
  runId : String
  form : SlipForm
  deriving DecidableEq

/-- `isoformat()` of an instant in UTC. -/
def isoformat (when_ : Instant) : String :=
  let micros := when_ % 1000000
  Instant.isoSeconds "T" when_ ++ (if micros = 0 then "" else "." ++ Instant.padded 6 micros) ++ "+00:00"

/-- `",".join(names)`. -/
def joinNames (names : List String) : String :=
  String.ofList (List.intercalate [','] (names.map String.toList))

/-- `[name.strip() for name in text.split(",") if name.strip()]`. -/
def splitNames (text : String) : List String :=
  (((text.toList.splitOn ',').map strip).filter (· ≠ [])).map String.ofList

namespace RoutingSlip

variable (slip : RoutingSlip)

def next : Option Step := slip.steps.head?

def finished : Bool := slip.steps.isEmpty

/-- Every step, oldest first. -/
def every : List Step := slip.done ++ slip.steps

/-- The first step is done, at `now`. -/
def advance (now : Instant) : RoutingSlip :=
  match slip.steps with
  | [] => slip
  | first :: rest =>
      { slip with
        steps := rest
        done := slip.done ++ [{ first with completedAt := isoformat now }] }

def toJson : Json :=
  .obj [("steps", .arr (slip.steps.map Step.toJson)), ("done", .arr (slip.done.map Step.toJson))]

def toHeader : String := slip.toJson.dumps

def noSteps : Failure := valueError "acemq: this routing slip has no steps in it"

/-- The name of a step on a declared route. -/
def stepName (s : Step) : Except Failure String :=
  let name := orElse s.name s.routingKey
  if name = "" then
    .error <| valueError <|
      "acemq: a declared route carries step names and nothing else, and one of these steps has " ++
        "neither a name nor a routing key"
  else if s.name ≠ "" ∧ s.routingKey ≠ "" ∧ s.name ≠ s.routingKey then
    .error <| valueError <|
      "acemq: step " ++ reprText s.name ++ " is published under " ++ reprText s.routingKey ++
        ", and a declared route has one word for both — the name is the routing key. Name the " ++
        "step after its routing key, or write this slip as JSON"
  else if ',' ∈ name.toList then
    .error <| valueError <|
      "acemq: step name " ++ reprText name ++ " contains a comma, which is what the declared " ++
        "route separates its steps with"
  else .ok name

def stepNames : Except Failure (List String) :=
  let exchanges := (slip.every.map Step.exchange).dedup
  if slip.every = [] then .error noSteps
  else if 1 < exchanges.length then
    .error <| valueError <|
      "acemq: a declared route is one exchange with a queue per step, but these steps span " ++
        (Value.list ((exchanges.insertionSort (· ≤ ·)).map Value.text)).repr ++
        "; write this slip as JSON, which carries an exchange per step"
  else slip.every.mapM stepName

/-- `written_as`.  `fresh` is the identifier a run without one is given. -/
def writtenAs (fresh : String) : SlipForm → Except Failure RoutingSlip
  | .json => .ok { slip with form := .json }
  | .stepNames => do
      let switched := { slip with form := .stepNames, runId := orElse slip.runId fresh }
      let _ ← switched.stepNames
      return switched

end RoutingSlip

/-! ## On a message -/

theorem headerRoutingSlip_free : Headers.isReserved headerRoutingSlip = false := by decide

namespace Envelope

variable (e : Envelope)

/-- `with_(headers={**headers, HEADER_ROUTING_SLIP: itinerary})`. -/
def withItinerary (itinerary : String) : Envelope :=
  { e.toEnvelopeFields with headers := e.headers.set headerRoutingSlip (.text itinerary) }.settle <| by
    intro name hname
    rcases Dict.mem_set.mp hname with rfl | hold
    · exact headerRoutingSlip_free
    · exact e.application name hold

/-- `with_(route=route, route_position=position, route_id=routeId)`. -/
def withRoute (route : String) (position : ℕ) (routeId : String) : Envelope :=
  { e.toEnvelopeFields with route := route, routePosition := position, routeId := routeId }.settle
    e.application

end Envelope

namespace RoutingSlip

variable (slip : RoutingSlip)

/-- `onto`.  `fresh` is the identifier a run without one is given. -/
def onto (fresh : String) (e : Envelope) : Except Failure Envelope :=
  match slip.form with
  | .json => .ok (e.withItinerary slip.toHeader)
  | .stepNames => do
      let names ← slip.stepNames
      return e.withRoute (joinNames names) slip.done.length (orElse slip.runId fresh)

end RoutingSlip

/-- What cannot be read.  The reader's own words are left out. -/
def unreadable (e : Envelope) (failure : String) : Failure :=
  fatalError ("acemq: cannot read the routing slip on message " ++ e.id ++ ": " ++ failure)

/-- `tuple(Step.from_json(step) for step in written.get(field) or ())`. -/
def stepsOf (room : Room) (written : Dict String Json) (field : String) : Except Failure (List Step) :=
  match written.get? field with
  | none => .ok []
  | some value =>
      if (loads value).truthy = false then .ok []
      else match value with
        | .arr items => items.mapM (Step.fromJson room)
        | .str _ | .obj _ => [Json.str ""].mapM (Step.fromJson room)
        | value => .error ⟨.exception, "TypeError",
            reprText (loads value).typeName ++ " object is not iterable"⟩

/-- `_declared_route`. -/
def declaredRoute (e : Envelope) (pipeline : String) : Option RoutingSlip :=
  let names := splitNames e.route
  let steps := names.map (Step.declared pipeline)
  let at_ := min e.routePosition.toNat names.length
  if names = [] then none else some ⟨steps.drop at_, steps.take at_, e.routeId, .stepNames⟩

/-- `RoutingSlip(steps=…, done=…)`, of what `json.loads` returned. -/
def slipOf (room : Room) : Json → Except Failure RoutingSlip
  | .obj items => do
      let written := Dict.ofList items
      return ⟨← stepsOf room written "steps", ← stepsOf room written "done", "", .json⟩
  | value => .error ⟨.exception, "AttributeError",
      reprText (loads value).typeName ++ " object has no attribute " ++ reprText "get"⟩

/-- The steps of an itinerary that is JSON.  Of what can be raised on the way, only the `RecursionError`
is not made a `FatalError`. -/
def itinerary (room : Room) (e : Envelope) (raw : String) : Except Failure RoutingSlip :=
  match Json.loadsWithin (room.reading.getD raw.toList.length) raw with
  | .error .malformed => .error (unreadable e "it is not JSON")
  | .error .tooDeep => .error recursionError
  | .ok written =>
      match slipOf room written with
      | .ok slip => .ok slip
      | .error failure => .error (if failure = recursionError then failure else unreadable e failure.text)

/-- `slip_from`. -/
def slipWithin (room : Room) (e : Envelope) (pipeline : String) : Except Failure (Option RoutingSlip) :=
  match e.headers.get? headerRoutingSlip with
  | none | some .null => .ok (declaredRoute e pipeline)
  | some (.text raw) => (itinerary room e raw).map some
  | some (.bytes raw) => (itinerary room e (decodeReplace raw)).map some
  | some value => .error <| fatalError <|
      "acemq: the routing slip on message " ++ e.id ++ " is a " ++ value.typeName ++ ", not text"

/-- `slip_from`, with all the room it needs. -/
def slipFrom (e : Envelope) (pipeline : String) : Except Failure (Option RoutingSlip) :=
  slipWithin .ample e pipeline

/-! ## From stop to stop -/

namespace Envelope

/-- What goes on with a message whose handler is done: the application's headers
but for the itinerary, the foreign ones, and the run's first-seen instant. -/
def passedOn (id origin : String) (incoming : Envelope) : Envelope :=
  EnvelopeFields.settle
    { id := id, type := "", version := 1, correlationId := incoming.correlationId
      causationId := incoming.id, attempt := 1, firstSeen := incoming.firstSeen, origin := origin
      error := "", claim := "", route := "", routePosition := 0, routeId := ""
      headers := incoming.headers.erase headerRoutingSlip, extensions := incoming.extensions } <| by
    intro name hname
    exact incoming.application name (Dict.mem_erase.mp hname).2

end Envelope

/-- A message that has been sent to a stop, and the slip written on it. -/
structure Stop where
  exchange : String
  routingKey : String
  slip : RoutingSlip
  envelope : Envelope

/-- `start`, up to its publish. -/
def start (slip : RoutingSlip) (form : Option SlipForm) (fresh : String) (outgoing : Envelope) :
    Except Failure Stop :=
  match slip.next with
  | none => .error RoutingSlip.noSteps
  | some first => do
      let written ← match form with
        | none => .ok slip
        | some form => slip.writtenAs fresh form
      return ⟨first.exchange, first.routingKey, written, ← written.onto fresh outgoing⟩

/-- What a message without an itinerary is rejected with. -/
def noItinerary (e : Envelope) : Failure :=
  fatalError ("acemq: message " ++ e.id ++
    " has no routing slip, so there is nowhere to send it next")

/-- What the clock shows and the identifiers that are minted at a stop: one for
the message that goes on, and one for a run that has none. -/
structure Tick where
  now : Instant
  id : String
  run : String

/-- Where a message goes on to, when its slip has been advanced. -/
def writeOn (slip : RoutingSlip) (form : Option SlipForm) (origin : String) (tick : Tick)
    (onwards : Step) (incoming : Envelope) : Except Failure Stop := do
  let advanced := slip.advance tick.now
  let written ← match form with
    | none => .ok advanced
    | some form => advanced.writtenAs tick.run form
  return ⟨onwards.exchange, onwards.routingKey, written,
    ← written.onto tick.run (incoming.passedOn tick.id origin)⟩

example : splitNames " validate, ,enrich " = ["validate", "enrich"] := by decide +kernel

end AcemqAmqp
