import AcemqAmqp.Codecs.Codec
import AcemqAmqp.Foundations.Dict
import AcemqAmqp.Foundations.Fallible
import Mathlib.Data.List.TakeWhile

/-!
# XML

A payload is a mapping, written as one root element whose children carry its
keys as their names.  XML has no types and no lists: what is read back is
texts, mappings, and lists where a name repeats.  Which payload that is, is
said here of the payload itself.
-/

namespace AcemqAmqp

namespace Xml

/-- What can be written.  A mapping keeps its items in order, and a float the
text Python prints for it. -/
inductive Payload
  | text (s : String)
  | int (n : ℤ)
  | float (repr : String)
  | bool (b : Bool)
  | none
  | mapping (items : List (String × Payload))
  | list (items : List Payload)
  | tuple (items : List Payload)
  | dataclass (className : String) (fields : List (String × Payload))

/-- An element of a tree. -/
inductive Element
  | mk (tag : String) (attrib : List (String × String)) (text : Option String)
      (children : List Element)

def Element.tag : Element → String
  | mk tag _ _ _ => tag

@[simp] theorem Element.tag_mk (tag : String) (attrib : List (String × String)) (text : Option String)
    (children : List Element) : (mk tag attrib text children).tag = tag := rfl

/-! ## Writing -/

/-- An element without attributes that carries a text. -/
def leaf (name : String) (text : Option String) : Element := .mk name [] text []

mutual

/-- `_fill`: the elements a mapping's items are written as. -/
def fill : List (String × Payload) → List Element
  | [] => []
  | (key, value) :: rest => append key value ++ fill rest

/-- `_append`: the elements one value adds to its parent.  A sequence is a repeated tag. -/
def append (name : String) : Payload → List Element
  | .list items => appendEach name items
  | .tuple items => appendEach name items
  | .dataclass _ fields => [.mk name [] none (fill fields)]
  | .mapping items => [.mk name [] none (fill items)]
  | .none => [leaf name none]
  | .bool b => [leaf name (if b then "true" else "false")]
  | .text s => [leaf name s]
  | .int n => [leaf name (toString n)]
  | .float repr => [leaf name repr]

def appendEach (name : String) : List Payload → List Element
  | [] => []
  | item :: rest => append name item ++ appendEach name rest

end

/-! ## Reading -/

/-- `_local`: what follows the last closing brace. -/
def localName (tag : String) : String :=
  String.ofList (tag.toList.reverse.takeWhile (· ≠ '}')).reverse

/-- What is read so far, and one child more.  The second of a name makes a list of the first. -/
def gather (result : Dict String Payload) (name : String) (value : Payload) : Dict String Payload :=
  match result.get? name with
  | none => result.set name value
  | some (.list existing) => result.set name (.list (existing ++ [value]))
  | some existing => result.set name (.list [existing, value])

mutual

/-- `_to_value`. -/
def toValue : Element → Payload
  | .mk _ attrib text children =>
      let result := collect children (.ofList (attrib.map fun (key, value) ↦ (localName key, .text value)))
      if result.items.isEmpty then .text (text.getD "") else .mapping result.items

def collect : List Element → Dict String Payload → Dict String Payload
  | [], result => result
  | child :: rest, result => collect rest (gather result (localName child.tag) (toValue child))

end

/-! ## What survives -/

/-- The values under one name: none is left out, one stands for itself, several are a list. -/
def bundle : List Payload → Option Payload
  | [] => none
  | [value] => some value
  | values => some (.list values)

/-- Items with a text where there are none. -/
def record (items : List (String × Payload)) : Payload :=
  if items.isEmpty then .text "" else .mapping items

mutual

def normalItems : List (String × Payload) → List (String × Payload)
  | [] => []
  | (key, value) :: rest => (bundle (occurrences value)).toList.map (key, ·) ++ normalItems rest

/-- What a value is read back as, one payload for each element it is written as. -/
def occurrences : Payload → List Payload
  | .list items => occurrencesEach items
  | .tuple items => occurrencesEach items
  | .dataclass _ fields => [record (normalItems fields)]
  | .mapping items => [record (normalItems items)]
  | .none => [.text ""]
  | .bool b => [.text (if b then "true" else "false")]
  | .text s => [.text s]
  | .int n => [.text (toString n)]
  | .float repr => [.text repr]

def occurrencesEach : List Payload → List Payload
  | [] => []
  | item :: rest => occurrences item ++ occurrencesEach rest

end

/-- A key without braces. -/
def braceless (key : String) : Bool := '{' ∉ key.toList ∧ '}' ∉ key.toList

mutual

/-- The keys of every mapping in a payload are distinct and free of braces. -/
def wellKeyed : Payload → Bool
  | .list items => wellKeyedEach items
  | .tuple items => wellKeyedEach items
  | .dataclass _ fields => wellKeyedItems fields
  | .mapping items => wellKeyedItems items
  | _ => true

def wellKeyedItems : List (String × Payload) → Bool
  | [] => true
  | (key, value) :: rest =>
      braceless key && (rest.map Prod.fst).all (· ≠ key) && wellKeyed value && wellKeyedItems rest

def wellKeyedEach : List Payload → Bool
  | [] => true
  | item :: rest => wellKeyed item && wellKeyedEach rest

end

example : toValue (.mk "message" [] none (fill [("a", .list [.int 1, .none, .list [.bool true]]),
    ("b", .list []), ("c", .list [.text "x"])])) =
    .mapping [("a", .list [.text "1", .text "", .text "true"]), ("c", .text "x")] := by
  rfl

/-! ## Repeated names -/

theorem localName_of_braceless {key : String} (h : braceless key = true) : localName key = key := by
  have hno : '}' ∉ key.toList := (of_decide_eq_true h).2
  have hall : ∀ c ∈ key.toList.reverse, (decide (c ≠ '}')) = true := by
    intro c hc
    apply decide_eq_true
    rintro rfl
    exact hno (List.mem_reverse.mp hc)
  rw [localName, List.takeWhile_eq_self_iff.mpr hall, List.reverse_reverse, String.ofList_toList]

theorem toValue_ne_list (e : Element) (values : List Payload) : toValue e ≠ .list values := by
  obtain ⟨tag, attrib, text, children⟩ := e
  rw [toValue]
  split <;> nofun

theorem collect_append (before after : List Element) (result : Dict String Payload) :
    collect (before ++ after) result = collect after (collect before result) := by
  induction before generalizing result with
  | nil => rfl
  | cons child before ih => exact ih _

section named

variable {name : String} {children : List Element} {result : Dict String Payload}

/-- From the second of a name on, each one more goes to the end of the list. -/
theorem collect_list (h : ∀ child ∈ children, localName child.tag = name) (values : List Payload) :
    collect children (result.set name (.list values)) =
      result.set name (.list (values ++ children.map toValue)) := by
  induction children generalizing values with
  | nil => simp [collect]
  | cons child children ih =>
      have hgather : gather (result.set name (.list values)) name (toValue child) =
          result.set name (.list (values ++ [toValue child])) := by
        rw [gather, Dict.get?_set_self]
        exact Dict.set_set _ _ _ _
      rw [collect, h child List.mem_cons_self, hgather,
        ih (fun e he ↦ h e (List.mem_cons_of_mem _ he))]
      simp

/-- Children of one new name are read as what they bundle to. -/
theorem collect_named (h : ∀ child ∈ children, localName child.tag = name) (hname : name ∉ result) :
    (collect children result).items =
      result.items ++ (bundle (children.map toValue)).toList.map (name, ·) := by
  match children, h with
  | [], _ => simp [collect, bundle]
  | [child], h =>
      rw [collect, collect, h child List.mem_cons_self, gather, Dict.get?_eq_none_iff.mpr hname]
      exact Dict.items_set_of_notMem hname
  | first :: second :: rest, h =>
      have hfirst : gather result (localName first.tag) (toValue first) = result.set name (toValue first) := by
        rw [h first List.mem_cons_self, gather, Dict.get?_eq_none_iff.mpr hname]
      have hsecond : gather (result.set name (toValue first)) (localName second.tag) (toValue second) =
          result.set name (.list [toValue first, toValue second]) := by
        rw [h second (by simp), gather, Dict.get?_set_self]
        split
        · rename_i heq
          cases heq
        · rename_i existing heq
          exact absurd (Option.some.inj heq) (toValue_ne_list first existing)
        · rename_i existing _ heq
          obtain rfl := Option.some.inj heq
          exact Dict.set_set _ _ _ _
      rw [collect, hfirst, collect, hsecond,
        collect_list fun e he ↦ h e (List.mem_cons_of_mem _ (List.mem_cons_of_mem _ he)),
        Dict.items_set_of_notMem hname]
      rfl

end named

/-! ## Reading back -/

@[simp] theorem tag_leaf (name : String) (text : Option String) : (leaf name text).tag = name := rfl

@[simp] theorem toValue_leaf (name : String) (text : Option String) :
    toValue (leaf name text) = .text (text.getD "") := rfl

mutual

theorem tag_append (name : String) : ∀ value, ∀ e ∈ append name value, e.tag = name
  | .list items | .tuple items => tag_appendEach name items
  | .dataclass _ _ | .mapping _ | .none | .bool _ | .text _ | .int _ | .float _ => by
      simp [append]

theorem tag_appendEach (name : String) : ∀ items, ∀ e ∈ appendEach name items, e.tag = name
  | [] => nofun
  | item :: rest => by
      intro e he
      rw [appendEach, List.mem_append] at he
      exact he.elim (tag_append name item e) (tag_appendEach name rest e)

end

/-- An element whose children are a mapping's items is read as those items. -/
theorem toValue_of_collect {tag : String} {children : List Element} {items : List (String × Payload)}
    (h : (collect children ∅).items = items) : toValue (.mk tag [] none children) = record items := by
  have hcollect : (collect children (.ofList [])).items = items := h
  rw [toValue, List.map_nil, hcollect]
  rfl

mutual

/-- What a value is written as is read back as its occurrences. -/
theorem map_toValue_append (name : String) :
    ∀ value, wellKeyed value = true → (append name value).map toValue = occurrences value
  | .list items, h => map_toValue_appendEach name items h
  | .tuple items, h => map_toValue_appendEach name items h
  | .dataclass _ fields, h => by
      rw [append, List.map_singleton, toValue_of_collect (collect_fill fields h ∅ nofun)]
      rfl
  | .mapping items, h => by
      rw [append, List.map_singleton, toValue_of_collect (collect_fill items h ∅ nofun)]
      rfl
  | .bool b, _ => by cases b <;> rfl
  | .none, _ | .text _, _ | .int _, _ | .float _, _ => by simp [append, occurrences]

theorem map_toValue_appendEach (name : String) :
    ∀ items, wellKeyedEach items = true → (appendEach name items).map toValue = occurrencesEach items
  | [], _ => rfl
  | item :: rest, h => by
      rw [wellKeyedEach, Bool.and_eq_true] at h
      rw [appendEach, List.map_append, map_toValue_append name item h.1, map_toValue_appendEach name rest h.2]
      rfl

/-- Items under new names are read back, after what is read already, in their normal form. -/
theorem collect_fill : ∀ items, wellKeyedItems items = true → ∀ result : Dict String Payload,
    (∀ item ∈ items, item.1 ∉ result) → (collect (fill items) result).items = result.items ++ normalItems items
  | [], _, result, _ => by rw [fill, collect, normalItems, List.append_nil]
  | (key, value) :: rest, h, result, hnew => by
      simp only [wellKeyedItems, Bool.and_eq_true, List.all_eq_true, List.mem_map, decide_eq_true_eq] at h
      obtain ⟨⟨⟨hkey, hdistinct⟩, hvalue⟩, hrest⟩ := h
      have htags : ∀ child ∈ append key value, localName child.tag = key := by
        intro child hchild
        rw [tag_append key value child hchild, localName_of_braceless hkey]
      have hfirst := collect_named htags (hnew (key, value) List.mem_cons_self)
      rw [map_toValue_append key value hvalue] at hfirst
      have hstill : ∀ item ∈ rest, item.1 ∉ collect (append key value) result := by
        intro item hitem hmem
        change item.1 ∈ (collect (append key value) result).items.map Prod.fst at hmem
        rw [hfirst, List.map_append, List.mem_append] at hmem
        rcases hmem with hmem | hmem
        · exact hnew item (List.mem_cons_of_mem _ hitem) hmem
        · obtain ⟨p, hp, hpkey⟩ := List.mem_map.mp hmem
          obtain ⟨_, _, rfl⟩ := List.mem_map.mp hp
          exact hdistinct item.1 ⟨item, hitem, rfl⟩ hpkey.symm
      rw [fill, collect_append, collect_fill rest hrest _ hstill, hfirst, normalItems, List.append_assoc]

end

/-! ## Normal forms -/

/-- A value that is read back as itself. -/
def Stable (value : Payload) : Prop := occurrences value = [value] ∧ wellKeyed value = true

theorem stable_text (s : String) : Stable (.text s) := ⟨rfl, rfl⟩

theorem occurrencesEach_of_stable {values : List Payload} (h : ∀ value ∈ values, Stable value) :
    occurrencesEach values = values ∧ wellKeyedEach values = true := by
  induction values with
  | nil => exact ⟨rfl, rfl⟩
  | cons value values ih =>
      obtain ⟨hvalue, hkeys⟩ := h value List.mem_cons_self
      obtain ⟨hrest, hrestKeys⟩ := ih fun v hv ↦ h v (List.mem_cons_of_mem _ hv)
      constructor
      · rw [occurrencesEach, hvalue, hrest, List.singleton_append]
      · rw [wellKeyedEach, hkeys, hrestKeys, Bool.and_self]

theorem occurrences_of_bundle {values : List Payload} {value : Payload} (h : ∀ v ∈ values, Stable v)
    (hvalue : bundle values = some value) : occurrences value = values ∧ wellKeyed value = true := by
  match values, hvalue with
  | [_], rfl => exact h value List.mem_cons_self
  | first :: second :: rest, rfl => exact occurrencesEach_of_stable h

/-- Items that are read back as themselves. -/
def StableItems (items : List (String × Payload)) : Prop :=
  normalItems items = items ∧ wellKeyedItems items = true

theorem StableItems.record {items : List (String × Payload)} (h : StableItems items) :
    Stable (record items) := by
  rw [Xml.record]
  split
  · exact stable_text ""
  · rename_i hsome
    refine ⟨?_, h.2⟩
    rw [occurrences, h.1, Xml.record, if_neg hsome]

theorem keys_normalItems (items : List (String × Payload)) :
    ∀ item ∈ normalItems items, item.1 ∈ items.map Prod.fst := by
  induction items with
  | nil => nofun
  | cons item items ih =>
      intro p hp
      rw [normalItems, List.mem_append] at hp
      rcases hp with hp | hp
      · obtain ⟨_, _, rfl⟩ := List.mem_map.mp hp
        exact List.mem_cons_self
      · exact List.mem_cons_of_mem _ (ih p hp)

mutual

/-- What a value is read back as is read back as itself. -/
theorem stable_occurrences :
    ∀ value, wellKeyed value = true → ∀ v ∈ occurrences value, Stable v
  | .list items, h => stable_occurrencesEach items h
  | .tuple items, h => stable_occurrencesEach items h
  | .dataclass _ fields, h => by
      intro v hv
      obtain rfl := List.mem_singleton.mp hv
      exact (stableItems_normalItems fields h).record
  | .mapping items, h => by
      intro v hv
      obtain rfl := List.mem_singleton.mp hv
      exact (stableItems_normalItems items h).record
  | .none, _ | .bool _, _ | .text _, _ | .int _, _ | .float _, _ => by
      intro v hv
      obtain rfl := List.mem_singleton.mp hv
      exact stable_text _

theorem stable_occurrencesEach :
    ∀ items, wellKeyedEach items = true → ∀ v ∈ occurrencesEach items, Stable v
  | [], _ => nofun
  | item :: rest, h => by
      rw [wellKeyedEach, Bool.and_eq_true] at h
      intro v hv
      rw [occurrencesEach, List.mem_append] at hv
      exact hv.elim (stable_occurrences item h.1 v) (stable_occurrencesEach rest h.2 v)

theorem stableItems_normalItems :
    ∀ items, wellKeyedItems items = true → StableItems (normalItems items)
  | [], _ => ⟨rfl, rfl⟩
  | (key, value) :: rest, h => by
      simp only [wellKeyedItems, Bool.and_eq_true] at h
      obtain ⟨⟨⟨hkey, hdistinct⟩, hvalue⟩, hrest⟩ := h
      have hstable := stable_occurrences value hvalue
      obtain ⟨hnormal, hkeys⟩ := stableItems_normalItems rest hrest
      rw [normalItems]
      cases hbundle : bundle (occurrences value) with
      | none => exact ⟨hnormal, hkeys⟩
      | some bundled =>
          obtain ⟨hoccurrences, hbundled⟩ := occurrences_of_bundle hstable hbundle
          constructor
          · change normalItems ((key, bundled) :: normalItems rest) = _
            rw [normalItems, hoccurrences, hbundle, hnormal]
          · change wellKeyedItems ((key, bundled) :: normalItems rest) = true
            rw [wellKeyedItems, hkey, hbundled, hkeys, Bool.and_true, Bool.and_true, Bool.true_and,
              List.all_eq_true]
            intro other hother
            obtain ⟨item, hitem, rfl⟩ := List.mem_map.mp hother
            exact List.all_eq_true.mp hdistinct _ (keys_normalItems rest item hitem)

end

theorem append_eq_nil_iff (name : String) {value : Payload} (h : wellKeyed value = true) :
    append name value = [] ↔ bundle (occurrences value) = none := by
  rw [← map_toValue_append name value h]
  rcases append name value with _ | ⟨first, _ | ⟨second, rest⟩⟩ <;> simp [bundle]

/-- Items have an empty normal form exactly when they are written as nothing. -/
theorem normalItems_eq_nil_iff {items : List (String × Payload)} (h : wellKeyedItems items = true) :
    normalItems items = [] ↔ fill items = [] := by
  induction items with
  | nil => simp [normalItems, fill]
  | cons item items ih =>
      obtain ⟨key, value⟩ := item
      simp only [wellKeyedItems, Bool.and_eq_true] at h
      obtain ⟨⟨-, hvalue⟩, hrest⟩ := h
      rw [normalItems, fill, List.append_eq_nil_iff, List.append_eq_nil_iff, ih hrest,
        append_eq_nil_iff key hvalue, List.map_eq_nil_iff, Option.toList_eq_nil_iff]

/-! ## The codec -/

/-- What the parser makes of a body. -/
inductive Parsed
  | doctype
  | malformed (reason : String)
  | tree (root : Element)

/-- The standard library's serializer, and its parser with a tree built of what it reports. -/
structure ElementTree where
  tostring : Element → Except Failure Bytes
  parse : Bytes → Parsed

structure XmlCodec where
  root : String
  named : root ≠ ""

/-- `DEFAULT_ROOT`. -/
def defaultRoot : String := "message"

def xmlContentType : String := "application/xml"

namespace Payload

/-- The items of a mapping, or of the mapping `asdict` makes of a dataclass. -/
def asMapping : Payload → Option (List (String × Payload))
  | mapping items => some items
  | dataclass _ fields => some fields
  | _ => Option.none

/-- `type(payload).__name__`. -/
def typeName : Payload → String
  | text _ => "str"
  | int _ => "int"
  | float _ => "float"
  | bool _ => "bool"
  | none => "NoneType"
  | mapping _ => "dict"
  | list _ => "list"
  | tuple _ => "tuple"
  | dataclass className _ => className

end Payload

/-- What a payload that has no items is refused with. -/
def noRoot (payload : Payload) : Failure := typeError <|
  "acemq: cannot encode a " ++ payload.typeName ++ " as XML: an XML document " ++
    "has one root element with named children, so the top level has to be a " ++
    "mapping or a dataclass. Wrap a list or a scalar in a mapping with a " ++
    "named key, or use JsonCodec."

def dtdRefused : Failure := fatalError <|
  "acemq: this message carries a document type declaration. A message body has no " ++
    "use for one, and a parser that reads DTDs will expand entities on behalf of " ++
    "whoever sent the message. This codec refuses every DTD and the refusal is not " ++
    "configurable."

namespace XmlCodec

/-- `XmlCodec(root)`. -/
def new (root : String) : Except Failure XmlCodec :=
  if h : root = "" then .error (valueError "acemq: an XML codec needs a root element name")
  else .ok ⟨root, h⟩

/-- The element `encode` builds of a payload. -/
def element (codec : XmlCodec) (payload : Payload) : Except Failure Element :=
  let name := match payload with
    | .dataclass className _ => className
    | _ => codec.root
  match payload.asMapping with
  | none => .error (noRoot payload)
  | some items => .ok (.mk name [] none (fill items))

/-- `_parse`. -/
def parse (xml : ElementTree) (body : Bytes) : Except Failure Element :=
  match xml.parse body with
  | .doctype => .error dtdRefused
  | .malformed reason => .error (fatalError ("acemq: this message is not XML: " ++ reason))
  | .tree root => .ok root

def encode (codec : XmlCodec) (xml : ElementTree) (payload : Payload) : Except Failure Bytes :=
  (codec.element payload).bind xml.tostring

def decode (xml : ElementTree) (body : Bytes) (_contentType : Option String) : Except Failure Payload :=
  (parse xml body).map toValue

/-- Accepts the XML content types and any with the suffix, and never an absent one. -/
def canDecode (contentType : Option String) : Bool :=
  contentType.getD "" ≠ "" ∧ (ContentType.StartsWith contentType xmlContentType ∨
    ContentType.StartsWith contentType "text/xml" ∨ ContentType.Mentions contentType "+xml")

def codec (codec : XmlCodec) (xml : ElementTree) : Codec Payload where
  contentType := xmlContentType
  encode := codec.encode xml
  decode := decode xml
  canDecode := canDecode

end XmlCodec

mutual

/-- A tree as it comes back from its serialized form: an empty text is no text. -/
def asParsed : Element → Element
  | .mk tag attrib text children => .mk tag attrib (text.filter (· ≠ "")) (asParsedEach children)

def asParsedEach : List Element → List Element
  | [] => []
  | child :: rest => asParsed child :: asParsedEach rest

end

/-- A tree survives being serialized and parsed: its names, their order and its texts do. -/
def ElementTree.Preserves (xml : ElementTree) (root : Element) : Prop :=
  ∃ body, xml.tostring root = .ok body ∧ xml.parse body = .tree (asParsed root)

theorem tag_asParsed (root : Element) : (asParsed root).tag = root.tag := by
  cases root
  rfl

mutual

theorem toValue_asParsed : ∀ root, toValue (asParsed root) = toValue root
  | .mk tag attrib text children => by
      have htext : (text.filter (· ≠ "")).getD "" = text.getD "" := by
        cases text with
        | none => rfl
        | some s =>
            by_cases hs : s = ""
            · rw [hs]
              rfl
            · rw [Option.filter_some_pos (by simpa using hs)]
      rw [asParsed, toValue, toValue, collect_asParsedEach children, htext]

theorem collect_asParsedEach : ∀ children result,
    collect (asParsedEach children) result = collect children result
  | [], _ => rfl
  | child :: rest, result => by
      rw [asParsedEach, collect, collect, tag_asParsed, toValue_asParsed child, collect_asParsedEach rest]

end

/-- The payload is written, and what is written of it is read as `value`. -/
def ReadsBack (codec : XmlCodec) (xml : ElementTree) (payload value : Payload) : Prop :=
  ∃ root, codec.element payload = .ok root ∧ toValue root = value ∧
    (xml.Preserves root → ∀ contentType,
      (codec.encode xml payload).bind (fun body ↦ XmlCodec.decode xml body contentType) = .ok value)

theorem readsBack_of_asMapping (codec : XmlCodec) (xml : ElementTree) {payload : Payload}
    {items : List (String × Payload)} (hpayload : payload.asMapping = some items)
    (hkeys : wellKeyedItems items = true) : ReadsBack codec xml payload (record (normalItems items)) := by
  obtain ⟨name, hroot⟩ : ∃ name, codec.element payload = .ok (.mk name [] none (fill items)) := by
    unfold XmlCodec.element
    simp only [hpayload]
    exact ⟨_, rfl⟩
  have hvalue : toValue (.mk name [] none (fill items)) = record (normalItems items) :=
    toValue_of_collect (collect_fill items hkeys ∅ nofun)
  refine ⟨_, hroot, hvalue, ?_⟩
  rintro ⟨body, hbody, hparse⟩ contentType
  rw [XmlCodec.encode, hroot, Except.bind, hbody, Except.bind, XmlCodec.decode, XmlCodec.parse, hparse,
    Except.map, toValue_asParsed, hvalue]

/-- A payload is read back in its normal form.  Where anything is written of it that is
a mapping again and is read back as itself; otherwise it is a text, and no payload. -/
theorem xmlCodec_reads_back (codec : XmlCodec) (xml : ElementTree) {payload : Payload}
    {items : List (String × Payload)} (hpayload : payload.asMapping = some items)
    (hkeys : wellKeyedItems items = true) :
    ReadsBack codec xml payload (record (normalItems items)) ∧
      (fill items ≠ [] → ReadsBack codec xml (record (normalItems items)) (record (normalItems items))) ∧
      (fill items = [] → codec.encode xml (record (normalItems items)) = .error (noRoot (.text ""))) := by
  refine ⟨readsBack_of_asMapping codec xml hpayload hkeys, fun hsome ↦ ?_, fun hnone ↦ ?_⟩
  · obtain ⟨hnormal, hnormalKeys⟩ := stableItems_normalItems items hkeys
    have hrecord : record (normalItems items) = .mapping (normalItems items) := by
      rw [record, if_neg]
      rw [List.isEmpty_iff, normalItems_eq_nil_iff hkeys]
      exact hsome
    have hmapping : (record (normalItems items)).asMapping = some (normalItems items) := by
      rw [hrecord]
      rfl
    have hagain := readsBack_of_asMapping codec xml hmapping hnormalKeys
    rwa [hnormal] at hagain
  · rw [(normalItems_eq_nil_iff hkeys).mpr hnone]
    rfl

def message : XmlCodec := ⟨defaultRoot, by decide⟩

/-- A serializer and a parser that know one document. -/
def oneDocument : ElementTree where
  tostring _ := .ok (encodeUtf8 "<message><a>1</a><a /></message>")
  parse body :=
    if body = encodeUtf8 "<message><a>1</a><a /></message>" then
      .tree (.mk "message" [] none [leaf "a" (some "1"), leaf "a" none])
    else .malformed "no element found: line 1, column 0"

theorem xmlCodec_reads_back_document :
    (ReadsBack message oneDocument (.mapping [("a", .list [.int 1, .list [.none]]), ("b", .list [])])
        (.mapping [("a", .list [.text "1", .text ""])]) ∧
      ReadsBack message oneDocument (.mapping [("a", .list [.text "1", .text ""])])
        (.mapping [("a", .list [.text "1", .text ""])])) ∧
      oneDocument.Preserves (.mk "message" [] none [leaf "a" (some "1"), leaf "a" none]) ∧
      oneDocument.Preserves (.mk "message" [] none [leaf "a" (some "1"), leaf "a" (some "")]) := by
  have hreads := @xmlCodec_reads_back message oneDocument
    (.mapping [("a", .list [.int 1, .list [.none]]), ("b", .list [])]) _ rfl (by decide)
  exact ⟨⟨hreads.1, hreads.2.1 nofun⟩, ⟨_, rfl, rfl⟩, ⟨_, rfl, rfl⟩⟩

/-- The normal form of the empty mapping is the empty text, which is no payload. -/
theorem xmlCodec_refuses_nothing :
    (∀ xml, ReadsBack message xml (.mapping []) (.text "")) ∧
      ∀ xml value, ¬ReadsBack message xml (.text "") value := by
  refine ⟨fun xml ↦ @readsBack_of_asMapping message xml (.mapping []) [] rfl rfl, ?_⟩
  rintro xml value ⟨root, hroot, -⟩
  cases hroot

end Xml

end AcemqAmqp
