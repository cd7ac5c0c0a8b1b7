import AcemqAmqp.Core.Failure
import AcemqAmqp.Foundations.Dict
import AcemqAmqp.Foundations.Fallible
import AcemqAmqp.Foundations.Json
import AcemqAmqp.Wire.Value

/-!
# Header values as JSON

What `json.dumps` makes of a header value, and the value `json.loads` makes of
a JSON document.
-/

namespace AcemqAmqp

open Fallible

/-- What `json.dumps` raises for a value of a type it has no words for. -/
def notSerializable (typeName : String) : Failure :=
  ⟨.exception, "TypeError", "Object of type " ++ typeName ++ " is not JSON serializable"⟩

mutual

/-- `json.dumps(value)`. -/
def dumps : Value → Except Failure Json
  | .null => .ok .null
  | .bool b => .ok (.bool b)
  | .int n => .ok (.int n)
  | .float repr => .ok (.float repr)
  | .decimal _ => .error (notSerializable "Decimal")
  | .text s => .ok (.str s)
  | .bytes _ => .error (notSerializable "bytes")
  | .timestamp _ => .error (notSerializable "datetime")
  | .list items => return .arr (← dumpsList items)
  | .table items => return .obj (← dumpsItems items)

def dumpsList : List Value → Except Failure (List Json)
  | [] => .ok []
  | value :: rest => return (← dumps value) :: (← dumpsList rest)

def dumpsItems : List (String × Value) → Except Failure (List (String × Json))
  | [] => .ok []
  | (name, value) :: rest => return (name, ← dumps value) :: (← dumpsItems rest)

end

mutual

/-- `json.loads(text)`. -/
def loads : Json → Value
  | .null => .null
  | .bool b => .bool b
  | .int n => .int n
  | .float repr => .float repr
  | .str s => .text s
  | .arr items => .list (loadsList items)
  | .obj items => .table (loadsItems items)

def loadsList : List Json → List Value
  | [] => []
  | json :: rest => loads json :: loadsList rest

def loadsItems : List (String × Json) → List (String × Value)
  | [] => []
  | (name, json) :: rest => (name, loads json) :: loadsItems rest

end

mutual

/-- What was written is read back. -/
theorem loads_of_dumps {value : Value} {json : Json} (h : dumps value = .ok json) :
    loads json = value := by
  cases value with
  | list items =>
      obtain ⟨written, hitems, hjson⟩ := bind_ok_iff.mp h
      obtain rfl := Except.ok.inj hjson
      rw [loads, loadsList_of_dumpsList hitems]
  | table items =>
      obtain ⟨written, hitems, hjson⟩ := bind_ok_iff.mp h
      obtain rfl := Except.ok.inj hjson
      rw [loads, loadsItems_of_dumpsItems hitems]
  | decimal s => cases h
  | bytes bs => cases h
  | timestamp when_ => cases h
  | _ =>
      obtain rfl := Except.ok.inj h
      rfl

theorem loadsList_of_dumpsList {items : List Value} {written : List Json}
    (h : dumpsList items = .ok written) : loadsList written = items := by
  cases items with
  | nil =>
      obtain rfl := Except.ok.inj h
      rfl
  | cons value rest =>
      obtain ⟨json, hvalue, h⟩ := bind_ok_iff.mp h
      obtain ⟨others, hrest, h⟩ := bind_ok_iff.mp h
      obtain rfl := Except.ok.inj h
      rw [loadsList, loads_of_dumps hvalue, loadsList_of_dumpsList hrest]

theorem loadsItems_of_dumpsItems {items : List (String × Value)} {written : List (String × Json)}
    (h : dumpsItems items = .ok written) : loadsItems written = items := by
  cases items with
  | nil =>
      obtain rfl := Except.ok.inj h
      rfl
  | cons item rest =>
      obtain ⟨json, hvalue, h⟩ := bind_ok_iff.mp h
      obtain ⟨others, hrest, h⟩ := bind_ok_iff.mp h
      obtain rfl := Except.ok.inj h
      rw [loadsItems, loads_of_dumps hvalue, loadsItems_of_dumpsItems hrest]

end

/-- `json.loads` of an object, as the dictionary it becomes. -/
def loadsHeaders (items : List (String × Json)) : Dict String Value :=
  Dict.ofList (loadsItems items)

/-- Headers survive the column they are kept in. -/
theorem loadsHeaders_of_dumps {headers : Dict String Value} {written : List (String × Json)}
    (h : dumpsItems headers.items = .ok written) : loadsHeaders written = headers := by
  rw [loadsHeaders, loadsItems_of_dumpsItems h, Dict.ofList_items]

/-! ## What can be written -/

mutual

/-- Whether there are neither decimals nor bytes nor timestamps in a value. -/
def Value.plain : Value → Bool
  | .decimal _ => false
  | .bytes _ => false
  | .timestamp _ => false
  | .list items => plainList items
  | .table items => plainItems items
  | _ => true

def plainList : List Value → Bool
  | [] => true
  | value :: rest => value.plain && plainList rest

def plainItems : List (String × Value) → Bool
  | [] => true
  | (_, value) :: rest => value.plain && plainItems rest

end

mutual

/-- JSON has words for the values that are plain, and for no others. -/
theorem dumps_ok_iff (value : Value) : (∃ json, dumps value = .ok json) ↔ value.plain = true := by
  cases value with
  | list items =>
      rw [Value.plain, ← dumpsList_ok_iff items, dumps]
      constructor
      · rintro ⟨json, h⟩
        obtain ⟨written, hitems, -⟩ := bind_ok_iff.mp h
        exact ⟨written, hitems⟩
      · rintro ⟨written, hitems⟩
        exact ⟨.arr written, bind_ok_iff.mpr ⟨written, hitems, rfl⟩⟩
  | table items =>
      rw [Value.plain, ← dumpsItems_ok_iff items, dumps]
      constructor
      · rintro ⟨json, h⟩
        obtain ⟨written, hitems, -⟩ := bind_ok_iff.mp h
        exact ⟨written, hitems⟩
      · rintro ⟨written, hitems⟩
        exact ⟨.obj written, bind_ok_iff.mpr ⟨written, hitems, rfl⟩⟩
  | decimal s => exact iff_of_false (fun ⟨_, h⟩ ↦ nomatch h) nofun
  | bytes bs => exact iff_of_false (fun ⟨_, h⟩ ↦ nomatch h) nofun
  | timestamp when_ => exact iff_of_false (fun ⟨_, h⟩ ↦ nomatch h) nofun
  | _ => exact iff_of_true ⟨_, rfl⟩ rfl

theorem dumpsList_ok_iff (items : List Value) :
    (∃ written, dumpsList items = .ok written) ↔ plainList items = true := by
  cases items with
  | nil => exact iff_of_true ⟨_, rfl⟩ rfl
  | cons value rest =>
      rw [plainList, Bool.and_eq_true, ← dumps_ok_iff value, ← dumpsList_ok_iff rest, dumpsList]
      constructor
      · rintro ⟨written, h⟩
        obtain ⟨json, hvalue, h⟩ := bind_ok_iff.mp h
        obtain ⟨others, hrest, -⟩ := bind_ok_iff.mp h
        exact ⟨⟨json, hvalue⟩, others, hrest⟩
      · rintro ⟨⟨json, hvalue⟩, others, hrest⟩
        exact ⟨_, bind_ok_iff.mpr ⟨json, hvalue, bind_ok_iff.mpr ⟨others, hrest, rfl⟩⟩⟩

theorem dumpsItems_ok_iff (items : List (String × Value)) :
    (∃ written, dumpsItems items = .ok written) ↔ plainItems items = true := by
  cases items with
  | nil => exact iff_of_true ⟨_, rfl⟩ rfl
  | cons item rest =>
      rw [plainItems, Bool.and_eq_true, ← dumps_ok_iff item.2, ← dumpsItems_ok_iff rest, dumpsItems]
      constructor
      · rintro ⟨written, h⟩
        obtain ⟨json, hvalue, h⟩ := bind_ok_iff.mp h
        obtain ⟨others, hrest, -⟩ := bind_ok_iff.mp h
        exact ⟨⟨json, hvalue⟩, others, hrest⟩
      · rintro ⟨⟨json, hvalue⟩, others, hrest⟩
        exact ⟨_, bind_ok_iff.mpr ⟨json, hvalue, bind_ok_iff.mpr ⟨others, hrest, rfl⟩⟩⟩

end

theorem plainItems_iff (items : List (String × Value)) :
    plainItems items = true ↔ ∀ item ∈ items, item.2.plain = true := by
  induction items with
  | nil => simp [plainItems]
  | cons item rest ih => rw [plainItems, Bool.and_eq_true, ih, List.forall_mem_cons]

end AcemqAmqp
