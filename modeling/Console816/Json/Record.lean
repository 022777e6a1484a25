import Console816.Json.Quoted

namespace Console816.Json

def fieldOf? (members : List (String × Json)) (name : String) : Option (Option Json) :=
  match members.filter (·.1 == name) with
  | [] => some none
  | [(_, value)] => some (some value)
  | _ => none

-- The fields of a record in the order of their names, with a gap for each that is missing. A record
-- is an object or an array of the fields in order. An object may have other members, but none of
-- the fields twice, and an array may end early only where that is allowed.
def fields? (names : List String) (mayEndEarly : Bool) : Json → Option (List (Option Json))
  | object members => do
    let members ← members.mapM fun (quoted, value) => return (← decoded? quoted, value)
    names.mapM (fieldOf? members)
  | array items =>
    if items.length = names.length ∨ (mayEndEarly ∧ items.length < names.length) then
      some (items.map some ++ List.replicate (names.length - items.length) none)
    else none
  | _ => none

-- Fields are written in the order given.
def record (fields : List (String × Json)) : Json :=
  object (fields.map fun (name, value) => (escape name.toUTF8.data.toList, value))

-- The member with a name that is written without an escape, and the first of several.
def member? (document : Json) (name : String) : Option Json :=
  match document with
  | object members => (members.find? (·.1 == name.toUTF8.data.toList)).map (·.2)
  | _ => none

-- The value of a natural number below `bound`.
def natBelow? (bound : Nat) (document : Json) : Option Nat := do
  let value ← document.nat?
  if value < bound then some value else none

def uint8? (document : Json) : Option UInt8 := (document.natBelow? UInt8.size).map Nat.toUInt8

def uint16? (document : Json) : Option UInt16 := (document.natBelow? UInt16.size).map Nat.toUInt16

def uint32? (document : Json) : Option UInt32 := (document.natBelow? UInt32.size).map Nat.toUInt32

def uint64? (document : Json) : Option UInt64 := (document.natBelow? UInt64.size).map Nat.toUInt64

def ofByte (byte : UInt8) : Json := nat byte.toNat

def ofByteArray (data : ByteArray) : Json := array (data.data.toList.map ofByte)

def byteArray? (document : Json) : Option ByteArray := do
  let bytes ← (← document.items?).mapM uint8?
  return ⟨bytes.toArray⟩

-- A list of a fixed length.
def vector? {α : Type} (count : Nat) (item? : Json → Option α) (document : Json) :
    Option (Vector α count) := do
  let items := (← (← document.items?).mapM item?).toArray
  if h : items.size = count then some ⟨items, h⟩ else none

def ofVector {α : Type} {count : Nat} (item : α → Json) (values : Vector α count) : Json :=
  array (values.toList.map item)

-- Nothing is written as null, and a missing field is read as nothing as well.
def ofOption {α : Type} (item : α → Json) : Option α → Json
  | none => null
  | some value => item value

def option? {α : Type} (item? : Json → Option α) : Option Json → Option (Option α)
  | none | some null => some none
  | some document => (item? document).map some

end Console816.Json
