import FourBit.Json.Writer
import FourBit.Value
import FourBit.Error

/-! Values as JSON that tells their types.
Lists, tuples, dictionaries and records become objects with marks: what kind of container they are,
the common type of the items or keys, and the class of a record. A dictionary whose only key is a
mark counts as marked and is written as it is. -/
namespace FourBit.Store
open Value CodeText
variable {τ : Type}

def commonType? : List (Value τ) → Option String
  | [] => none
  | v :: rest => if rest.all (·.typeName == v.typeName) then some v.typeName else none

variable [CodeText τ]

def typeMark (mark : String) (values : List (Value τ)) : List (τ × Json τ) :=
  (commonType? values).toList.map fun (type : String) => ((mark : τ), .str type)

def isMarked : List (Value τ × Value τ) → Bool
  | [(.str key, _)] => key = "_list" || key = "_dict" || key = "_class"
  | _ => false

/-- The name of a member: texts stand for themselves, and so does what JSON writes without parts. -/
def keyText : Value τ → Except Error τ
  | .str s => .ok s
  | .float x => .ok (Json.writeFloat x)
  | .bool b => .ok (if b then "true" else "false")
  | .null => .ok "null"
  | .int i => do return ofString (← writeDecimal i)
  | _ => .error .wrongType

def encodeAtom : Value τ → Except Error (Json τ)
  | .null => .ok .null
  | .bool b => .ok (.bool b)
  | .int i => do
    discard <| writeDecimal i
    return .int i
  | .float x => .ok (.float x)
  | .str s => .ok (.str s)
  | _ => .error .badValue

/-- The members of a stored record: its class first, then its fields. -/
def recordMembers (c : Class) (fields : List (τ × Json τ)) : List (τ × Json τ) :=
  fields.foldl (fun members (name, j) => putField name j members)
    [("_class", .str c.name), ("_module", .str c.home)]

mutual

def encode : Value τ → Except Error (Json τ)
  | list items => do
    return .object (("_list", .array (← encodeItems items)) :: typeMark "_type" items)
  | tuple items => do
    let marks := typeMark "_type" items ++ ([("_tuple", .bool true)] : List (τ × Json τ))
    return .object (("_list", .array (← encodeItems items)) :: marks)
  | dict entries =>
    if isMarked entries then do return .object (← plainEntries entries)
    else do
      return .object
        (("_dict", .object (← encodeEntries entries)) :: typeMark "_key_type" (entries.map (·.1)))
  | record c fields => do return .object (recordMembers c (← encodeFields fields))
  | v => encodeAtom v
termination_by structural v => v

def encodeItems : List (Value τ) → Except Error (List (Json τ))
  | [] => .ok []
  | v :: rest => do
    let j ← encode v
    return j :: (← encodeItems rest)
termination_by structural items => items

def encodeEntries : List (Value τ × Value τ) → Except Error (List (τ × Json τ))
  | [] => .ok []
  | (k, v) :: rest => do
    let name ← keyText k
    let j ← encode v
    return (name, j) :: (← encodeEntries rest)
termination_by structural entries => entries

def encodeFields : List (τ × Value τ) → Except Error (List (τ × Json τ))
  | [] => .ok []
  | (name, v) :: rest => do
    let j ← encode v
    return (name, j) :: (← encodeFields rest)
termination_by structural fields => fields

/-- A value without marks, except for those of records. -/
def plainJson : Value τ → Except Error (Json τ)
  | list items => do return .array (← plainItems items)
  | tuple items => do return .array (← plainItems items)
  | dict entries => do return .object (← plainEntries entries)
  | record c fields => do return .object (recordMembers c (← encodeFields fields))
  | v => encodeAtom v
termination_by structural v => v

def plainItems : List (Value τ) → Except Error (List (Json τ))
  | [] => .ok []
  | v :: rest => do
    let j ← plainJson v
    return j :: (← plainItems rest)
termination_by structural items => items

def plainEntries : List (Value τ × Value τ) → Except Error (List (τ × Json τ))
  | [] => .ok []
  | (k, v) :: rest => do
    let name ← keyText k
    let j ← plainJson v
    return (name, j) :: (← plainEntries rest)
termination_by structural entries => entries

end

def write (v : Value τ) : Except Error String := do return (← encode v).write

/-- A record as a dictionary, its class first; only records of storable classes have this form. -/
def asDict (v : Value τ) : Except Error (Value τ) := do
  v.checkOperation "to_dict"
  match v with
  | record c fields =>
    if !c.isStorable then throw .noField
    let head : List (τ × Value τ) := [("_class", str c.name), ("_module", str c.home)]
    let named := fields.foldl (fun members (name, w) => putField name w members) head
    return dict (named.map fun (name, w) => (str name, w))
  | _ => throw .noField

def writeRecord (v : Value τ) : Except Error String := do
  v.checkOperation "serialize"
  match v with
  | record c _ => if c.isStorable then write v else throw .noField
  | _ => throw .noField

end FourBit.Store
