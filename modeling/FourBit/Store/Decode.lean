import FourBit.Action
import FourBit.Json.Reader
import FourBit.Numeral.Literal
import FourBit.Store.Names
import FourBit.Value.Display

/-! Values read back from JSON that tells their types.
Objects are turned into values from the inside out, each by its marks; an object without marks is a
dictionary. A record whose class cannot be found is recorded as an event and stays a dictionary. -/
namespace FourBit.Store
open Numeral CodeText

variable {σ τ : Type} [CodeText τ]

/-- The members of an object by name: a repeated name keeps its place and gets the last value. -/
def byName (members : List (τ × Value τ)) : List (τ × Value τ) :=
  members.foldl (fun fields (name, v) => putField name v fields) []

def namedDict (fields : List (τ × Value τ)) : Value τ :=
  .dict (fields.map fun (name, v) => (.str name, v))

def withoutField (name : String) (fields : List (τ × Value τ)) : List (τ × Value τ) :=
  fields.filter (·.1 != ofString name)

def restoreList (items : Value τ) (isTuple : Bool) : Except Error (Value τ) :=
  if isTuple then
    match items.elements? with
    | some items => .ok (.tuple items)
    | none => .error .wrongType
  else .ok items

def integerKey : Value τ → Except Error (Value τ)
  | .str s =>
    match readInteger .decimal (chars s) with
    | .ok i => .ok (.int i)
    | .error .malformed => .error (.badLiteral 10 (toString s))
    | .error (.tooLong digits) => .error (.tooManyDigits digits)
  | key => .ok key

def restoreDict (entries : Value τ) (hasIntegerKeys : Bool) : Except Error (Value τ) :=
  if hasIntegerKeys then
    match entries with
    | .dict entries => do
      return Value.ofEntries (← entries.mapM fun (key, v) => do return (← integerKey key, v))
    | v => do
      v.checkOperation "items"
      throw .noField
  else .ok entries

def makeRecord (binding : Binding) (fields : List (τ × Value τ)) : Except Error (Value τ) :=
  match binding with
  | .type c => if c.isAbstract then .error .wrongType else .ok (.record c fields)
  | .fieldless => .error .noField
  | .other => .error .wrongType

/-- Looks for what a stored record says its class is: the outer answer is an error, the inner one
the words for a search that found nothing. -/
def findBinding (home name : Value τ) : Except Error (Except String Binding) :=
  match home with
  | .str path =>
    if points path = [] then .error .badValue
    else if (chars path).head? = some '.' then .error .wrongType
    else
      match findNamespace (toString path), name with
      | .error cause, _ => .ok (.error cause)
      | .ok found, .str name =>
        match found.lookup? (toString name) with
        | some binding => .ok (.ok binding)
        | none => .ok (.error s!"module '{found.name}' has no attribute '{toString name}'")
      | .ok _, _ => .error .wrongType
  | v => do
    v.checkOperation "startswith"
    return .error s!"'{v.typeName}' object has no attribute 'startswith'"

def restoreRecord (name : Value τ) (members : List (τ × Value τ)) : Action σ (Value τ) := do
  match field? "_module" members with
  | none => throw .noKey
  | some home =>
    let fields := withoutField "_module" members
    match ← Action.ofResult (findBinding home name) with
    | .ok binding => Action.ofResult (makeRecord binding fields)
    | .error cause =>
      let homeText ← Action.ofResult home.plain
      let nameText ← Action.ofResult name.plain
      Action.record (.unresolved homeText nameText cause)
      return namedDict fields

def restore (members : List (τ × Value τ)) : Action σ (Value τ) :=
  match field? "_list" members, field? "_dict" members, field? "_class" members with
  | some items, _, _ =>
    Action.ofResult (restoreList items ((field? "_tuple" members).any Value.truthy))
  | none, some entries, _ =>
    Action.ofResult <| restoreDict entries
      ((field? "_key_type" members).any (Value.sameAtom (.str (ofString "int"))))
  | none, none, some name => restoreRecord name (withoutField "_class" members)
  | none, none, none => return namedDict members

mutual

def revive : Json τ → Action σ (Value τ)
  | .null => return .null
  | .bool b => return .bool b
  | .int i => return .int i
  | .float x => return .float x
  | .str s => return .str s
  | .array items => do return .list (← reviveItems items)
  | .object members => do restore (byName (← reviveMembers members))
termination_by structural j => j

def reviveItems : List (Json τ) → Action σ (List (Value τ))
  | [] => return []
  | j :: rest => do
    let v ← revive j
    return v :: (← reviveItems rest)
termination_by structural items => items

def reviveMembers : List (τ × Json τ) → Action σ (List (τ × Value τ))
  | [] => return []
  | (name, j) :: rest => do
    let v ← revive j
    return (name, v) :: (← reviveMembers rest)
termination_by structural members => members

end

/-- Reads a stored value. Of a text that is no document, the complete values are revived first. -/
def read (text : String) : Action σ (Value τ) := do
  match (Json.read text : Except (Json.Failure τ) (Json τ)) with
  | .ok j => revive j
  | .error failure =>
    discard <| reviveItems failure.complete
    match failure.cause with
    | .malformed => throw .malformedJson
    | .overlong => throw (.tooManyDigits maxDigits.succ)

/-- Reads a stored record, which has to be of the given class or of one below it. -/
def readRecord (c : Class) (text : String) : Action σ (Value τ) := do
  if !c.isStorable then throw .noField
  match ← read text with
  | v@(.record d _) => if d.refines c then return v else throw (.notOfClass c.name)
  | _ => throw (.notOfClass c.name)

end FourBit.Store
