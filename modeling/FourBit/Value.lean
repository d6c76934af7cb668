import FourBit.Class
import FourBit.Text.CodePoint

/-! Values whose type is known only when they are met: elements of programs, stored records.
A dictionary is a list of entries with distinct keys in the order of their insertion, and a record
is a class with named fields. Texts are strings unless they are said to be of another type. -/
namespace FourBit

inductive Value (τ : Type := String) where
  | null
  | bool (b : Bool)
  | int (i : Int)
  | float (x : Float)
  | str (s : τ)
  | bytes (bs : List UInt8)
  | list (items : List (Value τ))
  | tuple (items : List (Value τ))
  | set (items : List (Value τ))
  | dict (entries : List (Value τ × Value τ))
  | record (c : Class) (fields : List (τ × Value τ))
  deriving Inhabited

def field? {τ α : Type} [CodeText τ] (name : String) (fields : List (τ × α)) :
    Option α :=
  fields.lookup (name : τ)

theorem lookup_ofString {τ α : Type} [CodeText τ] (name : String) (fields : List (τ × α)) :
    fields.lookup (CodeText.ofString name) = field? name fields := rfl

@[simp] theorem field?_nil {τ α : Type} [CodeText τ] (name : String) :
    field? name ([] : List (τ × α)) = none := rfl

@[simp] theorem field?_cons {τ α : Type} [CodeText τ] (name head : String) (a : α)
    (fields : List (τ × α)) :
    field? name (((head : τ), a) :: fields) =
      if name = head then some a else field? name fields := by
  rw [field?, List.lookup_cons]
  by_cases h : name = head
  · simp [h]
  · rw [if_neg h, beq_false_of_ne (by simpa using h)]
    rfl

namespace Value
open CodeText
variable {τ : Type}

def typeName : Value τ → String
  | null => "NoneType"
  | bool _ => "bool"
  | int _ => "int"
  | float _ => "float"
  | str _ => "str"
  | bytes _ => "bytes"
  | list _ => "list"
  | tuple _ => "tuple"
  | set _ => "set"
  | dict _ => "dict"
  | record c _ => c.name

/-- The values that a value is run through as; a dictionary gives its keys, a text its letters. -/
def elements? [CodeText τ] : Value τ → Option (List (Value τ))
  | str s => some ((points s).map fun p => str (ofPoints [p]))
  | bytes bs => some (bs.map fun b => int b.toNat)
  | list items | tuple items | set items => some items
  | dict entries => some (entries.map (·.1))
  | _ => none

/-- Whether a value counts as true: nothing empty and no zero does. -/
def truthy [CodeText τ] : Value τ → Bool
  | null => false
  | bool b => b
  | int i => i != 0
  | float x => x != 0
  | str s => !(points s).isEmpty
  | bytes bs => !bs.isEmpty
  | list items | tuple items | set items => !items.isEmpty
  | dict entries => !entries.isEmpty
  | record .. => true

/-- Fails if a record has a field that hides its operation of that name: no field can be run. -/
def checkOperation [CodeText τ] (name : String) : Value τ → Except Error Unit
  | record _ fields => if (field? name fields).isSome then .error .wrongType else .ok ()
  | _ => .ok ()

def ofRegister [CodeText τ] (r : Register) : Value τ :=
  record (.register r)
    [("name", str r.name), ("reg_id", int r.number), ("bits", int r.bits),
      ("structure", list (r.layout.map fun (width : Nat) => int width))]

end Value

/-- Sets a field by name, in its place if there is one of that name, else at the end. -/
def putField {τ α : Type} [DecidableEq τ] (name : τ) (v : α) : List (τ × α) → List (τ × α)
  | [] => [(name, v)]
  | (n, w) :: rest => if n = name then (n, v) :: rest else (n, w) :: putField name v rest

end FourBit
