import FourBit.Value
import FourBit.Numeral.Binary64

/-! Equality of values, which looks through some differences of type.
Truth values and floats equal the integers they stand for, dictionaries are compared without
regard to order, registers by number alone, snapshots by all their fields, and records of data by
class and the fields that the class declares. Other records are equal to nothing. -/
namespace FourBit

namespace Class

/-- The fields that make up a record of data, with the values that stand in for missing ones. -/
def dataFields (τ : Type) : Class → List (String × Option (Value τ))
  | instruction => [("opcode", none), ("operand", some (.int 0))]
  | variant =>
    [("name", none), ("capacity", none), ("stack_boundary", some (.int 0xE)),
      ("program_origin", some (.int 0xF)), ("arith_modulus", some (.int 0xF)),
      ("skip_distance", some (.int 2)), ("register_adds", some (.bool false))]
  | clock =>
    [("interval", some (.float 0.5)), ("min_hz", some (.float 0.5)), ("max_hz", some (.float 128))]
  | _ => []

end Class

namespace Value
open Numeral
variable {τ : Type}

def asInt? : Value τ → Option Int
  | bool b => some (if b then 1 else 0)
  | int i => some i
  | _ => none

variable [CodeText τ]

def sameAtom : Value τ → Value τ → Bool
  | null, null => true
  | str s, str t => s == t
  | bytes bs, bytes cs => bs == cs
  | float x, float y => x == y
  | float x, b => b.asInt?.any (Binary64.equalsInt · (.ofFloat x))
  | a, float y => a.asInt?.any (Binary64.equalsInt · (.ofFloat y))
  | a, b =>
    match a.asInt?, b.asInt? with
    | some i, some j => i == j
    | _, _ => false

def fieldOr (standIn : Option (Value τ)) (name : String) (fields : List (τ × Value τ)) :
    Except Error (Value τ) :=
  match field? name fields <|> standIn with
  | some v => .ok v
  | none => .error .noField

mutual

def same : Value τ → Value τ → Except Error Bool
  | list as, list bs => if as.length = bs.length then sameItems as bs else .ok false
  | tuple as, tuple bs => sameItems as bs
  | set as, set bs => if as.length = bs.length then sameItems as bs else .ok false
  | dict as, dict bs => if as.length = bs.length then sameEntries as bs else .ok false
  | record c as, record d bs =>
    if c.refines .anyRegister && d.refines .anyRegister then do
      sameField "reg_id" as none (← fieldOr none "reg_id" bs)
    else if c = .snapshot && d = .snapshot then
      if as.length = bs.length then sameFields as bs else .ok false
    else if c = d && !(c.dataFields τ).isEmpty then do
      let wanted ← (c.dataFields τ).mapM fun (name, standIn) => do
        discard <| fieldOr standIn name as
        return (name, standIn, ← fieldOr standIn name bs)
      wanted.foldlM (fun equal (name, standIn, w) =>
        if equal then sameField name as standIn w else .ok false) true
    else .ok false
  | a, b => .ok (sameAtom a b)
termination_by structural a => a

def sameItems : List (Value τ) → List (Value τ) → Except Error Bool
  | [], [] => .ok true
  | a :: as, b :: bs => do if ← same a b then sameItems as bs else return false
  | _, _ => .ok false
termination_by structural as => as

def sameEntries : List (Value τ × Value τ) → List (Value τ × Value τ) → Except Error Bool
  | [], _ => .ok true
  | (k, v) :: rest, bs => do
    let found ← bs.findSomeM? fun (l, w) => do
      return if ← same k l then some w else none
    match found with
    | none => return false
    | some w => if ← same v w then sameEntries rest bs else return false
termination_by structural as => as

def sameFields : List (τ × Value τ) → List (τ × Value τ) → Except Error Bool
  | [], _ => .ok true
  | (name, v) :: rest, bs =>
    match bs.lookup name with
    | none => .ok false
    | some w => do if ← same v w then sameFields rest bs else return false
termination_by structural as => as

def sameField (name : τ) : List (τ × Value τ) → Option (Value τ) → Value τ →
    Except Error Bool
  | [], none, _ => .error .noField
  | [], some standIn, w => .ok (sameAtom standIn w)
  | (n, v) :: rest, standIn, w => if n = name then same v w else sameField name rest standIn w
termination_by structural fields => fields

end

mutual

/-- Whether a value can be a key. What can be changed cannot, and neither can what holds such. -/
def isKey : Value τ → Bool
  | list _ | set _ | dict _ | record .clock _ => false
  | tuple items => areKeys items
  | _ => true
termination_by structural v => v

def areKeys : List (Value τ) → Bool
  | [] => true
  | v :: rest => isKey v && areKeys rest
termination_by structural items => items

end

/-- Adds an entry to a dictionary: an equal key keeps its place and gets the new value. -/
def putEntry (key v : Value τ) : List (Value τ × Value τ) → List (Value τ × Value τ)
  | [] => [(key, v)]
  | (k, w) :: rest =>
    if (same k key).toOption == some true then (k, v) :: rest else (k, w) :: putEntry key v rest

def ofEntries (entries : List (Value τ × Value τ)) : Value τ :=
  dict (entries.foldl (fun d (k, v) => putEntry k v d) [])

end Value
end FourBit
