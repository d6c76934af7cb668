import FourBit.Value.Equality
import FourBit.Numeral.Shortest
import FourBit.Snapshot.Layout
import FourBit.Cells

/-! Values as text.
The quoted form shows a value as it would be entered; the plain form of a text is the text itself,
and some records have one of their own. Integers beyond the limit on digits have neither. -/
namespace FourBit.Value
open Numeral CodeText
variable {τ : Type}

/-- A value with its two forms, and the plain forms of its items if it has any in order. -/
structure Shown (τ : Type := String) where
  value : Value τ
  quoted : Except Error String
  plain : Except Error String
  items : List (Except Error String) := []

/-- A number in a given format; texts and floats have none of these, and other values no format. -/
def formatted (f : Format) : Value τ → Except Error String
  | bool b => .ok (f.write (if b then 1 else 0))
  | int i => .ok (f.write i)
  | str _ | float _ => .error .badValue
  | _ => .error .wrongType

variable [CodeText τ]

def indexed : Value τ → List (Value τ)
  | list items | tuple items => items
  | str s => (points s).map fun p => str (ofPoints [p])
  | bytes bs => bs.map fun b => int b.toNat
  | dict entries => entries.map (·.2)
  | _ => []

/-- Where an index leads among those values: an address in a sequence, a key of a dictionary. -/
def placeOf (index : Int) (v : Value τ) : Except Error Nat :=
  match v with
  | list _ | tuple _ | str _ | bytes _ => (Cells.place? v.indexed.length index).elim
      (.error .outside) .ok
  | dict entries => (entries.findIdx? (sameAtom (int index) ·.1)).elim (.error .noKey) .ok
  | _ => .error .wrongType

def item (index : Int) (v : Value τ) : Except Error (Value τ) := do
  match v.indexed[← v.placeOf index]? with
  | some item => return item
  | none => throw .outside

def length : Value τ → Except Error Nat
  | list items | tuple items | set items => .ok items.length
  | str s => .ok (points s).length
  | bytes bs => .ok bs.length
  | dict entries => .ok entries.length
  | _ => .error .wrongType

private def shownField (name : String) (fields : List (τ × Shown τ)) : Except Error (Shown τ) :=
  match field? name fields with
  | some s => .ok s
  | none => .error .noField

private def flagText (flags : Shown τ) (flag : Flag) : Except Error String := do
  match flags.items[← flags.value.placeOf flag.place]? with
  | some text => text
  | none => throw .outside

def stateOf (fields : List (τ × Shown τ)) : Except Error String := do
  let flags ← Flag.all.mapM fun flag => do flagText (← shownField "F" fields) flag
  let number (f : Format) (name : String) := do (← shownField name fields).value.formatted f
  return Snapshot.stateLine flags (← number hex "A") (← number hex "B") (← number hex "C")
    (← number address "PC") (← number address "SP")

private def summaryOf (fields : List (τ × Shown τ)) : Except Error String := do
  let variant ← (← shownField "variant" fields).quoted
  let cycles ← (← shownField "cycles" fields).plain
  return Snapshot.summary variant cycles (← stateOf fields)

def atomText : Value τ → Except Error String
  | null => .ok "None"
  | bool b => .ok (if b then "True" else "False")
  | int i => writeDecimal i
  | float x => .ok (floatText x)
  | str s => .ok (Text.quote s)
  | bytes bs => .ok (Text.quoteBytes bs)
  | _ => .error .wrongType

private def dataText (c : Class) (fields : List (τ × Shown τ)) : Except Error String := do
  let parts ← (c.dataFields τ).mapM fun (name, standIn) => do
    let text ← match field? name fields, standIn with
      | some s, _ => s.quoted
      | none, some v => v.atomText
      | none, none => .error .noField
    return s!"{name}={text}"
  return s!"{c.name}(" ++ ", ".intercalate parts ++ ")"

def recordText (c : Class) (fields : List (τ × Shown τ)) : Except Error String :=
  match c with
  | .snapshot => summaryOf fields
  | .instruction | .variant | .clock => dataText c fields
  | .register _ | .badLine | .overfull | .unknownVariant => .ok s!"{c.name}()"
  | .scope => .ok "<module '?'>"
  | .progressBar => .error .noField
  | _ => .ok s!"<{c.qualifiedName} object>"

private def errorText (c : Class) (fields : List (τ × Shown τ)) : Except Error String := do
  let plainly (name : String) := do (← shownField name fields).plain
  let quotedly (name : String) := do (← shownField name fields).quoted
  match c with
  | .badLine => return Error.lineText (← plainly "line") (← plainly "reason") (← quotedly "text")
  | .overfull => return Error.capacityText (← plainly "length") (← plainly "available")
  | _ => return Error.variantText (← quotedly "name")

/-- The plain form of a record: snapshots show their state, and errors what is wrong. -/
def plainRecord (c : Class) (fields : List (τ × Shown τ)) : Except Error String :=
  match c with
  | .snapshot => stateOf fields
  | .badLine | .overfull | .unknownVariant => errorText c fields
  | _ => recordText c fields

/-- The quoted form of a tuple shows its last comma when it has one item. -/
def tupleText : List String → String
  | [item] => s!"({item},)"
  | items => "(" ++ ", ".intercalate items ++ ")"

def setText (items : List String) : String :=
  if items.isEmpty then "set()" else "\x7b" ++ ", ".intercalate items ++ "\x7d"

namespace Shown

def ofItems (v : Value τ) (text : List String → String) (items : List (Shown τ)) : Shown τ :=
  let quoted := do return text (← items.mapM quoted)
  ⟨v, quoted, quoted, items.map plain⟩

def ofEntries (v : Value τ) (entries : List (Shown τ × Shown τ)) : Shown τ :=
  let quoted := do
    let parts ← entries.mapM fun (k, w) => do return (← k.quoted) ++ ": " ++ (← w.quoted)
    return "\x7b" ++ ", ".intercalate parts ++ "\x7d"
  ⟨v, quoted, quoted, entries.map (·.2.plain)⟩

def ofRecord (v : Value τ) (c : Class) (fields : List (τ × Shown τ)) : Shown τ :=
  ⟨v, recordText c fields, plainRecord c fields, []⟩

def ofText (s : τ) : Shown τ :=
  ⟨str s, .ok (Text.quote s), .ok (toString s), (chars s).map fun c => .ok c.toString⟩

end Shown

mutual

def shown : Value τ → Shown τ
  | list items => .ofItems (list items) ("[" ++ ", ".intercalate · ++ "]") (shownItems items)
  | tuple items => .ofItems (tuple items) tupleText (shownItems items)
  | set items => .ofItems (set items) setText (shownItems items)
  | dict entries => .ofEntries (dict entries) (shownEntries entries)
  | record c fields => .ofRecord (record c fields) c (shownFields fields)
  | str s => .ofText s
  | v => ⟨v, atomText v, atomText v, []⟩
termination_by structural v => v

def shownItems : List (Value τ) → List (Shown τ)
  | [] => []
  | v :: rest => shown v :: shownItems rest
termination_by structural items => items

def shownEntries : List (Value τ × Value τ) → List (Shown τ × Shown τ)
  | [] => []
  | (k, v) :: rest => (shown k, shown v) :: shownEntries rest
termination_by structural entries => entries

def shownFields : List (τ × Value τ) → List (τ × Shown τ)
  | [] => []
  | (name, v) :: rest => (name, shown v) :: shownFields rest
termination_by structural fields => fields

end

def quoted (v : Value τ) : Except Error String := v.shown.quoted

def plain (v : Value τ) : Except Error String := v.shown.plain

private def fieldNamed (name : String) (fields : List (τ × Value τ)) : Except Error (Value τ) :=
  match field? name fields with
  | some v => .ok v
  | none => .error .noField

private def cellText (fields : List (τ × Value τ)) (memory : Value τ) (address : Nat) :
    Except Error String := do
  let text ← (← memory.item address).formatted bits
  let pc ← fieldNamed "PC" fields
  let sp ← fieldNamed "SP" fields
  return Snapshot.cellLine address text (sameAtom (int address) pc) (sameAtom (int address) sp)

def memoryTexts (v : Value τ) : Except Error (List String) := do
  v.checkOperation "format_memory"
  match v with
  | record .snapshot fields => do
    let memory ← fieldNamed "memory" fields
    (List.range (← memory.length)).mapM (cellText fields memory)
  | _ => .error .noField

end FourBit.Value
