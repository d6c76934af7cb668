import FourBit.Program
import FourBit.Value.Display

/-! Programs given as values instead of text.
Every element has to be an integer from 0 to 15; truth values are none. An element is blamed by its
position, counted from one. -/
namespace FourBit.Program

def checkNibble (position : Int) (v : Value) : Except Error Nibble := do
  match v with
  | .int i =>
    if h : 0 ≤ i ∧ i < 16 then return ⟨i.toNat, by omega⟩
    else throw (.badLine position (← writeDecimal i) (.tooLarge i))
  | v => throw (.badLine position (← v.quoted) .notInteger)

def checkNibbles (position : Int) : List Value → Except Error (List Nibble)
  | [] => .ok []
  | v :: rest => do
    let n ← checkNibble position v
    return n :: (← checkNibbles (position + 1) rest)

def ofValue (v : Value) : Except Error (List Nibble) :=
  match v.elements? with
  | some elements => checkNibbles 1 elements
  | none => .error .wrongType

end FourBit.Program
