import FourBit.Machine
import FourBit.Value.Equality

/-! Writing registers from a value.
An integer goes to every register, and the elements of any other value to one register each; what
has been written by the time an element is missing or left over stays written. -/
namespace FourBit.Machine
open FourBit.Action

def assignEach : List Register → List Value → Action Machine Unit
  | [], [] => return
  | r :: registers, v :: values => do
    match v.asInt? with
    | some i =>
      modify (·.writeRegister r i)
      assignEach registers values
    | none => throw .wrongType
  | _, _ => throw .badValue

def assign (registers : List Register) (v : Value) : Action Machine Unit :=
  match v.asInt?, v.elements? with
  | some i, _ => modify (·.writeRegisters (registers.map (·, i)))
  | none, some values => assignEach registers values
  | none, none => throw .wrongType

end FourBit.Machine
