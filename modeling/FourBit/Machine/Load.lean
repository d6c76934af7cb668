import FourBit.Machine
import FourBit.Program.Numeric

/-! Loading programs.
A program is put into memory from the origin on, once all of it has been read and found to fit. -/
namespace FourBit.Machine
open FourBit.Action

/-- Reads a program: a text as program text, any other value by its elements. -/
def readProgram {σ : Type} (program : Value) : Action σ (List Nibble) := do
  match program with
  | .str text =>
    let nibbles ← ofResult (Program.parse text)
    record (.parsed nibbles.length (Text.lines text.toList).length)
    return nibbles
  | value => ofResult (Program.ofValue value)

def place (nibbles : List Nibble) (m : Machine) : Machine :=
  let cells := nibbles.map fun n => (n.val : Int)
  { m with memory := Cells.splice m.memory m.origin (m.origin + nibbles.length) cells }

def loadNibbles (nibbles : List Nibble) : Action Machine Unit := do
  let m ← get
  if m.variant.programSpace < nibbles.length then
    throw (.overfull nibbles.length m.variant.programSpace)
  modify (place nibbles)
  record (.loaded nibbles.length m.origin)

def load (program : Value) : Action Machine Unit := do loadNibbles (← readProgram program)

end FourBit.Machine
