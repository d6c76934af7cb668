import FourBit.Cells
import FourBit.Instruction.Hex

/-! Instructions read from memory, two cells each.
The operand after the last cell is in the first one. A range that leaves memory is read up to the
first instruction that is not there. -/
namespace FourBit

/-- Instructions with their addresses, and what stopped the reading, if anything did. -/
structure Disassembly where
  instructions : List (Int × Instruction)
  failure : Option Error

namespace Disassembly
open Numeral

def instructionAt (memory : List Int) (address : Int) : Except Error Instruction :=
  if memory.isEmpty then .error .emptyMemory
  else
    match Cells.get? memory address, Cells.get? memory ((address + 1) % memory.length) with
    | some opcode, some operand => .ok ⟨opcode, operand⟩
    | _, _ => .error .outside

def read (memory : List Int) (address : Int) : Nat → Disassembly
  | 0 => ⟨[], none⟩
  | count + 1 =>
    match instructionAt memory address with
    | .ok i =>
      let rest := read memory (address + 2) count
      ⟨(address, i) :: rest.instructions, rest.failure⟩
    | .error e => ⟨[], some e⟩

def countBetween (start stop : Int) : Nat := ((stop - start + 1) / 2).toNat

def ofMemory (memory : List Int) (start : Int) (stop : Option Int) : Disassembly :=
  read memory start (countBetween start (stop.getD memory.length))

def line (address : Int) (i : Instruction) : String :=
  s!"0x{Numeral.address.write address}: {i.toHex}  {i.mnemonic}"

/-- One line for each instruction, if all can be read. -/
def listing (memory : List Int) (start : Int) (stop : Option Int) : Except Error (List String) :=
  let d := ofMemory memory start stop
  match d.failure with
  | some e => .error e
  | none => .ok (d.instructions.map fun (address, i) => line address i)

end Disassembly
end FourBit
