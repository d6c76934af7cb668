import FourBit.Error

/-! Instructions: an opcode and an operand, each written in one memory cell.
Sixteen opcodes name an operation; opcode zero leaves the choice to its operand, which selects one
of twelve operations without an operand of their own. -/
namespace FourBit

inductive Primary where
  | secondary
  | lda
  | sta
  | cmp
  | add
  | sub
  | and
  | xor
  | or
  | not
  | ldi
  | jmp
  | lsp
  | addi
  | subi
  | cmpi
  deriving DecidableEq, Repr

/-- Operations that the operand of opcode zero selects. -/
inductive Secondary where
  | nop
  | pushA
  | popA
  | pushPc
  | popPc
  | swapAB
  | swapBC
  | skipCarry
  | skipNegative
  | skipEqual
  | addB
  | addC
  deriving DecidableEq, Repr

namespace Primary

def all : List Primary :=
  [secondary, lda, sta, cmp, add, sub, and, xor, or, not, ldi, jmp, lsp, addi, subi, cmpi]

def ofCode? (code : Int) : Option Primary := if 0 ≤ code then all[code.toNat]? else none

/-- The assembly form; opcode zero has none of its own. -/
def mnemonic (operand : String) : Primary → String
  | secondary => ""
  | lda => s!"LDA [{operand}]"
  | sta => s!"STA [{operand}]"
  | cmp => s!"CMP A, {operand}"
  | add => s!"ADD A, [{operand}]"
  | sub => s!"SUB A, {operand}"
  | and => s!"AND A, {operand}"
  | xor => s!"XOR A, {operand}"
  | or => s!"OR A, {operand}"
  | not => "NOT A"
  | ldi => s!"LDI A, {operand}"
  | jmp => s!"JMP {operand}"
  | lsp => s!"LSP {operand}"
  | addi => s!"ADDI A, {operand}"
  | subi => s!"SUBI A, {operand}"
  | cmpi => s!"CMPI A, {operand}"

end Primary

namespace Secondary

def all : List Secondary :=
  [nop, pushA, popA, pushPc, popPc, swapAB, swapBC, skipCarry, skipNegative, skipEqual, addB, addC]

def ofCode? (code : Int) : Option Secondary := if 0 ≤ code then all[code.toNat]? else none

def name : Secondary → String
  | nop => "NOP"
  | pushA => "PUSH_A"
  | popA => "POP_A"
  | pushPc => "PUSH_PC"
  | popPc => "POP_PC"
  | swapAB => "SWAP_AB"
  | swapBC => "SWAP_BC"
  | skipCarry => "SKIP_CARRY"
  | skipNegative => "SKIP_NEGATIVE"
  | skipEqual => "SKIP_EQUAL"
  | addB => "ADD_B"
  | addC => "ADD_C"

def mnemonic : Secondary → String
  | nop => "NOP"
  | pushA => "PUSH A"
  | popA => "POP A"
  | pushPc => "PUSH PC"
  | popPc => "POP PC"
  | swapAB => "SWP A, B"
  | swapBC => "SWP B, C"
  | skipCarry => "SKC"
  | skipNegative => "SKN"
  | skipEqual => "SKE"
  | addB => "ADD A, B"
  | addC => "ADD A, C"

end Secondary

def lowNibble (i : Int) : Nat := (i % 16).toNat

structure Instruction where
  opcode : Int
  operand : Int := 0
  deriving DecidableEq, Repr

namespace Instruction
open Numeral

def isSecondary (i : Instruction) : Bool := i.opcode == 0

def secondary? (i : Instruction) : Option Secondary :=
  if i.isSecondary then Secondary.ofCode? i.operand else none

private def invalid (i : Instruction) : String :=
  s!".INVALID 0x{hex.write i.opcode}, 0x{hex.write i.operand}"

def mnemonic (i : Instruction) : String :=
  if i.isSecondary then (i.secondary?.map Secondary.mnemonic).getD i.invalid
  else match Primary.ofCode? i.opcode with
    | some p => p.mnemonic s!"0x{hex.write i.operand}"
    | none => i.invalid

def nibbles (i : Instruction) : Nat × Nat := (lowNibble i.opcode, lowNibble i.operand)

/-- The instruction that the low nibbles of the first two bytes make. -/
def ofBytes : List Nat → Except Error Instruction
  | opcode :: operand :: _ => .ok ⟨opcode % 16, operand % 16⟩
  | _ => .error .onePairNeeded

end Instruction
end FourBit
