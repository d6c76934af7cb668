import FourBit.Instruction
import FourBit.Numeral.Digit

/-! Instructions as two hexadecimal digits, opcode first.
Reading ignores spaces and a mark in front, and takes letters of either case and decimal digits of
any script. -/
namespace FourBit.Instruction
open Numeral

def nibbleDigit (n : Nat) : Char := (Nat.digitChar n).toUpper

def toHex (i : Instruction) : String :=
  .ofList [nibbleDigit i.nibbles.1, nibbleDigit i.nibbles.2]

def hexDigits (s : String) : List Char :=
  match s.toList.filter (· != ' ') with
  | '0' :: 'x' :: cs => cs
  | '0' :: 'X' :: cs => cs
  | cs => cs

def digitValue (c : Char) : Except Error Nat :=
  match digit? 16 c with
  | some d => .ok d
  | none => .error (.badLiteral 16 c.toString)

def ofHex (s : String) : Except Error Instruction :=
  match hexDigits s with
  | [first, second] => do
    let opcode ← digitValue first
    let operand ← digitValue second
    ofBytes [opcode, operand]
  | cs => .error (.notTwoNibbles (.ofList cs))

end FourBit.Instruction
