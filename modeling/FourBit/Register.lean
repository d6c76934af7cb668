import FourBit.Error
import FourBit.Text.Capital

/-! The registers of the machine.
Three hold a nibble, two point into memory, and one gathers the flags; each has a number, a width,
and a layout of fields within that width. -/
namespace FourBit

inductive Register where
  | a
  | b
  | c
  | pc
  | sp
  | f
  deriving DecidableEq, Repr

namespace Register

/-- What a register holds: a nibble, a memory address, or condition flags. -/
inductive Role where
  | general
  | pointer
  | condition
  deriving DecidableEq, Repr

def all : List Register := [a, b, c, pc, sp, f]

def name : Register → String
  | a => "A"
  | b => "B"
  | c => "C"
  | pc => "PC"
  | sp => "SP"
  | f => "F"

def number : Register → Nat
  | a => 0
  | b => 1
  | c => 2
  | pc => 3
  | sp => 4
  | f => 5

def role : Register → Role
  | a | b | c => .general
  | pc | sp => .pointer
  | f => .condition

def layout (r : Register) : List Nat :=
  match r.role with
  | .general => [4]
  | .pointer => [8]
  | .condition => [1, 1, 1, 1]

def bits (r : Register) : Nat := r.layout.foldl (· + ·) 0

def mask (r : Register) : Nat := Nat.pow 2 r.bits - 1

/-- The register of a name in any letter case. -/
def ofName (name : String) : Except Error Register :=
  let wanted := Text.upper name
  match all.find? (·.name = wanted) with
  | some r => .ok r
  | none => .error (.unknownRegister wanted)

end Register
end FourBit
