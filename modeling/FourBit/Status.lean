/-! Flags and faults.
The flags record what arithmetic, comparisons and the stack did last; a fault names what went wrong
in a step and stops nothing. -/
namespace FourBit

inductive Flag where
  | carry
  | negative
  | equal
  | error
  deriving DecidableEq, Repr

namespace Flag

def all : List Flag := [carry, negative, equal, error]

def place : Flag → Nat
  | carry => 0
  | negative => 1
  | equal => 2
  | error => 3

theorem place_inj {f g : Flag} : f.place = g.place ↔ f = g := by
  cases f <;> cases g <;> simp [place]

def label : Flag → String
  | carry => "CAR"
  | negative => "NEG"
  | equal => "EQU"
  | error => "ERR"

end Flag

inductive Fault where
  | stackOverflow
  | stackUnderflow
  | invalidOperand
  | invalidOpcode
  deriving DecidableEq, Repr

namespace Fault

def name : Fault → String
  | stackOverflow => "STACK_OVERFLOW"
  | stackUnderflow => "STACK_UNDERFLOW"
  | invalidOperand => "INVALID_OPERAND"
  | invalidOpcode => "INVALID_OPCODE"

def description : Fault → String
  | stackOverflow => "stack overflow"
  | stackUnderflow => "stack underflow"
  | invalidOperand => "invalid secondary operand"
  | invalidOpcode => "invalid opcode"

end Fault
end FourBit
