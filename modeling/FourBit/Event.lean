import FourBit.Instruction
import FourBit.Status
import FourBit.Numeral.Fixed

/-! Events that operations record for whoever watches.
An event has a level of importance, a source, and a message. -/
namespace FourBit
open Numeral

inductive Level where
  | debug
  | info
  | warning
  deriving DecidableEq, Repr

namespace Level

def name : Level → String
  | debug => "DEBUG"
  | info => "INFO"
  | warning => "WARNING"

def rank : Level → Nat
  | debug => 0
  | info => 1
  | warning => 2

end Level

inductive Event where
  | parsed (nibbles lines : Nat)
  | loaded (nibbles : Nat) (origin : Int)
  | reset
  | fetched (address : Int) (i : Instruction)
  | badOpcode (opcode : Int)
  | badOperand (operand : Int)
  | stackFault (fault : Fault) (sp : Int)
  | running (rate : String) (limit : Option Int)
  | stopped (steps : Nat)
  | clockSet (rate : String)
  /-- A stored record has no class any more. -/
  | unresolved (module name cause : String)
  deriving DecidableEq, Repr

namespace Event

def level : Event → Level
  | running .. | stopped _ => .info
  | badOpcode _ | badOperand _ | stackFault .. | unresolved .. => .warning
  | _ => .debug

def source : Event → String
  | parsed .. => "nibblevm.program"
  | running .. | stopped _ | clockSet _ => "nibblevm.runner"
  | unresolved .. => "nibblevm.serialization"
  | _ => "nibblevm.cpu.machine"

def message : Event → String
  | parsed nibbles lines => s!"Parsed {nibbles} nibbles from {lines} lines"
  | loaded nibbles origin => s!"Loaded {nibbles} nibbles at 0x{address.write origin}"
  | reset => "Machine reset"
  | fetched place i => s!"0x{address.write place}: {i.mnemonic}"
  | badOpcode opcode => s!"Invalid opcode: {decimal.write opcode}"
  | badOperand operand => s!"Invalid operand: 0x{hex.write operand}"
  | stackFault fault sp => s!"{fault.description} at SP=0x{address.write sp}"
  | running rate limit =>
    s!"Running at {rate} Hz" ++
      (match limit with
      | some steps => s!" for up to {decimal.write steps} steps"
      | none => "")
  | stopped steps => s!"Stopped after {steps} steps"
  | clockSet rate => s!"Clock now {rate} Hz"
  | unresolved module name cause => s!"Could not deserialize {module}.{name}: {cause}"

def line (e : Event) : String := s!"{e.level.name} {e.source}: {e.message}"

def linesFrom (least : Level) (events : List Event) : List String :=
  (events.filter fun e => least.rank ≤ e.level.rank).map line

end Event
end FourBit
