import FourBit.Register

/-! Classes of records, with the qualified names under which they are stored.
A class is kept in the namespace that defines it; some are abstract and have records only of the
classes below them. -/
namespace FourBit

inductive Class where
  | register (r : Register)
  | anyRegister
  | pointerRegister
  | conditionRegister
  | storable
  | snapshot
  | instruction
  | variant
  | clock
  | badLine
  | overfull
  | unknownVariant
  | processor
  | processorFactory
  | machine
  | driver
  | encoder
  | decoder
  | progressBar
  /-- The class of namespaces themselves. -/
  | scope
  deriving DecidableEq, Repr

namespace Class

def all : List Class :=
  Register.all.map register ++
    [anyRegister, pointerRegister, conditionRegister, storable, snapshot, instruction, variant,
      clock, badLine, overfull, unknownVariant, processor, processorFactory, machine, driver,
      encoder, decoder, progressBar, scope]

def name : Class → String
  | register r => "NV_REG_" ++ r.name
  | anyRegister => "Register"
  | pointerRegister => "PointerRegister"
  | conditionRegister => "CondRegister"
  | storable => "SerializableMixin"
  | snapshot => "MachineSnapshot"
  | instruction => "Instruction"
  | variant => "ArchVariant"
  | clock => "ClockConfig"
  | badLine => "ProgramParseError"
  | overfull => "CapacityExceededError"
  | unknownVariant => "UnknownVariantException"
  | processor => "CPU"
  | processorFactory => "CPUFactory"
  | machine => "Machine"
  | driver => "RunDriver"
  | encoder => "NibbleVMEncoder"
  | decoder => "NibbleVMDecoder"
  | progressBar => "tqdm"
  | scope => "module"

/-- The namespace that defines a class. -/
def home : Class → String
  | register _ => "nibblevm.isa.nv_registers"
  | anyRegister | pointerRegister | conditionRegister => "nibblevm.isa.register"
  | storable | encoder | decoder => "nibblevm.serialization"
  | snapshot => "nibblevm.state.snapshot"
  | instruction => "nibblevm.isa.nv_isa"
  | variant => "nibblevm.isa.variant"
  | clock | driver => "nibblevm.runner"
  | badLine | overfull | unknownVariant => "nibblevm.exceptions"
  | processor | processorFactory => "nibblevm.cpu.cpu"
  | machine => "nibblevm.cpu.machine"
  | progressBar => "tqdm.std"
  | scope => "builtins"

def qualifiedName (c : Class) : String := c.home ++ "." ++ c.name

def isAbstract : Class → Bool
  | anyRegister | pointerRegister | conditionRegister | processor => true
  | _ => false

def ofRole : Register.Role → Class
  | .general => anyRegister
  | .pointer => pointerRegister
  | .condition => conditionRegister

def parent? : Class → Option Class
  | register r => some (ofRole r.role)
  | pointerRegister | conditionRegister => some anyRegister
  | anyRegister | snapshot => some storable
  | machine => some processor
  | _ => none

/-- A class and all classes above it; no chain has more than four. -/
def lineage (c : Class) : List Class := climb 4 (some c)
where
  climb : Nat → Option Class → List Class
    | _, none => []
    | 0, some _ => []
    | fuel + 1, some c => c :: climb fuel c.parent?

def refines (c d : Class) : Bool := c.lineage.contains d

theorem refines_self (c : Class) : c.refines c = true := by
  simp [refines, lineage, lineage.climb]

def isStorable (c : Class) : Bool := c.refines storable

end Class
end FourBit
