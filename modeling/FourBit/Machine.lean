import FourBit.Action
import FourBit.Snapshot
import FourBit.Variant

/-! The machine: memory, registers, flags, and what the last step left.
Registers and cells hold any integers; the states that a machine reaches by itself keep them within
their widths, which is what `InRange` says. -/
namespace FourBit

structure Machine where
  variant : Variant
  memory : List Int
  a : Int
  b : Int
  c : Int
  pc : Int
  /-- The next free cell of the stack, which grows upward from the first cell. -/
  sp : Int
  flags : List Int
  lastFault : Option Fault
  cycles : Int
  haltRequested : Bool
  deriving DecidableEq, Repr

namespace Machine

def capacity (m : Machine) : Int := m.variant.capacity

def origin (m : Machine) : Int := m.variant.programOrigin

/-- A machine of zeros, about to execute at the origin. -/
def fresh (variant : Variant) : Machine where
  variant
  memory := List.replicate variant.capacity.toNat 0
  a := 0
  b := 0
  c := 0
  pc := variant.programOrigin
  sp := 0
  flags := [0, 0, 0, 0]
  lastFault := none
  cycles := 0
  haltRequested := false

structure InRange (m : Machine) : Prop where
  memory_length : m.memory.length = m.capacity
  memory_nibble : ∀ i ∈ m.memory, 0 ≤ i ∧ i < 16
  a_nibble : 0 ≤ m.a ∧ m.a < 16
  b_nibble : 0 ≤ m.b ∧ m.b < 16
  c_nibble : 0 ≤ m.c ∧ m.c < 16
  pc_cell : 0 ≤ m.pc ∧ m.pc < m.capacity
  sp_cell : 0 ≤ m.sp ∧ m.sp < m.capacity
  flags_length : m.flags.length = 4
  flags_bit : ∀ i ∈ m.flags, i = 0 ∨ i = 1

def snapshot (m : Machine) : Snapshot where
  variant := m.variant.name
  a := m.a
  b := m.b
  c := m.c
  pc := m.pc
  sp := m.sp
  flags := m.flags
  memory := m.memory
  cycles := m.cycles
  fault := m.lastFault.map Fault.name

/-- Flags as one number, the first the least significant. -/
def packFlags : List Int → Int
  | [] => 0
  | bit :: rest => bit + 2 * packFlags rest

def unpackFlags (value : Int) : List Int :=
  [value % 2, value / 2 % 2, value / 4 % 2, value / 8 % 2]

def readRegister (m : Machine) : Register → Int
  | .a => m.a
  | .b => m.b
  | .c => m.c
  | .pc => m.pc
  | .sp => m.sp
  | .f => packFlags m.flags

/-- Writes a register: a nibble keeps its low bits, a pointer wraps around memory. -/
def writeRegister (m : Machine) (r : Register) (value : Int) : Machine :=
  match r with
  | .a => { m with a := value % 16 }
  | .b => { m with b := value % 16 }
  | .c => { m with c := value % 16 }
  | .pc => { m with pc := value % m.capacity }
  | .sp => { m with sp := value % m.capacity }
  | .f => { m with flags := unpackFlags value }

def registers (m : Machine) : List (Register × Int) :=
  Register.all.map fun r => (r, m.readRegister r)

def writeRegisters (m : Machine) (values : List (Register × Int)) : Machine :=
  values.foldl (fun m (r, value) => m.writeRegister r value) m

def reset : Action Machine Unit := do
  modify fun m => { fresh m.variant with haltRequested := true }
  Action.record .reset

def requestHalt : Action Machine Unit := modify fun m => { m with haltRequested := true }

end Machine
end FourBit
