import FourBit.Cells
import FourBit.Register
import FourBit.Snapshot.Layout
import FourBit.Value

/-! Snapshots: what a machine holds between two steps.
A snapshot can be shown, stored, and compared with another one of a machine of the same size. -/
namespace FourBit

structure Snapshot (τ : Type := String) where
  variant : τ
  a : Int
  b : Int
  c : Int
  pc : Int
  sp : Int
  flags : List Int
  memory : List Int
  cycles : Int := 0
  fault : Option τ := none
  deriving DecidableEq, Repr

/-- Where two snapshots differ: registers in alphabetical order and cells in ascending order. -/
structure Difference where
  registers : List Register
  cells : List Nat
  deriving DecidableEq, Repr

namespace Snapshot
open Numeral
variable {τ : Type}

/-- Takes the registers from a mapping of names, which has to have all but that of the flags. -/
def ofRegisters (variant : τ) (registers : List (String × Int)) (flags memory : List Int)
    (cycles : Int) (fault : Option τ) : Except Error (Snapshot τ) := do
  let value (r : Register) : Except Error Int :=
    match registers.lookup r.name with
    | some i => .ok i
    | none => .error .noKey
  let a ← value .a
  let b ← value .b
  let c ← value .c
  let pc ← value .pc
  let sp ← value .sp
  return { variant, a, b, c, pc, sp, flags, memory, cycles, fault }

def flag (s : Snapshot τ) (f : Flag) : Except Error Int :=
  match s.flags[f.place]? with
  | some i => .ok i
  | none => .error .outside

def state (s : Snapshot τ) : Except Error String := do
  let flags ← Flag.all.mapM fun f => do writeDecimal (← s.flag f)
  return stateLine flags (hex.write s.a) (hex.write s.b) (hex.write s.c) (address.write s.pc)
    (address.write s.sp)

def describe [CodeText τ] (s : Snapshot τ) : Except Error String := do
  let cycles ← writeDecimal s.cycles
  return summary (Text.quote s.variant) cycles (← s.state)

def cell (s : Snapshot τ) (address : Int) : Except Error String :=
  match Cells.get? s.memory address with
  | some i => .ok (cellLine address (bits.write i) (address == s.pc) (address == s.sp))
  | none => .error .outside

def cells (s : Snapshot τ) (address : Int) : Nat → Except Error (List String)
  | 0 => .ok []
  | count + 1 => do
    let line ← s.cell address
    return line :: (← s.cells (address + 1) count)

def showMemory (s : Snapshot τ) (start : Int) (stop : Option Int) : Except Error (List String) :=
  s.cells start (stop.getD s.memory.length - start).toNat

def contents (s : Snapshot τ) : Register → List Int
  | .a => [s.a]
  | .b => [s.b]
  | .c => [s.c]
  | .pc => [s.pc]
  | .sp => [s.sp]
  | .f => s.flags

def alphabetical : List Register := [.a, .b, .c, .f, .pc, .sp]

/-- Places, counted from `n`, at which two rows of cells differ. -/
def changedCells (n : Nat) : List Int → List Int → List Nat
  | x :: xs, y :: ys =>
    if x = y then changedCells (n + 1) xs ys else n :: changedCells (n + 1) xs ys
  | _, _ => []

def diff (s t : Snapshot τ) : Except Error Difference :=
  if s.memory.length = t.memory.length then
    .ok ⟨alphabetical.filter fun r => s.contents r != t.contents r,
      changedCells 0 s.memory t.memory⟩
  else .error .unequalMemories

def fields [CodeText τ] (s : Snapshot τ) : List (τ × Value τ) :=
  [("variant", .str s.variant), ("A", .int s.a), ("B", .int s.b), ("C", .int s.c),
    ("PC", .int s.pc), ("SP", .int s.sp), ("F", .list (s.flags.map .int)),
    ("memory", .list (s.memory.map .int)), ("cycles", .int s.cycles),
    ("fault", s.fault.elim .null .str)]

def toValue [CodeText τ] (s : Snapshot τ) : Value τ := .record .snapshot s.fields

end Snapshot
end FourBit
