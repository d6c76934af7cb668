import FourBit.Error
import FourBit.Text.Capital

/-! Architecture variants.
Machines differ only in their constants, and a variant holds constants that fit together: a program
has room after the origin, the stack ends inside memory, and arithmetic has a modulus. -/
namespace FourBit

/-- Constants of a machine, with those of the smallest machine as defaults. -/
structure Parameters where
  name : String
  capacity : Int
  /-- The stack pointer at which a push is refused. -/
  stackBoundary : Int := 0xE
  /-- Where programs are loaded and from where jumps count. -/
  programOrigin : Int := 0xF
  arithModulus : Int := 0xF
  skipDistance : Int := 2
  registerAdds : Bool := false
  deriving DecidableEq, Repr

structure Variant extends Parameters where
  origin_lt : programOrigin < capacity
  boundary_pos : 0 < stackBoundary
  boundary_le : stackBoundary ≤ capacity
  modulus_pos : 1 ≤ arithModulus
  deriving DecidableEq, Repr

namespace Variant

/-- Checks the constants in turn: room for a program, the stack boundary, the modulus. -/
def ofParameters (p : Parameters) : Except Error Variant :=
  if origin_lt : p.programOrigin < p.capacity then
    if boundary : 0 < p.stackBoundary ∧ p.stackBoundary ≤ p.capacity then
      if modulus_pos : 1 ≤ p.arithModulus then
        .ok { p with origin_lt, boundary_pos := boundary.1, boundary_le := boundary.2, modulus_pos }
      else .error .modulusNotPositive
    else .error (.boundaryOutside p.stackBoundary)
  else do
    discard <| writeDecimal p.capacity
    throw (.noRoom p.capacity p.programOrigin)

def programSpace (v : Variant) : Int := v.capacity - v.programOrigin

theorem capacity_pos (v : Variant) : 0 < v.capacity := by
  have := v.boundary_pos
  have := v.boundary_le
  omega

def nv256 : Variant where
  name := "nv256"
  capacity := 256
  registerAdds := true
  origin_lt := by decide
  boundary_pos := by decide
  boundary_le := by decide
  modulus_pos := by decide

def nv32 : Variant where
  name := "nv32"
  capacity := 32
  origin_lt := by decide
  boundary_pos := by decide
  boundary_le := by decide
  modulus_pos := by decide

def builtin : List Variant := [nv256, nv32]

def ofName (name : String) : Except Error Variant :=
  match builtin.find? (·.name = Text.lower name) with
  | some v => .ok v
  | none => .error (.unknownVariant name)

end Variant
end FourBit
