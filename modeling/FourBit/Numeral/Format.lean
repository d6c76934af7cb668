/-! Integers as text.
A format fixes the base, the letters of the digits above nine, a mark after the sign, and a least
width that zeros after the mark fill. -/
namespace FourBit.Numeral

structure Format where
  base : Nat
  capitals : Bool
  mark : List Char
  width : Nat

namespace Format

def head (f : Format) (i : Int) : List Char := (if i < 0 then ['-'] else []) ++ f.mark

def digits (f : Format) (i : Int) : List Char :=
  (Nat.toDigits f.base i.natAbs).map fun c => if f.capitals then c.toUpper else c

def chars (f : Format) (i : Int) : List Char :=
  let filler := f.width - (f.head i).length - (f.digits i).length
  f.head i ++ List.replicate filler '0' ++ f.digits i

def write (f : Format) (i : Int) : String := .ofList (f.chars i)

end Format

def decimal : Format := ⟨10, false, [], 0⟩

/-- Operands and register values: hexadecimal in capitals. -/
def hex : Format := ⟨16, true, [], 0⟩

/-- Addresses: hexadecimal in small letters, two characters or more. -/
def address : Format := ⟨16, false, [], 2⟩

def markedHex : Format := ⟨16, false, ['0', 'x'], 0⟩

/-- Cells: binary, four characters or more. -/
def bits : Format := ⟨2, false, [], 4⟩

/-- The most digits that decimal text may have, when it is read and when it is written. -/
def maxDigits : Nat := 4300

def isWritable (i : Int) : Bool := i.natAbs < Nat.pow 10 maxDigits

theorem isWritable_iff {i : Int} : isWritable i = true ↔ i.natAbs < Nat.pow 10 maxDigits := by
  rw [isWritable, decide_eq_true_eq]

theorem isWritable_of_le {i j : Int} (h : i.natAbs ≤ j.natAbs) (hj : isWritable j = true) :
    isWritable i = true :=
  isWritable_iff.mpr (Nat.lt_of_le_of_lt h (isWritable_iff.mp hj))

theorem isWritable_of_lt {i : Int} (h : i.natAbs < 100) : isWritable i = true := by
  have hpow (k : Nat) (hk : 2 ≤ k) : Nat.pow 10 2 ≤ Nat.pow 10 k :=
    Nat.pow_le_pow_right (by decide) hk
  exact isWritable_iff.mpr (Nat.lt_of_lt_of_le h (hpow maxDigits (by decide)))

end FourBit.Numeral
