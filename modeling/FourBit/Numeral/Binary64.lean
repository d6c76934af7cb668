/-! Binary64 numbers as exact values.
A finite number is its mantissa times a power of two; the interval of reals that round to it is
bounded half way to its neighbours. -/
namespace FourBit.Numeral

inductive Binary64 where
  | finite (negative : Bool) (mantissa : Nat) (exponent : Int)
  | infinite (negative : Bool)
  | nan
  deriving DecidableEq, Repr

namespace Binary64

def leading : Nat := Nat.pow 2 52

def ofBits (bits : UInt64) : Binary64 :=
  let n := bits.toNat
  let negative := n / Nat.pow 2 63 == 1
  let scale : Nat := n / leading % Nat.pow 2 11
  let fraction := n % leading
  if scale = 2047 then if fraction = 0 then .infinite negative else .nan
  else if scale = 0 then .finite negative fraction (-1074)
  else .finite negative (leading + fraction) ((scale : Int) - 1075)

def ofFloat (x : Float) : Binary64 := ofBits x.toBits

/-- A nonnegative rational that is `mantissa · 2 ^ exponent`, as numerator and denominator. -/
def ratio (mantissa : Nat) (exponent : Int) : Nat × Nat :=
  if 0 ≤ exponent then (mantissa * Nat.pow 2 exponent.toNat, 1)
  else (mantissa, Nat.pow 2 (-exponent).toNat)

def equalsInt (i : Int) : Binary64 → Bool
  | .finite negative m q =>
    let (num, den) := ratio m q
    (if negative then -(num : Int) else num) == i * den
  | _ => false

end Binary64
end FourBit.Numeral
