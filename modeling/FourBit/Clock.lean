import FourBit.Error
import FourBit.Numeral.Fixed
import FourBit.Numeral.Shortest

/-! Clocks: how long a run waits before each step, and the rates it may be set to.
A clock counts in binary64 numbers when it runs; its rules need only the arithmetic of `Scalar`,
which exact rationals have too. -/
namespace FourBit

class Scalar (R : Type) where
  nought : R
  one : R
  two : R
  lt : R → R → Bool
  le : R → R → Bool
  isNought : R → Bool
  mul : R → R → R
  div : R → R → R
  text : R → String

instance : Scalar Float where
  nought := 0
  one := 1
  two := 2
  lt x y := x < y
  le x y := x ≤ y
  isNought x := x == 0
  mul x y := x * y
  div x y := x / y
  text := Numeral.floatText

instance : Scalar Rat where
  nought := 0
  one := 1
  two := 2
  lt x y := x < y
  le x y := x ≤ y
  isNought x := x = 0
  mul x y := x * y
  div x y := x / y
  text := toString

structure Clock (R : Type) where
  /-- Seconds before each step; nought is a tight loop. -/
  interval : R
  leastRate : R
  mostRate : R
  deriving Repr

namespace Clock
open Scalar
variable {R : Type} [Scalar R]

/-- A clock, if its interval is not negative and its rates are positive and in order. -/
def ofInterval (interval least most : R) : Except Error (Clock R) :=
  if lt interval nought then .error .negativeInterval
  else if lt nought least && le least most then .ok ⟨interval, least, most⟩
  else .error (.badRange (text least) (text most))

/-- The first number unless the second is smaller. -/
def lower (x y : R) : R := if lt y x then y else x

def upper (x y : R) : R := if lt x y then y else x

/-- A clock of a rate, which is first brought between the bounds. -/
def ofRate (rate least most : R) : Except Error (Clock R) :=
  if le rate nought then .error .rateNotPositive
  else
    let clamped := upper least (lower rate most)
    if isNought clamped then .error .noRate
    else ofInterval (div one clamped) least most

/-- Steps in a second; a tight loop has no rate. -/
def rate? (c : Clock R) : Option R :=
  if isNought c.interval then none else some (div one c.interval)

/-- Halves the interval, unless the rate is the greatest already. -/
def speedUp? (c : Clock R) : Option (Clock R) :=
  match c.rate? with
  | none => none
  | some rate =>
    if le c.mostRate rate then none else some { c with interval := div c.interval two }

def slowDown? (c : Clock R) : Option (Clock R) :=
  match c.rate? with
  | none => none
  | some rate =>
    if le rate c.leastRate then none else some { c with interval := mul c.interval two }

/-- Half a second, between one step in two seconds and one hundred and twenty-eight in one. -/
def standard : Clock Float := ⟨0.5, 0.5, 128⟩

def rateText (c : Clock Float) : String := (c.rate?.map Numeral.twoPlaces).getD "inf"

end Clock
end FourBit
