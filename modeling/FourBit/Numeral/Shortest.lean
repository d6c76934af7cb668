import FourBit.Numeral.Binary64

/-! The shortest decimal that reads back as a binary64 number.
Among decimals of the fewest digits it is the nearest to the number, and of two equally near the
one with the even last digit. Small and large exponents are written with a power of ten. -/
namespace FourBit.Numeral

structure Decimal where
  digits : List Char
  point : Int
  deriving DecidableEq, Repr

namespace Shortest

/-- How many digits stand in front of the point of `num / den`; zero and less when the first of
them stands behind it. -/
def magnitude (num den : Nat) : Int :=
  let shift : Nat := 400
  (Nat.toDigits 10 (num * Nat.pow 10 shift / den)).length - (shift : Int)

/-- The reals that round to a number, all four times as large as they are: the number, the two
bounds, and whether the bounds belong to the interval. -/
structure Interval where
  value : Nat
  low : Nat
  high : Nat
  closed : Bool

def interval (mantissa : Nat) (exponent : Int) : Interval :=
  let below := if mantissa = Binary64.leading ∧ -1074 < exponent then 1 else 2
  ⟨4 * mantissa, 4 * mantissa - below, 4 * mantissa + 2, mantissa % 2 = 0⟩

/-- Whether the grid point `j · step` lies among the reals that round to the number, where the
interval is counted in units of `scale`. -/
def Interval.contains (i : Interval) (scale step j : Nat) : Bool :=
  if i.closed then i.low * scale ≤ j * step && j * step ≤ i.high * scale
  else i.low * scale < j * step && j * step < i.high * scale

/-- The neighbour of the number on a decimal grid that reads back, if one does. -/
def Interval.pick (i : Interval) (scale step : Nat) : Option Nat :=
  let below := i.value * scale / step
  let above := below + 1
  match i.contains scale step below, i.contains scale step above with
  | true, true =>
    let toBelow := i.value * scale - below * step
    let toAbove := above * step - i.value * scale
    if toBelow < toAbove || (toBelow = toAbove && below % 2 = 0) then some below else some above
  | true, false => some below
  | false, true => some above
  | false, false => none

def search (i : Interval) (exponent point : Int) (n : Nat) : Nat → Option Decimal
  | 0 => none
  | fuel + 1 =>
    let place := point - n
    let (scale, unit) := Binary64.ratio 1 (exponent - 2)
    let (scale, step) :=
      if 0 ≤ place then (scale, unit * Nat.pow 10 place.toNat)
      else (scale * Nat.pow 10 (-place).toNat, unit)
    match i.pick scale step with
    | some j =>
      let ds := Nat.toDigits 10 j
      some ⟨(ds.reverse.dropWhile (· == '0')).reverse, place + ds.length⟩
    | none => search i exponent point (n + 1) fuel

/-- Seventeen digits always read back. -/
def decimal? (mantissa : Nat) (exponent : Int) : Option Decimal :=
  let (num, den) := Binary64.ratio mantissa exponent
  search (interval mantissa exponent) exponent (magnitude num den) 1 17

end Shortest

structure Layout where
  least : Int
  most : Int

/-- Numbers from a ten-thousandth up to ten to the sixteenth are written out. -/
def plainLayout : Layout := ⟨-3, 16⟩

def Decimal.write (layout : Layout) (d : Decimal) : List Char :=
  if layout.least ≤ d.point && d.point ≤ layout.most then
    if d.point ≤ 0 then '0' :: '.' :: List.replicate (-d.point).toNat '0' ++ d.digits
    else
      let whole := d.digits.take d.point.toNat
      let fraction := d.digits.drop d.point.toNat
      whole ++ List.replicate (d.point.toNat - whole.length) '0' ++ '.' ::
        (if fraction.isEmpty then ['0'] else fraction)
  else
    let power := d.point - 1
    let ds := Nat.toDigits 10 power.natAbs
    let fraction := d.digits.drop 1
    d.digits.take 1 ++ (if fraction.isEmpty then [] else '.' :: fraction) ++
      'e' :: (if power < 0 then '-' else '+') :: List.replicate (2 - ds.length) '0' ++ ds

def floatText (x : Float) : String :=
  match Binary64.ofFloat x with
  | .nan => "nan"
  | .infinite negative => if negative then "-inf" else "inf"
  | .finite negative m q =>
    let body :=
      if m = 0 then ['0', '.', '0']
      else match Shortest.decimal? m q with
        | some d => d.write plainLayout
        | none => []
    .ofList (if negative then '-' :: body else body)

end FourBit.Numeral
