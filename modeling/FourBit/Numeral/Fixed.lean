import FourBit.Numeral.Binary64

/-! Binary64 numbers with two decimal places.
The exact value is rounded to the nearest hundredth, and a half goes to the even one. -/
namespace FourBit.Numeral

/-- The integer nearest to `num / den`; of two equally near the even one. -/
def roundHalfEven (num den : Nat) : Nat :=
  let q := num / den
  let r := num % den
  if den < 2 * r || (2 * r = den && q % 2 = 1) then q + 1 else q

def hundredths (n : Nat) : List Char :=
  let fraction := Nat.toDigits 10 (n % 100)
  Nat.toDigits 10 (n / 100) ++ '.' :: List.replicate (2 - fraction.length) '0' ++ fraction

def twoPlaces (x : Float) : String :=
  match Binary64.ofFloat x with
  | .nan => "nan"
  | .infinite negative => if negative then "-inf" else "inf"
  | .finite negative m q =>
    let (num, den) := Binary64.ratio m q
    let body := hundredths (roundHalfEven (num * 100) den)
    .ofList (if negative then '-' :: body else body)

end FourBit.Numeral
