import FourBit.Numeral.Literal

/-! Decimal text read as a binary64 number.
Digits may have a point and a power of ten, and the nearest number is taken, an infinity when there
is none; a numeral with digits from other scripts and underscores between digits is read too. -/
namespace FourBit.Numeral

def nearestFloat (digits : Nat) (power : Int) : Float :=
  let size := (Nat.toDigits 10 digits).length + power
  if digits = 0 || size < -400 then 0
  else if 400 < size then 1 / 0
  else Float.ofScientific digits (power < 0) power.natAbs

private def isDecimal (c : Char) : Bool := '0' ≤ c && c ≤ '9'

def readPower? : List Char → Option Int
  | [] => some 0
  | e :: cs =>
    if e != 'e' && e != 'E' then none
    else
      let (negative, ds) :=
        match cs with
        | '-' :: ds => (true, ds)
        | '+' :: ds => (false, ds)
        | ds => (false, ds)
      if ds.isEmpty || !ds.all isDecimal then none
      else
        let n := ofDigits 10 (ds.filterMap (digit? 10))
        some (if negative then -(n : Int) else n)

/-- Digits with an optional point among them, then an optional power of ten. -/
def readScientific? (cs : List Char) : Option Float :=
  let whole := cs.takeWhile isDecimal
  let afterWhole := cs.dropWhile isDecimal
  let (fraction, rest) :=
    match afterWhole with
    | '.' :: r => (r.takeWhile isDecimal, r.dropWhile isDecimal)
    | r => ([], r)
  if whole.isEmpty && fraction.isEmpty then none
  else (readPower? rest).map fun power =>
    nearestFloat (ofDigits 10 ((whole ++ fraction).filterMap (digit? 10))) (power - fraction.length)

def readMagnitude? (cs : List Char) : Option Float :=
  let word := cs.map Char.toLower
  if word = "inf".toList || word = "infinity".toList then some (1 / 0)
  else if word = "nan".toList then some (0 / 0)
  else readScientific? cs

def digitsAround (before : Char) : List Char → Bool
  | [] => true
  | '_' :: cs => isDecimal before && (cs.head?.any isDecimal) && digitsAround '_' cs
  | c :: cs => digitsAround c cs

def readFloat? (s : String) : Option Float :=
  let cs := (Text.trimBy isPadding s.toList).map plainDigit
  if !digitsAround '_' cs then none
  else
    match cs.filter (· != '_') with
    | '-' :: rest => (readMagnitude? rest).map fun x => -x
    | '+' :: rest => readMagnitude? rest
    | rest => readMagnitude? rest

end FourBit.Numeral
