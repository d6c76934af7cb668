import FourBit.Text.Blank
import FourBit.Numeral.Digit
import FourBit.Numeral.Format

/-! Integer literals: blanks around an optional sign and digits, single underscores between digits.
A literal is decimal, or its base is shown by a mark after a zero; decimal digits of any script are
read as those they stand for. -/
namespace FourBit.Numeral

inductive LiteralError where
  | malformed
  | tooLong (digits : Nat)
  deriving DecidableEq, Repr

inductive Radix where
  | decimal
  | marked
  deriving DecidableEq, Repr

/-- Blanks that may surround a numeral; the four information separators may not. -/
def isPadding (c : Char) : Bool := Text.isBlank c && !(0x1C ≤ c.toNat && c.toNat ≤ 0x1F)

def plainDigit (c : Char) : Char :=
  match decimalDigit? c with
  | some d => Nat.digitChar d
  | none => c

def ofDigits (base : Nat) (ds : List Nat) : Nat := ds.foldl (fun n d => n * base + d) 0

def wellSeparated : List Char → Bool
  | [] => false
  | '_' :: _ => false
  | [_] => true
  | _ :: '_' :: cs => wellSeparated cs
  | _ :: cs => wellSeparated cs

/-- Reads digits to a base up to the end of the text. Only decimal digits are limited in number. -/
def readDigits (base : Nat) (cs : List Char) : Except LiteralError Nat :=
  let inRun c := c == '_' || (digit? base c).isSome
  let run := cs.takeWhile inRun
  let ds := run.filterMap (digit? base)
  if !wellSeparated run then .error .malformed
  else if base = 10 && maxDigits < ds.length then .error (.tooLong ds.length)
  else if !(cs.dropWhile inRun).isEmpty then .error .malformed
  else .ok (ofDigits base ds)

def markedBase? (mark : Char) : Option Nat :=
  if mark = 'x' || mark = 'X' then some 16
  else if mark = 'o' || mark = 'O' then some 8
  else if mark = 'b' || mark = 'B' then some 2
  else none

/-- Reads digits without a mark, which are decimal and begin with zero for zero only. -/
def readUnmarked (cs : List Char) : Except LiteralError Nat := do
  let n ← readDigits 10 cs
  if cs.head? == some '0' && n != 0 then throw .malformed
  return n

/-- Reads the digits of a literal after its mark, if it has one; an underscore may end the mark. -/
def readMarked (cs : List Char) : Except LiteralError Nat :=
  match cs with
  | '0' :: mark :: rest =>
    match markedBase? mark with
    | some base =>
      match rest with
      | '_' :: digits => readDigits base digits
      | digits => readDigits base digits
    | none => readUnmarked cs
  | _ => readUnmarked cs

def readMagnitude (radix : Radix) (cs : List Char) : Except LiteralError Nat :=
  match radix with
  | .decimal => readDigits 10 cs
  | .marked => readMarked cs

def readInteger (radix : Radix) (s : List Char) : Except LiteralError Int :=
  match (Text.trimBy isPadding s).map plainDigit with
  | '-' :: cs => (readMagnitude radix cs).map fun n => -(n : Int)
  | '+' :: cs => (readMagnitude radix cs).map fun n => (n : Int)
  | cs => (readMagnitude radix cs).map fun n => (n : Int)

end FourBit.Numeral
