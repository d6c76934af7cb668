import FourBit.Error
import FourBit.Numeral.Literal
import FourBit.Text.Lines

/-! Program text: one nibble on a line.
A nibble is a hexadecimal, binary, octal or decimal literal; the first mark of a comment ends a
line, and lines with nothing else on them are skipped. -/
namespace FourBit

abbrev Nibble := Fin 16

namespace Program
open Text Numeral

def atComment : List Char → Bool
  | '#' :: _ | ';' :: _ | '/' :: '/' :: _ => true
  | _ => false

/-- The text in front of a comment. A comment does not reach over the end of a line, so one that is
not on the last line is none. -/
def beforeComment : List Char → List Char
  | [] => []
  | c :: cs =>
    if atComment (c :: cs) && !cs.dropLast.contains '\n' then [] else c :: beforeComment cs

def content (line : List Char) : List Char := trim (beforeComment line)

def literalParts : List Char → Nat × List Char
  | '0' :: 'x' :: ds => (16, ds)
  | '0' :: 'b' :: ds => (2, ds)
  | '0' :: 'o' :: ds => (8, ds)
  | ds => (10, ds)

/-- A literal without its underscores, in small letters, and without a line feed at the end. -/
def plainLiteral (token : List Char) : List Char :=
  let cs := (token.map Char.toLower).filter (· != '_')
  if cs.getLast? = some '\n' then cs.dropLast else cs

/-- The digits of a program are those of ASCII. -/
def asciiDigit? (base : Nat) (c : Char) : Option Nat :=
  if c.toNat < 0x80 then digit? base c else none

def literalValue? (token : List Char) : Except Error (Option Nat) :=
  let (base, digits) := literalParts (plainLiteral token)
  match digits.mapM (asciiDigit? base) with
  | none | some [] => .ok none
  | some ds =>
    if base = 10 && maxDigits < ds.length then .error (.tooManyDigits ds.length)
    else .ok (some (ofDigits base ds))

/-- Reads one literal; the line is the one to blame. -/
def nibble (token : List Char) (line : Int) : Except Error Nibble := do
  match ← literalValue? token with
  | none => throw (.badLine line (.ofList token) .notLiteral)
  | some n =>
    if h : n < 16 then return ⟨n, h⟩
    else
      discard <| writeDecimal n
      throw (.badLine line (.ofList token) (.tooLarge n))

def nibbles (line : Int) : List (List Char) → Except Error (List Nibble)
  | [] => .ok []
  | raw :: rest => do
    let token := content raw
    if token.isEmpty then nibbles (line + 1) rest
    else
      let n ← nibble token line
      return n :: (← nibbles (line + 1) rest)

def parse (text : String) : Except Error (List Nibble) := nibbles 1 (lines text.toList)

end Program
end FourBit
