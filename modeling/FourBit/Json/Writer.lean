import FourBit.Json
import FourBit.Numeral.Format
import FourBit.Numeral.Shortest
import FourBit.Text.Quoted

/-! Writing JSON in ASCII on one line.
Items are separated by a comma and a space, names from values by a colon and a space; characters
outside the printable part of ASCII are escaped by their UTF-16 units. -/
namespace FourBit.Json
open Numeral

def units (n : Nat) : List Nat :=
  if n < 0x10000 then [n]
  else [0xD800 + (n - 0x10000) / 0x400, 0xDC00 + (n - 0x10000) % 0x400]

def escapeUnit (n : Nat) : List Char := '\\' :: 'u' :: Text.hexadecimal 4 n

def escapeChar (c : Char) : List Char :=
  if c = '"' || c = '\\' then ['\\', c]
  else if c = '\n' then ['\\', 'n']
  else if c = '\r' then ['\\', 'r']
  else if c = '\t' then ['\\', 't']
  else if c = '\x08' then ['\\', 'b']
  else if c = '\x0c' then ['\\', 'f']
  else if 0x20 ≤ c.toNat && c.toNat ≤ 0x7E then [c]
  else (units c.toNat).flatMap escapeUnit

/-- Surrogates are escaped like the units that they are. -/
def escapePoint (p : CodePoint) : List Char :=
  if p.isSurrogate then escapeUnit p.value else escapeChar p.toChar

variable {τ : Type} [CodeText τ]

def writeString (s : τ) : List Char := '"' :: (CodeText.points s).flatMap escapePoint ++ ['"']

def writeFloat (x : Float) : String :=
  match Binary64.ofFloat x with
  | .nan => "NaN"
  | .infinite negative => if negative then "-Infinity" else "Infinity"
  | .finite .. => floatText x

def separated : List (List Char) → List Char
  | [] => []
  | [part] => part
  | part :: rest => part ++ ',' :: ' ' :: separated rest

mutual

def chars : Json τ → List Char
  | null => ['n', 'u', 'l', 'l']
  | bool b => if b then ['t', 'r', 'u', 'e'] else ['f', 'a', 'l', 's', 'e']
  | int i => decimal.chars i
  | float x => (writeFloat x).toList
  | str s => writeString s
  | array items => '[' :: separated (itemChars items) ++ [']']
  | object members => '\x7b' :: separated (memberChars members) ++ ['\x7d']
termination_by structural j => j

def itemChars : List (Json τ) → List (List Char)
  | [] => []
  | j :: rest => chars j :: itemChars rest
termination_by structural items => items

def memberChars : List (τ × Json τ) → List (List Char)
  | [] => []
  | (name, j) :: rest => (writeString name ++ ':' :: ' ' :: chars j) :: memberChars rest
termination_by structural members => members

end

def write (j : Json τ) : String := .ofList j.chars

end FourBit.Json
