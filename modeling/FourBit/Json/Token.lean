import FourBit.Numeral.Scientific
import FourBit.Text.CodePoint

/-! Tokens of JSON text.
Besides the words of the standard there are three for numbers that are not finite. Text that is no
token ends the list with a mark, so that what stands in front of it can still be used. -/
namespace FourBit.Json
open Numeral

inductive Token (τ : Type := String) where
  | openArray
  | closeArray
  | openObject
  | closeObject
  | comma
  | colon
  | null
  | bool (b : Bool)
  | int (i : Int)
  | float (x : Float)
  | str (s : τ)
  /-- An integer of more digits than are read. -/
  | overlong
  | invalid

namespace Token
variable {τ : Type}

def isSpace (c : Char) : Bool := c = ' ' || c = '\t' || c = '\n' || c = '\r'

def isDigit (c : Char) : Bool := '0' ≤ c && c ≤ '9'

def escaped? (c : Char) : Option Char :=
  if c = '"' || c = '\\' || c = '/' then some c
  else if c = 'n' then some '\n'
  else if c = 'r' then some '\r'
  else if c = 't' then some '\t'
  else if c = 'b' then some '\x08'
  else if c = 'f' then some '\x0c'
  else none

def unit? (a b c d : Char) : Option Nat :=
  let hexValue (c : Char) : Option Nat := if c.toNat < 0x80 then digit? 16 c else none
  ([a, b, c, d].mapM hexValue).map (ofDigits 16)

def pair? (high low : Nat) : Option CodePoint :=
  if 0xD800 ≤ high && high < 0xDC00 && 0xDC00 ≤ low && low < 0xE000 then
    some (.ofNat (0x10000 + (high - 0xD800) * 0x400 + (low - 0xDC00)))
  else none

/-- Code points of UTF-16 units, where units that are no part of a pair stand for themselves,
surrogates without their partners included. -/
def joinUnits : List Nat → List CodePoint
  | high :: low :: rest =>
    match pair? high low with
    | some p => p :: joinUnits rest
    | none => .ofNat high :: joinUnits (low :: rest)
  | [unit] => [.ofNat unit]
  | [] => []

/-- The characters up to the closing quote, escapes by their units, and what follows the quote. -/
def stringUnits : List Char → Option (List Nat × List Char)
  | [] => none
  | '"' :: rest => some ([], rest)
  | '\\' :: 'u' :: a :: b :: c :: d :: rest =>
    match unit? a b c d with
    | some unit => (stringUnits rest).map fun (us, r) => (unit :: us, r)
    | none => none
  | '\\' :: c :: rest =>
    match escaped? c with
    | some char => (stringUnits rest).map fun (us, r) => (char.toNat :: us, r)
    | none => none
  | c :: rest =>
    if c.toNat < 0x20 || c = '\\' then none
    else (stringUnits rest).map fun (us, r) => (c.toNat :: us, r)

def digitsThen (cs : List Char) : List Char × List Char :=
  (cs.takeWhile isDigit, cs.dropWhile isDigit)

def fraction (cs : List Char) : List Char × List Char :=
  match cs with
  | '.' :: rest => if (digitsThen rest).1.isEmpty then ([], cs) else digitsThen rest
  | _ => ([], cs)

def power (cs : List Char) : Option Int × List Char :=
  match cs with
  | e :: rest =>
    if e = 'e' || e = 'E' then
      let (negative, rest) :=
        match rest with
        | '-' :: r => (true, r)
        | '+' :: r => (false, r)
        | r => (false, r)
      let (ds, r) := digitsThen rest
      let n : Int := ofDigits 10 (ds.filterMap (digit? 10))
      if ds.isEmpty then (none, cs) else (some (if negative then -n else n), r)
    else (none, cs)
  | [] => (none, [])

/-- The digits in front of a point: a lone zero, or digits that begin with another one. -/
def wholePart (cs : List Char) : List Char × List Char :=
  match cs with
  | '0' :: rest => (['0'], rest)
  | _ => digitsThen cs

def number? (negative : Bool) (cs : List Char) : Option (Token τ × List Char) :=
  let (whole, rest) := wholePart cs
  let (places, rest) := fraction rest
  let (exponent, rest) := power rest
  let n := ofDigits 10 ((whole ++ places).filterMap (digit? 10))
  if whole.isEmpty then none
  else if places.isEmpty && exponent.isNone then
    if maxDigits < whole.length then some (overlong, rest)
    else some (int (if negative then -(n : Int) else n), rest)
  else
    let x := nearestFloat n (exponent.getD 0 - places.length)
    some (float (if negative then -x else x), rest)

def after? : List Char → List Char → Option (List Char)
  | [], cs => some cs
  | _ :: _, [] => none
  | w :: ws, c :: cs => if w = c then after? ws cs else none

def words : List (List Char × Token τ) :=
  [("null".toList, null), ("true".toList, bool true), ("false".toList, bool false),
    ("NaN".toList, float (0 / 0)), ("Infinity".toList, float (1 / 0)),
    ("-Infinity".toList, float (-1 / 0))]

def word? (cs : List Char) : Option (Token τ × List Char) :=
  words.findSome? fun (word, token) => (after? word cs).map fun rest => (token, rest)

variable [CodeText τ]

def next? (cs : List Char) : Option (Token τ × List Char) :=
  match cs with
  | '[' :: rest => some (openArray, rest)
  | ']' :: rest => some (closeArray, rest)
  | '\x7b' :: rest => some (openObject, rest)
  | '\x7d' :: rest => some (closeObject, rest)
  | ',' :: rest => some (comma, rest)
  | ':' :: rest => some (colon, rest)
  | '"' :: rest => (stringUnits rest).map fun (us, r) => (str (CodeText.ofPoints (joinUnits us)), r)
  | _ =>
    match word? cs with
    | some found => some found
    | none =>
      match cs with
      | '-' :: rest => number? true rest
      | _ => number? false cs

def scan : Nat → List Char → List (Token τ)
  | 0, _ => []
  | fuel + 1, cs =>
    match cs.dropWhile isSpace with
    | [] => []
    | rest =>
      match next? rest with
      | some (token, rest) => token :: scan fuel rest
      | none => [invalid]

/-- The tokens of a text. Each takes a character at least. -/
def tokens (cs : List Char) : List (Token τ) := scan cs.length cs

end Token
end FourBit.Json
