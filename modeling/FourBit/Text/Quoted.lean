import FourBit.Text.CodePoint
import FourBit.Text.Printable

/-! Text between quotation marks, as messages show it.
Apostrophes enclose the text unless it holds apostrophes and no double quotes. The mark, the
backslash and the three common controls are escaped by a letter, whatever else is unprintable by
its code point in two, four or eight hexadecimal digits. -/
namespace FourBit.Text

def hexadecimal (width n : Nat) : List Char :=
  let digits := Nat.toDigits 16 n
  List.replicate (width - digits.length) '0' ++ digits

def codePoint (n : Nat) : List Char :=
  if n < 0x100 then '\\' :: 'x' :: hexadecimal 2 n
  else if n < 0x10000 then '\\' :: 'u' :: hexadecimal 4 n
  else '\\' :: 'U' :: hexadecimal 8 n

def escape (mark c : Char) : List Char :=
  if c = mark || c = '\\' then ['\\', c]
  else if c = '\n' then ['\\', 'n']
  else if c = '\r' then ['\\', 'r']
  else if c = '\t' then ['\\', 't']
  else if isPrintable c then [c]
  else codePoint c.toNat

def markFor (cs : List Char) : Char :=
  if cs.contains '\'' && !cs.contains '"' then '"' else '\''

def escapePoint (mark : Char) (p : CodePoint) : List Char :=
  if p.isSurrogate then codePoint p.value else escape mark p.toChar

def quote {τ : Type} [CodeText τ] (t : τ) : String :=
  let mark := markFor (CodeText.chars t)
  .ofList (mark :: (CodeText.points t).flatMap (escapePoint mark) ++ [mark])

/-- Bytes are quoted like the characters of their values, but for those beyond ASCII. -/
def quoteBytes (bytes : List UInt8) : String :=
  let cs := bytes.map fun b => Char.ofNat b.toNat
  let mark := markFor cs
  let escapeByte (c : Char) := if c.toNat < 0x80 then escape mark c else codePoint c.toNat
  .ofList ('b' :: mark :: cs.flatMap escapeByte ++ [mark])

end FourBit.Text
