import FourBit.Numeral.Digit
import FourBit.Text.Quoted

/-! Switches of the command, and what each argument is.
A switch may be shortened as long as it stays unique, and its value may be attached with an equals
sign. What only looks like a switch, such as a negative number, is a word. -/
namespace FourBit.Command
open Numeral Text

inductive Switch where
  | help
  | variant
  | steps
  | rate
  | trace
  | listing
  | progress
  | output
  | debug
  | assign
  deriving DecidableEq, Repr

namespace Switch

/-- All spellings in the order in which they are offered. -/
def spellings : List (String × Switch) :=
  [("-h", help), ("--help", help), ("--variant", variant), ("--steps", steps), ("--hz", rate),
    ("--trace", trace), ("--listing", listing), ("--progress", progress), ("--output", output),
    ("--debug", debug), ("--set", assign)]

def takesValue : Switch → Bool
  | variant | steps | rate | output | assign => true
  | _ => false

def shown (s : Switch) : String :=
  "/".intercalate ((spellings.filter (·.2 = s)).map (·.1))

end Switch

inductive Item where
  | word (text : String)
  /-- After this mark there are only words. -/
  | mark
  | switch (s : Switch) (attached : Option String)
  | unknown (text : String)
  deriving DecidableEq, Repr

def splitAttached (cs : List Char) : String × Option String :=
  (.ofList (cs.takeWhile (· != '=')),
    match cs.dropWhile (· != '=') with
    | [] => none
    | _ :: value => some (.ofList value))

/-- Whether a text is a minus sign and digits, with at most one point in front of the last. A line
feed may follow. -/
def isNegativeNumber (cs : List Char) : Bool :=
  let isDigit c := (decimalDigit? c).isSome
  match if cs.getLast? = some '\n' then cs.dropLast else cs with
  | '-' :: cs =>
    match cs.dropWhile isDigit with
    | [] => !cs.isEmpty
    | '.' :: fraction => !fraction.isEmpty && fraction.all isDigit
    | _ => false
  | _ => false

/-- What is left of short switches written together where they stop being any. -/
def shortExcess : List Char → Option String
  | [] => none
  | 'h' :: rest => shortExcess rest
  | rest => some (.ofList rest)

def attachedTo (stem : String) (attached : Option String) : Option String :=
  match attached with
  | some value => if stem = "-h" && !value.isEmpty then shortExcess value.toList else some value
  | none => none

private def unspelled (text : String) : Item :=
  if isNegativeNumber text.toList || text.contains ' ' then .word text else .unknown text

def abbreviated (stem : String) : List (String × Switch) :=
  Switch.spellings.filter fun (spelling, _) => spelling.startsWith stem

/-- What an argument is, unless it may be short for several switches. -/
def classify (text : String) : Except String Item :=
  let (stem, attached) := splitAttached text.toList
  match Switch.spellings.lookup text, Switch.spellings.lookup stem with
  | some s, _ => .ok (.switch s none)
  | none, some s => .ok (.switch s (attachedTo stem attached))
  | none, none =>
    match text.toList with
    | '-' :: '-' :: _ =>
      match abbreviated stem with
      | [] => .ok (unspelled text)
      | [(_, s)] => .ok (.switch s attached)
      | several =>
        .error (s!"ambiguous option: {text} could match " ++
          ", ".intercalate (several.map (·.1)))
    | '-' :: 'h' :: more => .ok (.switch .help (shortExcess more))
    | '-' :: _ :: _ => .ok (unspelled text)
    | _ => .ok (.word text)

def classifyAll : List String → Except String (List Item)
  | [] => .ok []
  | "--" :: rest => .ok (.mark :: rest.map .word)
  | text :: rest => do
    let item ← classify text
    return item :: (← classifyAll rest)

end FourBit.Command
