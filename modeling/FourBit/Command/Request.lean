import FourBit.Command.Assignment
import FourBit.Command.Switches
import FourBit.Numeral.Scientific
import FourBit.Variant

/-! What the command is asked to do.
Arguments are taken from the left to the right, so the first one that cannot be used is reported;
what is missing or left over is reported only when all others could be used. -/
namespace FourBit.Command
open Numeral Text

structure Request where
  program : String
  variant : Variant := .nv256
  steps : Int := 64
  /-- Steps in a second; without a rate there is no waiting. -/
  rate : Option Float := none
  trace : Bool := false
  listing : Bool := false
  progress : Bool := false
  output : String := ""
  debug : Bool := false
  assignments : List Assignment := []

inductive Stop where
  | help
  | refused (reason : String)
  | failed (e : Error)
  deriving DecidableEq, Repr

structure Draft where
  request : Request := { program := "" }
  hasProgram : Bool := false
  /-- Switches that have been given the mark for words in place of a value. -/
  blank : List Switch := []
  /-- Assignments as they were given, the latest first; none stands for a blank one. -/
  assigned : List (Option String) := []
  extras : List String := []

def refuse {α : Type} (reason : String) : Except Stop α := .error (.refused reason)

def refuseSwitch {α : Type} (s : Switch) (reason : String) : Except Stop α :=
  refuse s!"argument {s.shown}: {reason}"

namespace Draft

def addExtra (text : String) (d : Draft) : Draft := { d with extras := text :: d.extras }

/-- Takes a word, which is the program unless there is one. -/
def addWord (text : String) (d : Draft) : Draft :=
  if d.hasProgram then d.addExtra text
  else { d with request := { d.request with program := text }, hasProgram := true }

def choices : String := ", ".intercalate (Variant.builtin.map fun v => quote v.name)

def setText (s : Switch) (text : String) (d : Draft) : Except Stop Draft :=
  match s with
  | .variant =>
    match Variant.builtin.find? (·.name = text) with
    | some variant => .ok { d with request := { d.request with variant } }
    | none => refuseSwitch s s!"invalid choice: {quote text} (choose from {choices})"
  | .steps =>
    match readInteger .decimal text.toList with
    | .ok steps => .ok { d with request := { d.request with steps } }
    | .error _ => refuseSwitch s s!"invalid int value: {quote text}"
  | .rate =>
    match readFloat? text with
    | some rate => .ok { d with request := { d.request with rate := some rate } }
    | none => refuseSwitch s s!"invalid float value: {quote text}"
  | .output => .ok { d with request := { d.request with output := text } }
  | .assign => .ok { d with assigned := some text :: d.assigned }
  | _ => .ok d

def setBlank (s : Switch) (d : Draft) : Draft :=
  match s with
  | .assign => { d with assigned := none :: d.assigned }
  | .output => { d with request := { d.request with output := "" } }
  | _ => { d with blank := s :: d.blank }

/-- Takes the value of a switch; the last one given to it counts. -/
def setValue (s : Switch) (text : String) (d : Draft) : Except Stop Draft :=
  let d := { d with blank := d.blank.filter (· != s) }
  if text = "--" then .ok (d.setBlank s) else d.setText s text

def turnOn (s : Switch) (d : Draft) : Except Stop Draft :=
  match s with
  | .help => .error .help
  | .trace => .ok { d with request := { d.request with trace := true } }
  | .listing => .ok { d with request := { d.request with listing := true } }
  | .progress => .ok { d with request := { d.request with progress := true } }
  | .debug => .ok { d with request := { d.request with debug := true } }
  | _ => .ok d

/-- Takes all arguments. The mark for words only disappears beside the program. -/
def addItems (d : Draft) : List Item → Except Stop Draft
  | [] => .ok d
  | .word text :: .mark :: rest =>
    addItems (if d.hasProgram then (d.addExtra text).addExtra "--" else d.addWord text) rest
  | .word text :: rest => addItems (d.addWord text) rest
  | .mark :: .word text :: rest =>
    addItems (if d.hasProgram then (d.addExtra "--").addExtra text else d.addWord text) rest
  | .mark :: rest => addItems (d.addExtra "--") rest
  | .unknown text :: rest => addItems (d.addExtra text) rest
  | .switch s none :: rest =>
    if s.takesValue then
      match rest with
      | .word text :: rest => do addItems (← d.setValue s text) rest
      | _ => refuseSwitch s "expected one argument"
    else do addItems (← d.turnOn s) rest
  | .switch s (some text) :: rest =>
    if s.takesValue then do addItems (← d.setValue s text) rest
    else refuseSwitch s s!"ignored explicit argument {quote text}"

end Draft

namespace Request

def assignment : Option String → Except Stop Assignment
  | none => .error (.failed .noField)
  | some text =>
    match Assignment.parse text with
    | .ok a => .ok a
    | .error e => refuse e.message

def needed (s : Switch) (d : Draft) : Except Stop Unit :=
  if d.blank.contains s then .error (.failed .wrongType) else .ok ()

def ofDraft (d : Draft) : Except Stop Request := do
  if !d.hasProgram then refuse "the following arguments are required: program"
  if !d.extras.isEmpty then
    refuse ("unrecognized arguments: " ++ " ".intercalate d.extras.reverse)
  needed .steps d
  if d.request.steps < 0 then refuse "--steps must not be negative"
  needed .rate d
  if d.request.rate.any (· ≤ 0) then refuse "--hz must be positive"
  let assignments ← d.assigned.reverse.mapM assignment
  needed .variant d
  return { d.request with assignments }

def ofArguments (args : List String) : Except Stop Request := do
  match classifyAll args with
  | .ok items => ofDraft (← Draft.addItems {} items)
  | .error reason => refuse reason

end Request
end FourBit.Command
