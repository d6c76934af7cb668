import FourBit.Command.Folder
import FourBit.Command.Request
import FourBit.Instruction.Listing
import FourBit.Machine.Load
import FourBit.Runner
import FourBit.Store.Encode

/-! What the command does with a request.
It loads the program, sets registers, runs the machine, and shows what the machine holds then. A
program that cannot be read or does not fit is reported; other failures end the command. -/
namespace FourBit.Command
open Numeral FourBit.Action

structure Report where
  exitCode : Nat
  output : List String
  errors : List String
  /-- The text to be written to the output file, if one was asked for. -/
  document : Option String := none

inductive Failure where
  | file (e : FileError)
  | notText
  | failed (e : Error)
  deriving DecidableEq, Repr

def usage : String :=
  "usage: nibblevm " ++
    " ".intercalate (Switch.spellings.map fun (spelling, s) =>
      if s.takesValue then s!"[{spelling} VALUE]" else s!"[{spelling}]") ++ " program"

def Stop.report : Stop → Except Failure Report
  | .help => .ok ⟨0, [usage], [], none⟩
  | .refused reason => .ok ⟨2, [], [s!"nibblevm: error: {reason}"], none⟩
  | .failed e => .error (.failed e)

namespace Request

def traceLine (s : Snapshot) : Except Error String := do
  let next ← Disassembly.instructionAt s.memory s.pc
  let cycles ← writeDecimal s.cycles
  let filler := String.ofList (List.replicate (4 - cycles.length) ' ')
  return s!"[{filler}{cycles}] {← s.state}  next: {next.mnemonic}" ++
    (s.fault.elim "" fun fault => s!"  !{fault}")

def clock (r : Request) : Except Error (Clock Float) :=
  match r.rate with
  | some rate => Clock.ofRate rate Clock.standard.leastRate Clock.standard.mostRate
  | none => Clock.ofInterval 0 Clock.standard.leastRate Clock.standard.mostRate

def listingLines (m : Machine) (nibbles : Nat) : Except Error (List String) := do
  let stop := min (m.origin + nibbles + (nibbles % 2 : Nat)) m.capacity
  return (← Disassembly.listing m.memory m.origin (some stop)) ++ [""]

def closingLines (s : Snapshot) (origin capacity : Int) (steps : Nat) :
    Except Error (List String) := do
  return s!"Ran {steps} steps" :: (← s.state) ::
    (← s.showMemory 0 (some (min (origin + 0x10) capacity)))

def prepare (r : Request) (text : String) : Action Machine (List String) := do
  let nibbles ← Machine.readProgram (.str text)
  Machine.loadNibbles nibbles
  let values := r.assignments.map fun a => (a.register, a.value)
  modify (·.writeRegisters values)
  if r.listing then ofResult (listingLines (← get) nibbles.length) else pure []

def drive (r : Request) : Action Runner (List String) := do
  let trace ← Runner.run (some r.steps) (if r.trace then some {} else none)
  let traced ← ofResult (trace.seen.reverse.mapM traceLine)
  let m := (← get).machine
  let closing ← ofResult (closingLines m.snapshot m.origin m.capacity trace.steps)
  return traced ++ closing

/-- Loads and runs a program, and gives the lines to show. There is no clock before the program is
in memory. -/
def run (r : Request) (text : String) : Action Machine (List String) := do
  let listing ← r.prepare text
  let clock ← ofResult r.clock
  let shown ← Runner.withClock clock r.drive
  return listing ++ shown

def levelShown (r : Request) : Level := if r.debug then .debug else .warning

def perform (r : Request) (text : String) : Except Failure Report :=
  let outcome := r.run text (.fresh r.variant)
  let logged := Event.linesFrom r.levelShown outcome.events
  match outcome.answer with
  | .ok lines =>
    if r.output.isEmpty then .ok ⟨0, lines, logged, none⟩
    else
      match Store.writeRecord outcome.state.snapshot.toValue with
      | .ok document =>
        .ok ⟨0, lines ++ [s!"Writing snapshot to {r.output}"], logged, some document⟩
      | .error e => .error (.failed e)
  | .error e =>
    if e.kind = .program || e.kind = .capacity then .ok ⟨1, [], logged ++ [e.message], none⟩
    else .error (.failed e)

def answer (r : Request) (contents : Except FileError (List UInt8)) : Except Failure Report :=
  match contents with
  | .error .badPath => .error (.file .badPath)
  | .error e => .ok ⟨1, [], [e.message r.program], none⟩
  | .ok bytes =>
    match String.fromUTF8? ⟨bytes.toArray⟩ with
    | some text => r.perform text
    | none => .error .notText

end Request
end FourBit.Command
