import FourBit.Clock
import FourBit.Machine.Execute

/-! Runs: steps of a machine, one after the other, at the rate of a clock.
A run ends when a halt has been requested or its steps are used up. After each step an observer may
stop the run, reset the machine or speed the clock up, at cycle counts that it has chosen. -/
namespace FourBit

structure Runner where
  machine : Machine
  clock : Clock Float

/-- The cycle counts at which an observer steps in. -/
structure Observer where
  stopAt : Option Int := none
  resetAt : Option Int := none
  speedUpAt : Option Int := none
  deriving DecidableEq, Repr

/-- What a run has done: the steps taken, what the observer saw, and the waits, the latest first. -/
structure Trace where
  steps : Nat := 0
  seen : List Snapshot := []
  waits : List Float := []

namespace Runner
open FourBit.Action

def onMachine {α : Type} (x : Action Machine α) : Action Runner α := fun r =>
  let outcome := x r.machine
  ⟨outcome.answer, { r with machine := outcome.state }, outcome.events⟩

def withClock {α : Type} (clock : Clock Float) (x : Action Runner α) : Action Machine α := fun m =>
  let outcome := x ⟨m, clock⟩
  ⟨outcome.answer, outcome.state.machine, outcome.events⟩

def setClock (clock : Option (Clock Float)) : Action Runner Bool := do
  match clock with
  | some clock =>
    modify fun r => { r with clock }
    record (.clockSet clock.rateText)
    return true
  | none => return false

def speedUp : Action Runner Bool := do setClock (← get).clock.speedUp?

def slowDown : Action Runner Bool := do setClock (← get).clock.slowDown?

/-- Asks a run to end before its next step. -/
def stop : Action Runner Unit := onMachine Machine.requestHalt

def observe (observer : Observer) : Action Runner Snapshot := do
  let snapshot := (← get).machine.snapshot
  if observer.stopAt = some snapshot.cycles then stop
  if observer.resetAt = some snapshot.cycles then onMachine Machine.reset
  if observer.speedUpAt = some snapshot.cycles then discard speedUp
  return snapshot

def tick (observer : Option Observer) : Action Runner (List Snapshot) := do
  onMachine Machine.step
  match observer with
  | some observer => return [← observe observer]
  | none => return []

def wait (clock : Clock Float) : List Float := if clock.interval == 0 then [] else [clock.interval]

/-- Goes on with a run for at most so many steps, after the given trace and events, which are kept
the latest first. -/
def proceed (observer : Option Observer) (trace : Trace) (events : List Event) :
    Nat → Action Runner Trace
  | 0, r => ⟨.ok trace, r, events.reverse⟩
  | fuel + 1, r =>
    if r.machine.haltRequested then ⟨.ok trace, r, events.reverse⟩
    else
      match tick observer r with
      | ⟨.ok seen, r', new⟩ =>
        let trace := ⟨trace.steps + 1, seen ++ trace.seen, wait r.clock ++ trace.waits⟩
        proceed observer trace (new.reverse ++ events) fuel r'
      | ⟨.error e, r', new⟩ => ⟨.error e, r', (new.reverse ++ events).reverse⟩

/-- After how many steps an unlimited run that nobody stops is given up. -/
def patience : Nat := 100000

def leastPositive (counts : List Int) : Option Nat :=
  ((counts.filter (0 < ·)).map Int.toNat).min?

/-- The steps after which an observer has ended a run that has no limit of its own. -/
def horizon (observer : Option Observer) (cycles : Int) : Nat :=
  let ends := observer.elim [] fun o => [o.stopAt, o.resetAt].filterMap id
  (leastPositive (ends.map (· - cycles))).getD patience

def run (limit : Option Int) (observer : Option Observer) : Action Runner Trace := do
  onMachine (modify fun m => { m with haltRequested := false })
  if let some steps := limit then discard <| ofResult (writeDecimal steps)
  let r ← get
  record (.running r.clock.rateText limit)
  let fuel := limit.elim (horizon observer r.machine.cycles) Int.toNat
  let trace ← proceed observer {} [] fuel
  record (.stopped trace.steps)
  return trace

end Runner
end FourBit
