import FourBit.Machine

/-! Fetching and executing instructions.
Arithmetic is done modulo the variant's modulus and sets the flags from the exact result. What an
instruction cannot do is recorded as a fault, and the machine goes on with the next one. -/
namespace FourBit.Machine
open FourBit.Action

def readCell (address : Int) : Action Machine Int := do
  match Cells.get? (← get).memory address with
  | some value => return value
  | none => throw .outside

def writeCell (address value : Int) : Action Machine Unit := do
  match Cells.set? (← get).memory address value with
  | some memory => modify fun m => { m with memory }
  | none => throw .outside

def readFlag (flag : Flag) : Action Machine Int := do
  match (← get).flags[flag.place]? with
  | some value => return value
  | none => throw .outside

def writeFlag (flag : Flag) (value : Int) : Action Machine Unit := do
  if flag.place < (← get).flags.length then
    modify fun m => { m with flags := m.flags.set flag.place value }
  else throw .outside

def bit (condition : Bool) : Int := if condition then 1 else 0

def noteFault (fault : Fault) (event : Event) : Action Machine Unit := do
  record event
  modify fun m => { m with lastFault := some fault }

def stackFault (fault : Fault) : Action Machine Unit := do
  writeFlag .error 1
  noteFault fault (.stackFault fault (← get).sp)

/-- Adds to A; the carry tells that the sum is no nibble. -/
def add (value : Int) : Action Machine Unit := do
  let total := (← get).a + value
  writeFlag .carry (bit (15 < total))
  modify fun m => { m with a := total % m.variant.arithModulus }

/-- Subtracts from A; carry and negative tell of a borrow. -/
def sub (value : Int) : Action Machine Unit := do
  let difference := (← get).a - value
  writeFlag .carry (bit (difference < 0))
  writeFlag .negative (bit (difference < 0))
  modify fun m => { m with a := difference % m.variant.arithModulus }

def withLowNibble (i : Int) (nibble : Nat) : Int := i - lowNibble i + nibble

/-- Combines the low nibble of A with an operand bit by bit; `keep` tells whether the bits above
stay. -/
def combine (keep : Bool) (op : Nat → Nat → Nat) (operand : Nat) : Action Machine Unit :=
  modify fun m =>
    let low := op (lowNibble m.a) operand
    { m with a := if keep then withLowNibble m.a low else low }

def push (value : Int) : Action Machine Unit := do
  let m ← get
  if m.variant.stackBoundary ≤ m.sp then stackFault .stackOverflow
  else
    writeCell m.sp (value % 16)
    modify fun m => { m with sp := m.sp + 1 }

def pop : Action Machine (Option Int) := do
  if (← get).sp = 0 then
    stackFault .stackUnderflow
    return none
  else
    modify fun m => { m with sp := m.sp - 1 }
    return some (← readCell (← get).sp)

def jump (offset : Int) : Action Machine Unit :=
  modify fun m => { m with pc := (offset + m.origin) % m.capacity }

def skipIf (flag : Flag) : Action Machine Unit := do
  if (← readFlag flag) = 1 then
    modify fun m => { m with pc := (m.pc + m.variant.skipDistance) % m.capacity }

def executeSecondary : Secondary → Action Machine Unit
  | .nop => pure ()
  | .pushA => do push (← get).a
  | .popA => do
    if let some value ← pop then modify fun m => { m with a := value }
  | .pushPc => do
    let m ← get
    push (m.pc - m.origin)
  | .popPc => do
    if let some value ← pop then jump value
  | .swapAB => modify fun m => { m with a := m.b, b := m.a }
  | .swapBC => modify fun m => { m with b := m.c, c := m.b }
  | .skipCarry => skipIf .carry
  | .skipNegative => skipIf .negative
  | .skipEqual => skipIf .equal
  | .addB => do add (← get).b
  | .addC => do add (← get).c

def selectSecondary (v : Variant) (operand : Nat) : Option Secondary :=
  (Secondary.ofCode? operand).filter fun s => v.registerAdds || (s ≠ .addB && s ≠ .addC)

def executePrimary (operand : Nat) : Primary → Action Machine Unit
  | .secondary => do
    match selectSecondary (← get).variant operand with
    | some s => executeSecondary s
    | none => noteFault .invalidOperand (.badOperand operand)
  | .lda => do
    let value ← readCell operand
    modify fun m => { m with a := value }
  | .sta => do writeCell operand (← get).a
  | .cmp | .cmpi => do writeFlag .equal (bit ((← get).a == operand))
  | .add => do add (← readCell operand)
  | .sub | .subi => sub operand
  | .and => combine false (· &&& ·) operand
  | .xor => combine true (· ^^^ ·) operand
  | .or => combine true (· ||| ·) operand
  | .not => combine true (fun low _ => 15 - low) operand
  | .ldi => modify fun m => { m with a := operand }
  | .jmp => jump operand
  | .lsp => modify fun m => { m with sp := operand % m.capacity }
  | .addi => add operand

/-- Executes an instruction that has been fetched. Of its operand only the low nibble counts. -/
def execute (i : Instruction) : Action Machine Unit := do
  match Primary.ofCode? i.opcode with
  | some p => executePrimary (lowNibble i.operand) p
  | none =>
    discard <| ofResult (writeDecimal i.opcode)
    noteFault .invalidOpcode (.badOpcode i.opcode)

def fetchCell : Action Machine Int := do
  let value ← readCell (← get).pc
  modify fun m => { m with pc := (m.pc + 1) % m.capacity }
  return value

def fetch : Action Machine Instruction := do
  let opcode ← fetchCell
  let operand ← fetchCell
  return ⟨opcode, operand⟩

def step : Action Machine Unit := do
  modify fun m => { m with lastFault := none, pc := m.pc % m.capacity }
  let address := (← get).pc
  let i ← fetch
  record (.fetched address i)
  execute i
  modify fun m => { m with cycles := m.cycles + 1 }

end FourBit.Machine
