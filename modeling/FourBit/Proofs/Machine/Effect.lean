import FourBit.Machine.Execute

/-! What operations make of a machine whose parts have their sizes.
An instruction is refused with a fault, which leaves nothing but the fault behind, or it is carried
out; both are functions from machine to machine, and executing the instruction computes them. -/
namespace FourBit.Machine
open FourBit.Action

/-- Memory and flags have their sizes, an operand is an address, and the stack pointer is one or
stands at the end of memory. -/
structure Ready (m : Machine) : Prop where
  memory_length : m.memory.length = m.capacity
  room : 16 ≤ m.capacity
  flags_length : m.flags.length = 4
  sp_range : 0 ≤ m.sp ∧ m.sp ≤ m.capacity

def cell (m : Machine) (address : Int) : Int := m.memory.getD address.toNat 0

def flag (m : Machine) (f : Flag) : Int := m.flags.getD f.place 0

def setCell (m : Machine) (address value : Int) : Machine :=
  { m with memory := m.memory.set address.toNat value }

def setFlag (m : Machine) (f : Flag) (value : Int) : Machine :=
  { m with flags := m.flags.set f.place value }

theorem flag_setFlag {m : Machine} (h : m.flags.length = 4) (f g : Flag) (value : Int) :
    (m.setFlag f value).flag g = if f = g then value else m.flag g := by
  have hf : f.place < m.flags.length := by cases f <;> simp [h, Flag.place]
  simp only [flag, setFlag, List.getD_eq_getElem?_getD]
  by_cases hfg : f = g
  · rw [if_pos hfg, ← hfg, List.getElem?_set_self hf, Option.getD_some]
  · have hplace : f.place ≠ g.place := mt Flag.place_inj.mp hfg
    rw [if_neg hfg, List.getElem?_set_ne hplace]

/-- A refused instruction leaves its fault, and one that failed on the stack sets the error flag. -/
def faulted (m : Machine) (fault : Fault) : Machine :=
  match fault with
  | .stackOverflow | .stackUnderflow => { m.setFlag .error 1 with lastFault := some fault }
  | .invalidOperand | .invalidOpcode => { m with lastFault := some fault }

def added (m : Machine) (value : Int) : Machine :=
  { m.setFlag .carry (bit (15 < m.a + value)) with
    a := (m.a + value) % m.variant.arithModulus }

def subtracted (m : Machine) (value : Int) : Machine :=
  let borrow := bit (m.a - value < 0)
  { (m.setFlag .carry borrow).setFlag .negative borrow with
    a := (m.a - value) % m.variant.arithModulus }

def combined (m : Machine) (keep : Bool) (low : Nat) : Machine :=
  { m with a := if keep then withLowNibble m.a low else low }

def pushed (m : Machine) (value : Int) : Machine :=
  { m.setCell m.sp (value % 16) with sp := m.sp + 1 }

def top (m : Machine) : Int := m.cell (m.sp - 1)

def popped (m : Machine) : Machine := { m with sp := m.sp - 1 }

def jumped (m : Machine) (offset : Int) : Machine :=
  { m with pc := (offset + m.origin) % m.capacity }

def skipped (m : Machine) (f : Flag) : Machine :=
  if m.flag f = 1 then { m with pc := (m.pc + m.variant.skipDistance) % m.capacity } else m

theorem skipped_eq (m : Machine) (f : Flag) :
    m.skipped f = { m with pc := (m.skipped f).pc } := by
  unfold skipped
  split <;> rfl

def stackFault? (m : Machine) : Secondary → Option Fault
  | .pushA | .pushPc => if m.variant.stackBoundary ≤ m.sp then some .stackOverflow else none
  | .popA | .popPc => if m.sp = 0 then some .stackUnderflow else none
  | _ => none

def secondaryDone (m : Machine) : Secondary → Machine
  | .nop => m
  | .pushA => m.pushed m.a
  | .popA => { m.popped with a := m.top }
  | .pushPc => m.pushed (m.pc - m.origin)
  | .popPc => m.popped.jumped m.top
  | .swapAB => { m with a := m.b, b := m.a }
  | .swapBC => { m with b := m.c, c := m.b }
  | .skipCarry => m.skipped .carry
  | .skipNegative => m.skipped .negative
  | .skipEqual => m.skipped .equal
  | .addB => m.added m.b
  | .addC => m.added m.c

def primaryDone (m : Machine) (operand : Nat) : Primary → Machine
  | .secondary => ((selectSecondary m.variant operand).map m.secondaryDone).getD m
  | .lda => { m with a := m.cell operand }
  | .sta => m.setCell operand m.a
  | .cmp | .cmpi => m.setFlag .equal (bit (m.a == operand))
  | .add => m.added (m.cell operand)
  | .sub | .subi => m.subtracted operand
  | .and => m.combined false (lowNibble m.a &&& operand)
  | .xor => m.combined true (lowNibble m.a ^^^ operand)
  | .or => m.combined true (lowNibble m.a ||| operand)
  | .not => m.combined true (15 - lowNibble m.a)
  | .ldi => { m with a := operand }
  | .jmp => m.jumped operand
  | .lsp => { m with sp := operand % m.capacity }
  | .addi => m.added operand

def fault? (m : Machine) (i : Instruction) : Option Fault :=
  match Primary.ofCode? i.opcode with
  | some .secondary =>
    match selectSecondary m.variant (lowNibble i.operand) with
    | some s => m.stackFault? s
    | none => some .invalidOperand
  | some _ => none
  | none => some .invalidOpcode

def faultEvent (m : Machine) (i : Instruction) : Fault → Event
  | .invalidOpcode => .badOpcode i.opcode
  | .invalidOperand => .badOperand (lowNibble i.operand)
  | .stackOverflow => .stackFault .stackOverflow m.sp
  | .stackUnderflow => .stackFault .stackUnderflow m.sp

/-- The machine after an instruction that is not refused. -/
def done (m : Machine) (i : Instruction) : Machine :=
  ((Primary.ofCode? i.opcode).map (m.primaryDone (lowNibble i.operand))).getD m

def performed (m : Machine) (i : Instruction) : Machine :=
  match m.fault? i with
  | some fault => m.faulted fault
  | none => m.done i

theorem performed_of_some {m : Machine} {i : Instruction} {fault : Fault}
    (h : m.fault? i = some fault) : m.performed i = m.faulted fault := by
  rw [performed, h]

theorem performed_of_none {m : Machine} {i : Instruction} (h : m.fault? i = none) :
    m.performed i = m.done i := by
  rw [performed, h]

/-- An instruction that is not refused is one of opcode zero that the stack allows, or it is one of
another opcode. -/
theorem done_cases {motive : Machine → Prop} {m : Machine} {i : Instruction}
    (h : m.fault? i = none)
    (secondary : ∀ s, Primary.ofCode? i.opcode = some .secondary →
      selectSecondary m.variant (lowNibble i.operand) = some s → m.stackFault? s = none →
        motive (m.secondaryDone s))
    (primary : ∀ p, Primary.ofCode? i.opcode = some p → p ≠ .secondary →
      motive (m.primaryDone (lowNibble i.operand) p)) : motive (m.done i) := by
  cases hp : Primary.ofCode? i.opcode with
  | none => simp [fault?, hp] at h
  | some p =>
    by_cases hs : p = .secondary
    · subst hs
      cases hsel : selectSecondary m.variant (lowNibble i.operand) with
      | none => simp [fault?, hp, hsel] at h
      | some s =>
        have hq : m.stackFault? s = none := by simpa [fault?, hp, hsel] using h
        simpa [done, hp, primaryDone, hsel] using secondary s hp hsel hq
    · simpa [done, hp] using primary p hp hs

/-- An instruction is refused because nothing has its opcode, because no operation has its operand,
or by the stack. -/
theorem fault?_eq_some_iff {m : Machine} {i : Instruction} {fault : Fault} :
    m.fault? i = some fault ↔
      Primary.ofCode? i.opcode = none ∧ fault = .invalidOpcode ∨
        Primary.ofCode? i.opcode = some .secondary ∧
          (selectSecondary m.variant (lowNibble i.operand) = none ∧ fault = .invalidOperand ∨
            ∃ s, selectSecondary m.variant (lowNibble i.operand) = some s ∧
              m.stackFault? s = some fault) := by
  rw [fault?]
  cases Primary.ofCode? i.opcode with
  | none => simp [eq_comm]
  | some p =>
    cases p with
    | secondary => cases selectSecondary m.variant (lowNibble i.operand) <;> simp [eq_comm]
    | _ => simp

/-- What no instruction changes, unless it is refused. -/
structure Keeps (m m' : Machine) : Prop where
  variant : m'.variant = m.variant
  lastFault : m'.lastFault = m.lastFault
  cycles : m'.cycles = m.cycles
  haltRequested : m'.haltRequested = m.haltRequested

theorem keeps_secondaryDone (m : Machine) (s : Secondary) : m.Keeps (m.secondaryDone s) := by
  have hskip (f : Flag) : m.Keeps (m.skipped f) := by
    rw [skipped_eq]
    exact ⟨rfl, rfl, rfl, rfl⟩
  cases s with
  | skipCarry | skipNegative | skipEqual => exact hskip _
  | _ => exact ⟨rfl, rfl, rfl, rfl⟩

theorem keeps_primaryDone (m : Machine) (operand : Nat) {p : Primary} (hp : p ≠ .secondary) :
    m.Keeps (m.primaryDone operand p) := by
  cases p with
  | secondary => contradiction
  | _ => exact ⟨rfl, rfl, rfl, rfl⟩

theorem lowNibble_lt (i : Int) : lowNibble i < 16 := by
  unfold lowNibble
  omega

theorem lowNibble_of_lt {i : Int} (h : 0 ≤ i ∧ i < 16) : (lowNibble i : Int) = i := by
  unfold lowNibble
  omega

theorem readCell_run {m : Machine} {address : Int} (h : m.memory.length = m.capacity)
    (ha : 0 ≤ address ∧ address < m.capacity) :
    readCell address m = ⟨.ok (m.cell address), m, []⟩ := by
  have hn : address.toNat < m.memory.length := by omega
  simp [readCell, Cells.get?_of_lt (h ▸ ha), cell, List.getD_eq_getElem?_getD,
    List.getElem?_eq_getElem hn]

theorem writeCell_run {m : Machine} {address : Int} (value : Int)
    (h : m.memory.length = m.capacity) (ha : 0 ≤ address ∧ address < m.capacity) :
    writeCell address value m = ⟨.ok (), m.setCell address value, []⟩ := by
  simp [writeCell, Cells.set?, Cells.place?_of_lt (h ▸ ha), setCell]

theorem readFlag_run {m : Machine} (h : m.flags.length = 4) (f : Flag) :
    readFlag f m = ⟨.ok (m.flag f), m, []⟩ := by
  have hf : f.place < m.flags.length := by cases f <;> simp [h, Flag.place]
  simp [readFlag, flag, List.getD_eq_getElem?_getD, List.getElem?_eq_getElem hf]

theorem writeFlag_run {m : Machine} (h : m.flags.length = 4) (f : Flag) (value : Int) :
    writeFlag f value m = ⟨.ok (), m.setFlag f value, []⟩ := by
  have hf : f.place < m.flags.length := by cases f <;> simp [h, Flag.place]
  simp [writeFlag, hf, setFlag]

private theorem stackFault_run {m : Machine} (h : m.flags.length = 4) (fault : Fault) :
    stackFault fault m = ⟨.ok (), { m.setFlag .error 1 with lastFault := some fault },
      [.stackFault fault m.sp]⟩ := by
  simp [stackFault, writeFlag_run h, noteFault, setFlag]

theorem add_run {m : Machine} (h : m.flags.length = 4) (value : Int) :
    add value m = ⟨.ok (), m.added value, []⟩ := by
  simp [add, writeFlag_run h, added, setFlag]

theorem sub_run {m : Machine} (h : m.flags.length = 4) (value : Int) :
    sub value m = ⟨.ok (), m.subtracted value, []⟩ := by
  have hc (b : Int) : (m.setFlag .carry b).flags.length = 4 := by simp [setFlag, h]
  simp only [sub, bind_run, get_run, modify_run, writeFlag_run h, writeFlag_run (hc _)]
  rfl

private theorem push_run {m : Machine} (h : m.Ready) (value : Int) :
    push value m =
      if m.variant.stackBoundary ≤ m.sp then
        ⟨.ok (), m.faulted .stackOverflow, [.stackFault .stackOverflow m.sp]⟩
      else ⟨.ok (), m.pushed value, []⟩ := by
  by_cases hb : m.variant.stackBoundary ≤ m.sp
  · simp [push, hb, stackFault_run h.flags_length, faulted]
  · have ha : 0 ≤ m.sp ∧ m.sp < m.capacity := by
      have := h.sp_range
      have : m.variant.stackBoundary ≤ m.capacity := m.variant.boundary_le
      omega
    simp [push, hb, writeCell_run _ h.memory_length ha, pushed, setCell]

private theorem pop_run {m : Machine} (h : m.Ready) :
    pop m =
      if m.sp = 0 then
        ⟨.ok none, m.faulted .stackUnderflow, [.stackFault .stackUnderflow m.sp]⟩
      else ⟨.ok (some m.top), m.popped, []⟩ := by
  by_cases hz : m.sp = 0
  · simp [pop, hz, stackFault_run h.flags_length, faulted]
  · have ha : 0 ≤ m.popped.sp ∧ m.popped.sp < m.popped.capacity := by
      have := h.sp_range
      simp only [popped, capacity] at *
      omega
    have hr := readCell_run (m := m.popped) h.memory_length ha
    simp only [popped] at hr
    simp [pop, hz, hr, popped, top, cell]

private theorem skipIf_run {m : Machine} (h : m.flags.length = 4) (f : Flag) :
    skipIf f m = ⟨.ok (), m.skipped f, []⟩ := by
  by_cases hf : m.flag f = 1
  · simp [skipIf, readFlag_run h, hf, skipped, capacity]
  · simp [skipIf, readFlag_run h, hf, skipped]

theorem stackFault?_cases {m : Machine} {s : Secondary} {fault : Fault}
    (h : m.stackFault? s = some fault) : fault = .stackOverflow ∨ fault = .stackUnderflow := by
  cases s <;> simp [stackFault?] at h <;> simp [← h.2]

theorem executeSecondary_run {m : Machine} (h : m.Ready) (s : Secondary) :
    executeSecondary s m =
      match m.stackFault? s with
      | some fault => ⟨.ok (), m.faulted fault, [.stackFault fault m.sp]⟩
      | none => ⟨.ok (), m.secondaryDone s, []⟩ := by
  cases s with
  | nop | swapAB | swapBC => rfl
  | pushA | pushPc =>
    by_cases hb : m.variant.stackBoundary ≤ m.sp <;>
      simp [executeSecondary, stackFault?, push_run h, hb, secondaryDone]
  | popA =>
    by_cases hz : m.sp = 0 <;> simp [executeSecondary, stackFault?, pop_run h, hz, secondaryDone]
  | popPc =>
    by_cases hz : m.sp = 0 <;>
      simp [executeSecondary, stackFault?, pop_run h, hz, secondaryDone, jump, jumped]
  | skipCarry | skipNegative | skipEqual =>
    simp [executeSecondary, stackFault?, secondaryDone, skipIf_run h.flags_length]
  | addB | addC => simp [executeSecondary, stackFault?, secondaryDone, add_run h.flags_length]

private theorem executePrimary_run {m : Machine} (h : m.Ready) {operand : Nat}
    (ho : operand < 16) {p : Primary} (hp : p ≠ .secondary) :
    executePrimary operand p m = ⟨.ok (), m.primaryDone operand p, []⟩ := by
  have ha : 0 ≤ (operand : Int) ∧ (operand : Int) < m.capacity := by
    have := h.room
    omega
  cases p with
  | secondary => contradiction
  | lda => simp [executePrimary, readCell_run h.memory_length ha, primaryDone]
  | sta => simp [executePrimary, writeCell_run _ h.memory_length ha, primaryDone]
  | cmp | cmpi => simp [executePrimary, writeFlag_run h.flags_length, primaryDone]
  | add =>
    simp [executePrimary, readCell_run h.memory_length ha, add_run h.flags_length, primaryDone]
  | addi => simp [executePrimary, add_run h.flags_length, primaryDone]
  | sub | subi => simp [executePrimary, sub_run h.flags_length, primaryDone]
  | and | xor | or | not => simp [executePrimary, combine, primaryDone, combined]
  | ldi | jmp | lsp => rfl

theorem execute_run {m : Machine} (h : m.Ready) {i : Instruction}
    (hw : Numeral.isWritable i.opcode = true) :
    execute i m = ⟨.ok (), m.performed i, (m.fault? i).toList.map (m.faultEvent i)⟩ := by
  cases hp : Primary.ofCode? i.opcode with
  | none =>
    simp [execute, hp, writeDecimal, hw, Except.map, noteFault, performed, fault?, faulted,
      faultEvent]
  | some p =>
    by_cases hs : p = .secondary
    · subst hs
      cases hsel : selectSecondary m.variant (lowNibble i.operand) with
      | none =>
        simp [execute, hp, executePrimary, hsel, noteFault, performed, fault?, faulted, faultEvent]
      | some s =>
        have hf : m.fault? i = m.stackFault? s := by simp [fault?, hp, hsel]
        cases hq : m.stackFault? s with
        | none =>
          simp [execute, hp, executePrimary, hsel, executeSecondary_run h, hf, hq, performed, done,
            primaryDone]
        | some fault =>
          obtain rfl | rfl := stackFault?_cases hq <;>
            simp [execute, hp, executePrimary, hsel, executeSecondary_run h, hf, hq, performed,
              faultEvent]
    · have hn : m.fault? i = none := by
        cases p <;> simp_all [fault?]
      simp [execute, hp, executePrimary_run h (lowNibble_lt _) hs, performed, hn, done]

def current (m : Machine) : Instruction :=
  ⟨m.cell (m.pc % m.capacity), m.cell ((m.pc % m.capacity + 1) % m.capacity)⟩

def fetched (m : Machine) : Machine := { m with pc := (m.pc + 2) % m.capacity }

def started (m : Machine) : Machine := { m.fetched with lastFault := none }

def next (m : Machine) : Machine :=
  let m' := m.started.performed m.current
  { m' with cycles := m'.cycles + 1 }

theorem keeps_done {m : Machine} {i : Instruction} (h : m.fault? i = none) :
    m.Keeps (m.done i) := by
  apply done_cases h
  · intro s _ _ _
    exact m.keeps_secondaryDone s
  · intro p _ hp
    exact m.keeps_primaryDone _ hp

theorem faulted_variant (m : Machine) (fault : Fault) : (m.faulted fault).variant = m.variant := by
  cases fault <;> rfl

theorem faulted_lastFault (m : Machine) (fault : Fault) :
    (m.faulted fault).lastFault = some fault := by
  cases fault <;> rfl

theorem performed_variant (m : Machine) (i : Instruction) :
    (m.performed i).variant = m.variant := by
  cases h : m.fault? i with
  | some fault => rw [performed_of_some h, faulted_variant]
  | none => rw [performed_of_none h, (keeps_done h).variant]

theorem performed_lastFault (m : Machine) (i : Instruction) :
    (m.performed i).lastFault = (m.fault? i).or m.lastFault := by
  cases h : m.fault? i with
  | some fault => rw [performed_of_some h, faulted_lastFault, Option.some_or]
  | none => rw [performed_of_none h, (keeps_done h).lastFault, Option.none_or]

theorem performed_cycles (m : Machine) (i : Instruction) :
    (m.performed i).cycles = m.cycles := by
  cases h : m.fault? i with
  | some fault =>
    rw [performed_of_some h]
    cases fault <;> rfl
  | none => rw [performed_of_none h, (keeps_done h).cycles]

theorem performed_lengths (m : Machine) (i : Instruction) :
    (m.performed i).memory.length = m.memory.length ∧
      (m.performed i).flags.length = m.flags.length := by
  have hset (cells : List Int) (k : Nat) (value : Int) :
      (cells.set k value).length = cells.length :=
    List.length_set
  have hskip (f : Flag) : (m.skipped f).memory.length = m.memory.length ∧
      (m.skipped f).flags.length = m.flags.length := by
    rw [skipped_eq]
    exact ⟨rfl, rfl⟩
  cases hf : m.fault? i with
  | some fault =>
    rw [performed_of_some hf]
    cases fault with
    | stackOverflow | stackUnderflow => exact ⟨rfl, hset _ _ _⟩
    | invalidOperand | invalidOpcode => exact ⟨rfl, rfl⟩
  | none =>
    rw [performed_of_none hf]
    refine done_cases (motive := fun m' => m'.memory.length = m.memory.length ∧
      m'.flags.length = m.flags.length) hf ?_ ?_
    · intro s _ _ _
      cases s with
      | pushA | pushPc => exact ⟨hset _ _ _, rfl⟩
      | skipCarry | skipNegative | skipEqual => exact hskip _
      | addB | addC => exact ⟨rfl, hset _ _ _⟩
      | _ => exact ⟨rfl, rfl⟩
    · intro p _ hp
      cases p with
      | secondary => contradiction
      | sta => exact ⟨hset _ _ _, rfl⟩
      | cmp | cmpi | add | addi => exact ⟨rfl, hset _ _ _⟩
      | sub | subi => exact ⟨rfl, (hset _ _ _).trans (hset _ _ _)⟩
      | _ => exact ⟨rfl, rfl⟩

theorem performed_sp (m : Machine) (i : Instruction) :
    (m.performed i).sp = m.sp ∨
      m.sp < m.variant.stackBoundary ∧ (m.performed i).sp = m.sp + 1 ∨
      m.sp ≠ 0 ∧ (m.performed i).sp = m.sp - 1 ∨
      (m.performed i).sp = lowNibble i.operand % m.capacity := by
  have hskip (f : Flag) : (m.skipped f).sp = m.sp := by rw [skipped_eq]
  cases hf : m.fault? i with
  | some fault =>
    rw [performed_of_some hf]
    cases fault <;> exact .inl rfl
  | none =>
    rw [performed_of_none hf]
    refine done_cases (motive := fun m' => m'.sp = m.sp ∨
      m.sp < m.variant.stackBoundary ∧ m'.sp = m.sp + 1 ∨ m.sp ≠ 0 ∧ m'.sp = m.sp - 1 ∨
      m'.sp = lowNibble i.operand % m.capacity) hf ?_ ?_
    · intro s _ _ hs
      cases s with
      | pushA | pushPc => exact .inr (.inl ⟨by simpa [stackFault?] using hs, rfl⟩)
      | popA | popPc => exact .inr (.inr (.inl ⟨by simpa [stackFault?] using hs, rfl⟩))
      | skipCarry | skipNegative | skipEqual => exact .inl (hskip _)
      | _ => exact .inl rfl
    · intro p _ hp
      cases p with
      | secondary => contradiction
      | lsp => exact .inr (.inr (.inr rfl))
      | _ => exact .inl rfl

private theorem secondaryDone_setHalt (m : Machine) (halt : Bool) (s : Secondary) :
    { m with haltRequested := halt }.secondaryDone s =
      { m.secondaryDone s with haltRequested := halt } := by
  have hskip (f : Flag) : { m with haltRequested := halt }.skipped f =
      { m.skipped f with haltRequested := halt } := by
    by_cases hf : m.flag f = 1
    · have hf' : { m with haltRequested := halt }.flag f = 1 := hf
      rw [skipped, skipped, if_pos hf, if_pos hf']
      rfl
    · have hf' : ¬ { m with haltRequested := halt }.flag f = 1 := hf
      rw [skipped, skipped, if_neg hf, if_neg hf']
  cases s with
  | skipCarry | skipNegative | skipEqual => exact hskip _
  | _ => rfl

theorem performed_setHalt (m : Machine) (halt : Bool) (i : Instruction) :
    { m with haltRequested := halt }.performed i =
      { m.performed i with haltRequested := halt } := by
  have hf : { m with haltRequested := halt }.fault? i = m.fault? i := rfl
  unfold performed
  rw [hf]
  cases m.fault? i with
  | some fault => cases fault <;> rfl
  | none =>
    simp only [done]
    cases Primary.ofCode? i.opcode with
    | none => rfl
    | some p =>
      cases p with
      | secondary =>
        simp only [Option.map_some, Option.getD_some, primaryDone]
        cases selectSecondary m.variant (lowNibble i.operand) with
        | none => rfl
        | some s => exact secondaryDone_setHalt m halt s
      | _ => rfl

private theorem fetchCell_run {m : Machine} (h : m.memory.length = m.capacity)
    (hp : 0 ≤ m.pc ∧ m.pc < m.capacity) :
    fetchCell m = ⟨.ok (m.cell m.pc), { m with pc := (m.pc + 1) % m.capacity }, []⟩ := by
  simp [fetchCell, readCell_run h hp, capacity]

theorem fetch_run {m : Machine} (h : m.memory.length = m.capacity)
    (hp : 0 ≤ m.pc ∧ m.pc < m.capacity) : fetch m = ⟨.ok m.current, m.fetched, []⟩ := by
  have hq : 0 ≤ (m.pc + 1) % m.capacity ∧ (m.pc + 1) % m.capacity < m.capacity :=
    ⟨Int.emod_nonneg _ (by omega), Int.emod_lt_of_pos _ (by omega)⟩
  have hr := fetchCell_run (m := { m with pc := (m.pc + 1) % m.capacity }) h hq
  have hm : m.pc % m.capacity = m.pc := Int.emod_eq_of_lt hp.1 hp.2
  simp only [fetch, bind_run, fetchCell_run h hp, hr, pure_run, current, hm, fetched]
  simp [cell, capacity, Int.add_assoc]

theorem step_fetched {m : Machine} (h : m.memory.length = m.capacity) :
    step m = (do
      record (.fetched (m.pc % m.capacity) m.current)
      execute m.current
      modify fun m => { m with cycles := m.cycles + 1 } : Action Machine Unit) m.started := by
  let start : Machine := { m with lastFault := none, pc := m.pc % m.capacity }
  have hpos : 0 < m.capacity := m.variant.capacity_pos
  have hrun := fetch_run (m := start) h
    ⟨Int.emod_nonneg _ (Int.ne_of_gt hpos), Int.emod_lt_of_pos _ hpos⟩
  have hcurrent : start.current = m.current := by simp [start, current, cell, capacity]
  have hfetched : start.fetched = m.started := by simp [start, fetched, started, capacity]
  rw [hcurrent, hfetched] at hrun
  simp [step, show fetch { m with lastFault := none, pc := m.pc % m.capacity } = _ from hrun]

theorem step_run {m : Machine} (h : m.Ready) (hw : Numeral.isWritable m.current.opcode = true) :
    step m = ⟨.ok (), m.next, .fetched (m.pc % m.capacity) m.current ::
      (m.started.fault? m.current).toList.map (m.started.faultEvent m.current)⟩ := by
  have hstarted : m.started.Ready := ⟨h.memory_length, h.room, h.flags_length, h.sp_range⟩
  rw [step_fetched h.memory_length]
  simp [execute_run hstarted hw, next]

end FourBit.Machine
