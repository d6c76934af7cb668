import FourBit.Proofs.Machine.Effect

/-! What every operation of a machine keeps within bounds.
Values stay below any multiple of sixteen that the modulus does not exceed, and the stack pointer
stays up to any address from the last operand and the boundary on, because a push is refused at
the boundary. A machine in range is one that is bounded by sixteen and its last address. -/
namespace FourBit

/-- Constants with which every machine stays in range. -/
structure Variant.Sound (v : Variant) : Prop where
  capacity_ge : 16 ≤ v.capacity
  origin_nonneg : 0 ≤ v.programOrigin
  modulus_le : v.arithModulus ≤ 16
  boundary_lt : v.stackBoundary < v.capacity

theorem Variant.builtin_sound : ∀ v ∈ Variant.builtin, v.Sound := by
  intro v hv
  rcases List.mem_cons.mp hv with rfl | hv
  · exact ⟨by decide, by decide, by decide, by decide⟩
  · rw [List.mem_singleton.mp hv]
    exact ⟨by decide, by decide, by decide, by decide⟩

/-- Bounds that suit the constants, one that values stay below and one that the stack pointer may
reach. A value below the bound can be named in a report. -/
structure Variant.Bounds (v : Variant) (limit reach : Int) : Prop where
  room : 16 ≤ v.capacity
  nibbles : 16 ∣ limit
  modulus_le : v.arithModulus ≤ limit
  writable : ∀ i, 0 ≤ i ∧ i < limit → Numeral.isWritable i = true
  operand_le : 15 ≤ reach
  boundary_le : v.stackBoundary ≤ reach
  reach_le : reach ≤ v.capacity

variable {limit reach : Int}

theorem Variant.Bounds.limit_ge {v : Variant} (hb : v.Bounds limit reach) : 16 ≤ limit := by
  have hpos : 0 < limit := Int.lt_of_lt_of_le v.modulus_pos hb.modulus_le
  exact Int.le_of_dvd hpos hb.nibbles

theorem Variant.Sound.bounds {v : Variant} (hv : v.Sound) (ho : 15 ≤ reach)
    (hb : v.stackBoundary ≤ reach) (hr : reach ≤ v.capacity) : v.Bounds 16 reach where
  room := hv.capacity_ge
  nibbles := Int.dvd_refl 16
  modulus_le := hv.modulus_le
  writable _ hi := Numeral.isWritable_of_lt (by omega)
  operand_le := ho
  boundary_le := hb
  reach_le := hr

namespace Machine
variable {m : Machine}

structure Bounded (m : Machine) (limit reach : Int) : Prop where
  memory_length : m.memory.length = m.capacity
  memory_value : ∀ i ∈ m.memory, 0 ≤ i ∧ i < limit
  a_value : 0 ≤ m.a ∧ m.a < limit
  b_value : 0 ≤ m.b ∧ m.b < limit
  c_value : 0 ≤ m.c ∧ m.c < limit
  pc_cell : 0 ≤ m.pc ∧ m.pc < m.capacity
  sp_le : 0 ≤ m.sp ∧ m.sp ≤ reach
  flags_length : m.flags.length = 4
  flags_bit : ∀ i ∈ m.flags, i = 0 ∨ i = 1

theorem InRange.bounded_of_le (h : m.InRange) (hr : m.sp ≤ reach) : m.Bounded 16 reach :=
  { h with
    memory_value := h.memory_nibble
    a_value := h.a_nibble
    b_value := h.b_nibble
    c_value := h.c_nibble
    sp_le := ⟨h.sp_cell.1, hr⟩ }

theorem InRange.bounded (h : m.InRange) : m.Bounded 16 (m.capacity - 1) :=
  h.bounded_of_le (Int.le_sub_one_of_lt h.sp_cell.2)

theorem Bounded.inRange (h : m.Bounded 16 reach) (hr : reach < m.capacity) : m.InRange :=
  { h with
    memory_nibble := h.memory_value
    a_nibble := h.a_value
    b_nibble := h.b_value
    c_nibble := h.c_value
    sp_cell := ⟨h.sp_le.1, Int.lt_of_le_of_lt h.sp_le.2 hr⟩ }

theorem Bounded.ready (h : m.Bounded limit reach) (hb : m.variant.Bounds limit reach) : m.Ready :=
  ⟨h.memory_length, hb.room, h.flags_length, h.sp_le.1, Int.le_trans h.sp_le.2 hb.reach_le⟩

theorem InRange.ready (h : m.InRange) (hv : m.variant.Sound) : m.Ready :=
  ⟨h.memory_length, hv.capacity_ge, h.flags_length, h.sp_cell.1, Int.le_of_lt h.sp_cell.2⟩

theorem capacity_pos (m : Machine) : 0 < m.capacity := m.variant.capacity_pos

theorem emod_capacity (m : Machine) (i : Int) : 0 ≤ i % m.capacity ∧ i % m.capacity < m.capacity :=
  ⟨Int.emod_nonneg _ (Int.ne_of_gt m.capacity_pos), Int.emod_lt_of_pos _ m.capacity_pos⟩

theorem current_of_cells (h : m.memory.length = m.capacity) {i : Nat} {x y : Int} (hpc : m.pc = i)
    (hx : m.memory[i]? = some x) (hy : m.memory[i + 1]? = some y) : m.current = ⟨x, y⟩ := by
  have hlt : i + 1 < m.memory.length := (List.getElem?_eq_some_iff.mp hy).1
  have hfirst : m.pc % m.capacity = (i : Nat) := by
    rw [hpc, Int.emod_eq_of_lt (by omega) (by omega)]
  have hsecond : ((i : Int) + 1) % m.capacity = (i + 1 : Nat) :=
    Int.emod_eq_of_lt (by omega) (by omega)
  rw [current, hfirst, hsecond, Machine.cell, Machine.cell, Int.toNat_natCast, Int.toNat_natCast,
    List.getD_eq_getElem?_getD, List.getD_eq_getElem?_getD, hx, hy]
  rfl

theorem bit_cases (b : Bool) : bit b = 0 ∨ bit b = 1 := by cases b <;> simp [bit]

theorem Bounded.cell (h : m.Bounded limit reach) {address : Int}
    (ha : 0 ≤ address ∧ address < m.capacity) :
    0 ≤ m.cell address ∧ m.cell address < limit := by
  have hn : address.toNat < m.memory.length := by
    have := h.memory_length
    omega
  rw [Machine.cell, List.getD_eq_getElem?_getD, List.getElem?_eq_getElem hn]
  exact h.memory_value _ (List.getElem_mem hn)

theorem InRange.cell (h : m.InRange) {address : Int} (ha : 0 ≤ address ∧ address < m.capacity) :
    0 ≤ m.cell address ∧ m.cell address < 16 :=
  h.bounded.cell ha

theorem Bounded.setCell (h : m.Bounded limit reach) (address : Int) {value : Int}
    (hv : 0 ≤ value ∧ value < limit) : (m.setCell address value).Bounded limit reach := by
  refine { h with memory_length := ?_, memory_value := ?_ }
  · rw [Machine.setCell, List.length_set]
    exact h.memory_length
  · intro i hi
    rcases List.mem_or_eq_of_mem_set hi with hi | rfl
    · exact h.memory_value i hi
    · exact hv

theorem Bounded.setFlag (h : m.Bounded limit reach) (f : Flag) {value : Int}
    (hv : value = 0 ∨ value = 1) : (m.setFlag f value).Bounded limit reach := by
  refine { h with flags_length := ?_, flags_bit := ?_ }
  · rw [Machine.setFlag, List.length_set]
    exact h.flags_length
  · intro i hi
    rcases List.mem_or_eq_of_mem_set hi with hi | rfl
    · exact h.flags_bit i hi
    · exact hv

theorem Bounded.setA (h : m.Bounded limit reach) {value : Int} (hv : 0 ≤ value ∧ value < limit) :
    { m with a := value }.Bounded limit reach := { h with a_value := hv }

theorem Bounded.setPc (h : m.Bounded limit reach) (value : Int) :
    { m with pc := value % m.capacity }.Bounded limit reach :=
  { h with pc_cell := m.emod_capacity value }

theorem Bounded.setSp (h : m.Bounded limit reach) {value : Int} (hv : 0 ≤ value ∧ value ≤ reach) :
    { m with sp := value }.Bounded limit reach := { h with sp_le := hv }

theorem Bounded.setFault (h : m.Bounded limit reach) (fault : Option Fault) :
    { m with lastFault := fault }.Bounded limit reach := { h with }

theorem Bounded.setCycles (h : m.Bounded limit reach) (cycles : Int) :
    { m with cycles := cycles }.Bounded limit reach := { h with }

theorem InRange.setHalt (h : m.InRange) (halt : Bool) :
    { m with haltRequested := halt }.InRange := { h with }

theorem Bounded.faulted (h : m.Bounded limit reach) (fault : Fault) :
    (m.faulted fault).Bounded limit reach := by
  cases fault with
  | stackOverflow | stackUnderflow => exact (h.setFlag .error (.inr rfl)).setFault _
  | invalidOperand | invalidOpcode => exact h.setFault _

theorem emod_modulus (hb : m.variant.Bounds limit reach) (i : Int) :
    0 ≤ i % m.variant.arithModulus ∧ i % m.variant.arithModulus < limit := by
  have hpos := m.variant.modulus_pos
  have hle := hb.modulus_le
  have hlt := Int.emod_lt_of_pos i hpos
  exact ⟨Int.emod_nonneg _ (by omega), by omega⟩

theorem Bounded.added (h : m.Bounded limit reach) (hb : m.variant.Bounds limit reach)
    (value : Int) :
    (m.added value).Bounded limit reach :=
  (h.setFlag .carry (bit_cases _)).setA (emod_modulus hb _)

theorem Bounded.subtracted (h : m.Bounded limit reach) (hb : m.variant.Bounds limit reach)
    (value : Int) : (m.subtracted value).Bounded limit reach :=
  ((h.setFlag .carry (bit_cases _)).setFlag .negative (bit_cases _)).setA (emod_modulus hb _)

theorem Bounded.combined (h : m.Bounded limit reach) (hb : m.variant.Bounds limit reach)
    (keep : Bool) {low : Nat} (hl : low < 16) : (m.combined keep low).Bounded limit reach := by
  apply h.setA
  have ha := h.a_value
  have hge := hb.limit_ge
  obtain ⟨k, rfl⟩ := hb.nibbles
  cases keep with
  | false =>
    rw [if_neg Bool.false_ne_true]
    omega
  | true =>
    rw [if_pos rfl, withLowNibble, lowNibble]
    omega

theorem Bounded.pushed (h : m.Bounded limit reach) (hb : m.variant.Bounds limit reach)
    (hs : ¬ m.variant.stackBoundary ≤ m.sp) (value : Int) :
    (m.pushed value).Bounded limit reach := by
  have hge := hb.limit_ge
  have hcell : (m.setCell m.sp (value % 16)).Bounded limit reach := h.setCell m.sp (by omega)
  apply hcell.setSp
  have := h.sp_le
  have := hb.boundary_le
  omega

theorem Bounded.popped (h : m.Bounded limit reach) (hz : m.sp ≠ 0) :
    m.popped.Bounded limit reach := by
  apply h.setSp
  have := h.sp_le
  omega

theorem Bounded.top (h : m.Bounded limit reach) (hb : m.variant.Bounds limit reach)
    (hz : m.sp ≠ 0) :
    0 ≤ m.top ∧ m.top < limit := by
  apply h.cell
  have := h.sp_le
  have : reach ≤ m.capacity := hb.reach_le
  omega

theorem Bounded.skipped (h : m.Bounded limit reach) (f : Flag) :
    (m.skipped f).Bounded limit reach := by
  unfold Machine.skipped
  split
  · exact h.setPc _
  · exact h

theorem Bounded.secondaryDone (h : m.Bounded limit reach) (hb : m.variant.Bounds limit reach)
    {s : Secondary} (hs : m.stackFault? s = none) : (m.secondaryDone s).Bounded limit reach := by
  cases s with
  | nop => exact h
  | pushA | pushPc => exact h.pushed hb (by simpa [stackFault?] using hs) _
  | popA =>
    have hz : m.sp ≠ 0 := by simpa [stackFault?] using hs
    exact (h.popped hz).setA (h.top hb hz)
  | popPc =>
    have hz : m.sp ≠ 0 := by simpa [stackFault?] using hs
    exact (h.popped hz).setPc _
  | swapAB => exact { h with a_value := h.b_value, b_value := h.a_value }
  | swapBC => exact { h with b_value := h.c_value, c_value := h.b_value }
  | skipCarry | skipNegative | skipEqual => exact h.skipped _
  | addB | addC => exact h.added hb _

theorem Bounded.primaryDone (h : m.Bounded limit reach) (hb : m.variant.Bounds limit reach)
    {operand : Nat} (ho : operand < 16) {p : Primary} (hp : p ≠ .secondary) :
    (m.primaryDone operand p).Bounded limit reach := by
  have hge := hb.limit_ge
  have hcell : 0 ≤ (operand : Int) ∧ (operand : Int) < m.capacity := by
    have : 16 ≤ m.capacity := hb.room
    omega
  have hlow := lowNibble_lt m.a
  cases p with
  | secondary => contradiction
  | lda => exact h.setA (h.cell hcell)
  | sta => exact h.setCell _ h.a_value
  | cmp | cmpi => exact h.setFlag .equal (bit_cases _)
  | add | addi => exact h.added hb _
  | sub | subi => exact h.subtracted hb _
  | and => exact h.combined hb _ (Nat.lt_of_le_of_lt Nat.and_le_right ho)
  | xor => exact h.combined hb _ (Nat.xor_lt_two_pow (n := 4) hlow ho)
  | or => exact h.combined hb _ (Nat.or_lt_two_pow (n := 4) hlow ho)
  | not => exact h.combined hb _ (by omega)
  | ldi => exact h.setA (by omega)
  | jmp => exact h.setPc _
  | lsp =>
    apply h.setSp
    have := hb.operand_le
    rw [Int.emod_eq_of_lt hcell.1 hcell.2]
    omega

theorem Bounded.performed (h : m.Bounded limit reach) (hb : m.variant.Bounds limit reach)
    (i : Instruction) : (m.performed i).Bounded limit reach := by
  cases hf : m.fault? i with
  | some fault =>
    rw [performed_of_some hf]
    exact h.faulted fault
  | none =>
    rw [performed_of_none hf]
    refine done_cases (motive := fun m' => m'.Bounded limit reach) hf ?_ ?_
    · intro s _ _ hs
      exact h.secondaryDone hb hs
    · intro p _ hp
      exact h.primaryDone hb (lowNibble_lt _) hp

theorem Bounded.next (h : m.Bounded limit reach) (hb : m.variant.Bounds limit reach) :
    m.next.Bounded limit reach :=
  (((h.setPc (m.pc + 2)).setFault none).performed hb m.current).setCycles _

theorem inRange_bounds (hv : m.variant.Sound) : m.variant.Bounds 16 (m.capacity - 1) := by
  have hc : 16 ≤ m.capacity := hv.capacity_ge
  have hb : m.variant.stackBoundary < m.capacity := hv.boundary_lt
  exact hv.bounds (by omega) (by omega) (Int.sub_le_self _ Int.one_nonneg)

theorem InRange.performed (h : m.InRange) (hv : m.variant.Sound) (i : Instruction) :
    (m.performed i).InRange := by
  apply (h.bounded.performed (inRange_bounds hv) i).inRange
  rw [capacity, capacity, performed_variant]
  omega

theorem InRange.fetched (h : m.InRange) : m.fetched.InRange :=
  { h with pc_cell := m.emod_capacity (m.pc + 2) }

theorem InRange.next (h : m.InRange) (hv : m.variant.Sound) : m.next.InRange := by
  have hs : m.started.InRange := { h.fetched with }
  exact { hs.performed hv m.current with }

theorem next_variant (m : Machine) : m.next.variant = m.variant :=
  performed_variant m.started m.current

theorem next_capacity (m : Machine) : m.next.capacity = m.capacity :=
  congrArg (·.capacity) (next_variant m)

theorem next_origin (m : Machine) : m.next.origin = m.origin :=
  congrArg (·.programOrigin) (next_variant m)

/-- A step leaves the stack pointer up to any address that it has not passed, from the last operand
and the boundary on. -/
theorem Ready.next_sp_le (h : m.Ready) (hs : m.sp ≤ reach) (ho : 15 ≤ reach)
    (hb : m.variant.stackBoundary ≤ reach) : 0 ≤ m.next.sp ∧ m.next.sp ≤ reach := by
  have hroom := h.room
  have hrange := h.sp_range
  have hnibble := lowNibble_lt m.current.operand
  have hpointer : (lowNibble m.current.operand : Int) % m.capacity = lowNibble m.current.operand :=
    Int.emod_eq_of_lt (by omega) (by omega)
  have hsp : m.next.sp = m.sp ∨ m.sp < m.variant.stackBoundary ∧ m.next.sp = m.sp + 1 ∨
      m.sp ≠ 0 ∧ m.next.sp = m.sp - 1 ∨
      m.next.sp = (lowNibble m.current.operand : Int) % m.capacity :=
    performed_sp m.started m.current
  omega

theorem Ready.next (h : m.Ready) : m.next.Ready := by
  obtain ⟨hmemory, hflags⟩ := performed_lengths m.started m.current
  have hroom := h.room
  have hreach := h.next_sp_le h.sp_range.2 (by omega) m.variant.boundary_le
  refine ⟨?_, ?_, hflags.trans h.flags_length, ?_⟩
  · rw [next_capacity, ← h.memory_length]
    exact congrArg Nat.cast hmemory
  · rw [next_capacity]
    exact hroom
  · rw [next_capacity]
    exact hreach

theorem next_lastFault (m : Machine) : m.next.lastFault = m.started.fault? m.current := by
  change (m.started.performed m.current).lastFault = _
  rw [performed_lastFault]
  simp [started]

theorem Bounded.current_opcode (h : m.Bounded limit reach) :
    0 ≤ m.current.opcode ∧ m.current.opcode < limit := h.cell (m.emod_capacity _)

theorem InRange.current_opcode (h : m.InRange) :
    0 ≤ m.current.opcode ∧ m.current.opcode < 16 := h.bounded.current_opcode

theorem ofCode?_isSome {code : Int} (h : 0 ≤ code ∧ code < 16) :
    (Primary.ofCode? code).isSome := by
  have hn : code.toNat < Primary.all.length := by
    change code.toNat < 16
    omega
  simp [Primary.ofCode?, h.1, List.getElem?_eq_getElem hn]

theorem fault?_ne_invalidOpcode {i : Instruction} (h : 0 ≤ i.opcode ∧ i.opcode < 16) :
    m.fault? i ≠ some .invalidOpcode := by
  obtain ⟨p, hp⟩ := Option.isSome_iff_exists.mp (ofCode?_isSome h)
  intro hf
  rcases fault?_eq_some_iff.mp hf with ⟨hnone, -⟩ | ⟨-, ⟨-, hc⟩ | ⟨s, -, hs⟩⟩
  · rw [hp] at hnone
    cases hnone
  · cases hc
  · rcases stackFault?_cases hs with hc | hc <;> cases hc

theorem Bounded.step_run (h : m.Bounded limit reach) (hb : m.variant.Bounds limit reach) :
    step m = ⟨.ok (), m.next, .fetched (m.pc % m.capacity) m.current ::
      (m.started.fault? m.current).toList.map (m.started.faultEvent m.current)⟩ :=
  Machine.step_run (h.ready hb) (hb.writable _ h.current_opcode)

theorem InRange.step_run (h : m.InRange) (hv : m.variant.Sound) :
    step m = ⟨.ok (), m.next, .fetched (m.pc % m.capacity) m.current ::
      (m.started.fault? m.current).toList.map (m.started.faultEvent m.current)⟩ :=
  h.bounded.step_run (inRange_bounds hv)

theorem fresh_memory_length (v : Variant) : (fresh v).memory.length = (fresh v).capacity := by
  have := v.capacity_pos
  simp only [fresh, List.length_replicate, capacity]
  omega

theorem fresh_bounded {v : Variant} (ho : 0 ≤ v.programOrigin) (hb : v.Bounds limit reach) :
    (fresh v).Bounded limit reach := by
  have hge := hb.limit_ge
  have hzero : (0 : Int) ≤ 0 ∧ 0 < limit := by omega
  refine ⟨fresh_memory_length v, ?_, hzero, hzero, hzero, ⟨ho, v.origin_lt⟩, ⟨Int.le_refl 0, ?_⟩,
    rfl, ?_⟩
  · intro i hi
    rw [List.eq_of_mem_replicate hi]
    exact hzero
  · have := hb.operand_le
    change 0 ≤ reach
    omega
  · simp [fresh]

theorem fresh_inRange {v : Variant} (hv : v.Sound) : (fresh v).InRange :=
  (fresh_bounded hv.origin_nonneg (inRange_bounds (m := fresh v) hv)).inRange
    (Int.sub_lt_self _ Int.one_pos)

theorem InRange.writeRegister (h : m.InRange) (r : Register) (value : Int) :
    (m.writeRegister r value).InRange := by
  cases r with
  | a => exact { h with a_nibble := by simp only [Machine.writeRegister]; omega }
  | b => exact { h with b_nibble := by simp only [Machine.writeRegister]; omega }
  | c => exact { h with c_nibble := by simp only [Machine.writeRegister]; omega }
  | pc => exact { h with pc_cell := m.emod_capacity value }
  | sp => exact { h with sp_cell := m.emod_capacity value }
  | f =>
    refine { h with flags_length := rfl, flags_bit := ?_ }
    intro i hi
    simp only [Machine.writeRegister, unpackFlags, List.mem_cons, List.not_mem_nil, or_false] at hi
    omega

theorem writeRegister_variant (m : Machine) (r : Register) (value : Int) :
    (m.writeRegister r value).variant = m.variant := by
  cases r <;> rfl

end Machine
end FourBit
