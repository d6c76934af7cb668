import Mathlib.Data.List.Nodup
import FourBit.Machine

/-! Registers as places that are read and written.
A register keeps of a value what it has room for, and the rest of the machine does not notice. So
what registers are set to does not depend on the order in which it is done, and the registers of one
machine can be put into another. -/
namespace FourBit.Machine
variable {m m' : Machine} {r q : Register}

/-- Every register within its width, whatever memory holds. -/
structure RegistersInRange (m : Machine) : Prop where
  a_nibble : 0 ≤ m.a ∧ m.a < 16
  b_nibble : 0 ≤ m.b ∧ m.b < 16
  c_nibble : 0 ≤ m.c ∧ m.c < 16
  pc_cell : 0 ≤ m.pc ∧ m.pc < m.capacity
  sp_cell : 0 ≤ m.sp ∧ m.sp < m.capacity
  flags_length : m.flags.length = 4
  flags_bit : ∀ i ∈ m.flags, i = 0 ∨ i = 1

/-- How many values there are for a register. -/
def span (m : Machine) : Register → Int
  | .pc | .sp => m.capacity
  | .a | .b | .c | .f => 16

/-- Machines that differ in one register at most. -/
structure SameBut (r : Register) (m m' : Machine) : Prop where
  registers : ∀ q ≠ r, m'.readRegister q = m.readRegister q ∧
    m'.snapshot.contents q = m.snapshot.contents q
  variant : m'.variant = m.variant
  memory : m'.memory = m.memory
  lastFault : m'.lastFault = m.lastFault
  cycles : m'.cycles = m.cycles
  haltRequested : m'.haltRequested = m.haltRequested

/-- What is read of a register is what was written to it last, as far as it has room for that, and
writing it touches nothing else. -/
structure Lawful (m : Machine) (r : Register) : Prop where
  read_write : ∀ v, (m.writeRegister r v).readRegister r = v % m.span r
  write_same_but : ∀ v, SameBut r m (m.writeRegister r v)
  write_read : m.writeRegister r (m.readRegister r) = m
  write_write : ∀ v w, (m.writeRegister r v).writeRegister r w = m.writeRegister r w
  write_comm : ∀ q ≠ r, ∀ v w,
    (m.writeRegister r v).writeRegister q w = (m.writeRegister q w).writeRegister r v

theorem packFlags_unpackFlags (v : Int) : packFlags (unpackFlags v) = v % 16 := by
  simp only [unpackFlags, packFlags]
  omega

theorem unpackFlags_packFlags {flags : List Int} (hl : flags.length = 4)
    (hb : ∀ i ∈ flags, i = 0 ∨ i = 1) : unpackFlags (packFlags flags) = flags := by
  obtain ⟨w, x, y, z, rfl⟩ := List.length_eq_four.mp hl
  simp only [List.forall_mem_cons] at hb
  obtain ⟨hw, hx, hy, hz, -⟩ := hb
  simp only [packFlags, unpackFlags, List.cons.injEq, and_true]
  omega

theorem readRegister_writeRegister (m : Machine) (r : Register) (v : Int) :
    (m.writeRegister r v).readRegister r = v % m.span r := by
  cases r with
  | f => exact packFlags_unpackFlags v
  | _ => rfl

theorem writeRegister_sameBut (m : Machine) (r : Register) (v : Int) :
    SameBut r m (m.writeRegister r v) := by
  have hothers : ∀ q ≠ r, (m.writeRegister r v).readRegister q = m.readRegister q ∧
      (m.writeRegister r v).snapshot.contents q = m.snapshot.contents q := by
    intro q hq
    cases r <;> cases q <;> try contradiction
    all_goals exact ⟨rfl, rfl⟩
  cases r <;> exact ⟨hothers, rfl, rfl, rfl, rfl, rfl⟩

theorem span_writeRegister (m : Machine) (r q : Register) (v : Int) :
    (m.writeRegister r v).span q = m.span q := by
  cases r <;> rfl

theorem writeRegister_writeRegister (m : Machine) (r : Register) (v w : Int) :
    (m.writeRegister r v).writeRegister r w = m.writeRegister r w := by
  cases r <;> rfl

theorem writeRegister_comm (m : Machine) (h : q ≠ r) (v w : Int) :
    (m.writeRegister r v).writeRegister q w = (m.writeRegister q w).writeRegister r v := by
  cases r <;> cases q <;> try contradiction
  all_goals rfl

theorem RegistersInRange.writeRegister_readRegister (h : m.RegistersInRange) (r : Register) :
    m.writeRegister r (m.readRegister r) = m := by
  have hnibble {i : Int} (hi : 0 ≤ i ∧ i < 16) : i % 16 = i := Int.emod_eq_of_lt hi.1 hi.2
  have hcell {i : Int} (hi : 0 ≤ i ∧ i < m.capacity) : i % m.capacity = i :=
    Int.emod_eq_of_lt hi.1 hi.2
  cases r with
  | a => rw [writeRegister, readRegister, hnibble h.a_nibble]
  | b => rw [writeRegister, readRegister, hnibble h.b_nibble]
  | c => rw [writeRegister, readRegister, hnibble h.c_nibble]
  | pc => rw [writeRegister, readRegister, hcell h.pc_cell]
  | sp => rw [writeRegister, readRegister, hcell h.sp_cell]
  | f => rw [writeRegister, readRegister, unpackFlags_packFlags h.flags_length h.flags_bit]

theorem RegistersInRange.readRegister_emod (h : m.RegistersInRange) (r : Register) :
    m.readRegister r % m.span r = m.readRegister r := by
  have hread := readRegister_writeRegister m r (m.readRegister r)
  rw [h.writeRegister_readRegister] at hread
  exact hread.symm

theorem writeRegisters_perm (m : Machine) {values values' : List (Register × Int)}
    (hn : (values.map (·.1)).Nodup) (hp : values.Perm values') :
    m.writeRegisters values = m.writeRegisters values' := by
  refine hp.foldl_eq' (fun x hx y hy z => ?_) m
  by_cases hxy : y.1 = x.1
  · rw [List.inj_on_of_nodup_map hn hy hx hxy]
  · exact writeRegister_comm z hxy x.2 y.2

theorem readRegister_writeRegisters_of_notMem {values : List (Register × Int)}
    (h : r ∉ values.map (·.1)) :
    (m.writeRegisters values).readRegister r = m.readRegister r := by
  induction values generalizing m with
  | nil => rfl
  | cons entry rest ih =>
    obtain ⟨hne, hrest⟩ := not_or.mp (mt List.mem_cons.mpr h)
    change ((m.writeRegister entry.1 entry.2).writeRegisters rest).readRegister r = _
    rw [ih hrest, ((writeRegister_sameBut m entry.1 entry.2).registers r hne).1]

theorem readRegister_writeRegisters {values : List (Register × Int)}
    (hn : (values.map (·.1)).Nodup) {v : Int} (hv : (r, v) ∈ values) :
    (m.writeRegisters values).readRegister r = v % m.span r := by
  induction values generalizing m with
  | nil => cases hv
  | cons entry rest ih =>
    obtain ⟨hnot, hrest⟩ := List.nodup_cons.mp hn
    change ((m.writeRegister entry.1 entry.2).writeRegisters rest).readRegister r = _
    rcases List.mem_cons.mp hv with rfl | hv
    · rw [readRegister_writeRegisters_of_notMem hnot, readRegister_writeRegister]
    · rw [ih hrest hv, span_writeRegister]

theorem map_fst_registers (m : Machine) : m.registers.map (·.1) = Register.all := by
  rw [registers, List.map_map]
  exact List.map_id _

theorem RegistersInRange.registers_transfer (h : m.RegistersInRange) (hv : m'.variant = m.variant)
    {values : List (Register × Int)} (hp : values.Perm m.registers) :
    (m'.writeRegisters values).registers = m.registers := by
  have hn : (values.map (·.1)).Nodup := by
    rw [(hp.map (·.1)).nodup_iff, map_fst_registers]
    decide
  have hspan (r : Register) : m'.span r = m.span r := by
    cases r with
    | pc | sp => exact congrArg (·.capacity) hv
    | _ => rfl
  refine List.map_congr_left fun r hr => ?_
  have hmem : (r, m.readRegister r) ∈ values := hp.mem_iff.mpr (List.mem_map_of_mem hr)
  rw [readRegister_writeRegisters hn hmem, hspan, h.readRegister_emod]

theorem mem_registers (m : Machine) {r : Register} {i : Int} :
    (r, i) ∈ m.registers ↔ i = m.readRegister r := by
  have hall : r ∈ Register.all := by cases r <;> decide
  constructor
  · intro h
    obtain ⟨q, -, hq⟩ := List.mem_map.mp h
    cases hq
    rfl
  · rintro rfl
    exact List.mem_map_of_mem hall

/-- Every register of a machine whose registers are in range obeys the laws of reading and writing.
Setting different registers therefore gives the same machine in every order, and setting them to
what is read of one machine makes another one of its variant read the same. -/
theorem registers_lawful (m : Machine) (h : m.RegistersInRange) :
    (∀ r, m.Lawful r) ∧
    (∀ r i, (r, i) ∈ m.registers ↔ i = m.readRegister r) ∧
    (∀ values values' : List (Register × Int), (values.map (·.1)).Nodup → values.Perm values' →
      m.writeRegisters values = m.writeRegisters values') ∧
    ∀ (m' : Machine) (values : List (Register × Int)), m'.variant = m.variant →
      values.Perm m.registers → (m'.writeRegisters values).registers = m.registers := by
  refine ⟨fun r => ?_, fun r i => mem_registers m, fun values values' hn hp => ?_,
    fun m' values hv hp => ?_⟩
  · exact {
      read_write := readRegister_writeRegister m r
      write_same_but := writeRegister_sameBut m r
      write_read := h.writeRegister_readRegister r
      write_write := writeRegister_writeRegister m r
      write_comm := fun q hq => writeRegister_comm m hq }
  · exact writeRegisters_perm m hn hp
  · exact h.registers_transfer hv hp

/-- All registers at their ends, above a memory that holds no nibbles. -/
private def brimful : Machine :=
  { fresh .nv32 with
    memory := List.replicate 32 99
    a := 15
    b := 0
    c := 15
    pc := 31
    sp := 31
    flags := [1, 0, 1, 1] }

private def backwards : List (Register × Int) :=
  [(.f, 13), (.sp, 31), (.pc, 31), (.c, 15), (.b, 0), (.a, 15)]

theorem registers_lawful_brimful :
    brimful.RegistersInRange ∧ brimful.Lawful .f ∧
      (brimful.writeRegister .pc (-1)).readRegister .pc = 31 ∧
      brimful.writeRegisters [(.a, -17), (.f, 300)] =
        brimful.writeRegisters [(.f, 300), (.a, -17)] ∧
      (.f, 13) ∈ brimful.registers ∧ backwards.Perm brimful.registers ∧
      ((fresh .nv32).writeRegisters backwards).registers = brimful.registers := by
  have h : brimful.RegistersInRange :=
    ⟨by decide, by decide, by decide, by decide, by decide, by decide, by decide⟩
  obtain ⟨hlawful, hentry, hperm, htransfer⟩ := registers_lawful brimful h
  have hp : backwards.Perm brimful.registers := by decide
  exact ⟨h, hlawful .f, (hlawful .pc).read_write (-1), hperm _ _ (by decide) (.swap _ _ _),
    (hentry .f 13).mpr rfl, hp, htransfer (fresh .nv32) backwards rfl hp⟩

end FourBit.Machine
