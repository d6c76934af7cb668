import Mathlib.Data.Set.Basic
import FourBit.Proofs.Machine.Counter
import FourBit.Proofs.Machine.Stack

/-! Two machines that execute the same instructions.
They agree on their registers, on the flags that are seen and on the cells that are shared; if
operands and the stack stay within those, then so do their steps, whatever else the machines
hold. What nothing reads is what no run depends on. -/
namespace FourBit

/-- Constants that agree, but for the size of memory, the origin and the register additions. -/
structure Variant.SameRules (v w : Variant) : Prop where
  boundary : w.stackBoundary = v.stackBoundary
  modulus : w.arithModulus = v.arithModulus
  skip : w.skipDistance = v.skipDistance

theorem Variant.SameRules.refl (v : Variant) : v.SameRules v := ⟨rfl, rfl, rfl⟩

namespace Machine
variable {shared : Nat} {seen : Set Flag} {m m' : Machine}

/-- Machines that agree on the registers, apart from the program counter, on the flags that are
seen and on the first cells. -/
structure Alike (shared : Nat) (seen : Set Flag) (m m' : Machine) : Prop where
  a : m'.a = m.a
  b : m'.b = m.b
  c : m'.c = m.c
  sp : m'.sp = m.sp
  flag : ∀ f ∈ seen, m'.flags[f.place]? = m.flags[f.place]?
  cell : ∀ i < shared, m'.memory[i]? = m.memory[i]?

private theorem getElem?_set_congr {cells cells' : List Int} {j : Nat} (h : cells'[j]? = cells[j]?)
    (i : Nat) (value : Int) : (cells'.set i value)[j]? = (cells.set i value)[j]? := by
  rw [List.getElem?_set', List.getElem?_set', h]

theorem Alike.flag_eq (h : Alike shared seen m m') {f : Flag} (hf : f ∈ seen) :
    m'.flag f = m.flag f := by
  rw [Machine.flag, Machine.flag, List.getD_eq_getElem?_getD, List.getD_eq_getElem?_getD,
    h.flag f hf]

theorem Alike.cell_eq (h : Alike shared seen m m') {address : Int} (ha : address < shared)
    (hs : 0 < shared) : m'.cell address = m.cell address := by
  rw [Machine.cell, Machine.cell, List.getD_eq_getElem?_getD, List.getD_eq_getElem?_getD,
    h.cell _ (by omega)]

theorem Alike.setA (h : Alike shared seen m m') (value : Int) :
    Alike shared seen { m with a := value } { m' with a := value } :=
  { h with a := rfl }

theorem Alike.setSp (h : Alike shared seen m m') (value : Int) :
    Alike shared seen { m with sp := value } { m' with sp := value } :=
  { h with sp := rfl }

theorem Alike.setFlag (h : Alike shared seen m m') (f : Flag) (value : Int) :
    Alike shared seen (m.setFlag f value) (m'.setFlag f value) :=
  { h with flag := fun g hg => getElem?_set_congr (h.flag g hg) _ _ }

theorem Alike.setCell (h : Alike shared seen m m') (address value : Int) :
    Alike shared seen (m.setCell address value) (m'.setCell address value) :=
  { h with cell := fun i hi => getElem?_set_congr (h.cell i hi) _ _ }

theorem Alike.faulted (h : Alike shared seen m m') (fault : Fault) :
    Alike shared seen (m.faulted fault) (m'.faulted fault) := by
  cases fault with
  | stackOverflow | stackUnderflow => exact { h.setFlag .error 1 with }
  | invalidOperand | invalidOpcode => exact { h with }

section
variable (hr : m.variant.SameRules m'.variant)
include hr

theorem Alike.added (h : Alike shared seen m m') (value : Int) :
    Alike shared seen (m.added value) (m'.added value) := by
  rw [Machine.added, Machine.added, h.a, hr.modulus]
  exact (h.setFlag .carry _).setA _

theorem Alike.subtracted (h : Alike shared seen m m') (value : Int) :
    Alike shared seen (m.subtracted value) (m'.subtracted value) := by
  rw [Machine.subtracted, Machine.subtracted, h.a, hr.modulus]
  exact ((h.setFlag .carry _).setFlag .negative _).setA _

end

theorem Alike.combined (h : Alike shared seen m m') (keep : Bool) (low : Nat) :
    Alike shared seen (m.combined keep low) (m'.combined keep low) := by
  rw [Machine.combined, Machine.combined, h.a]
  exact h.setA _

theorem Alike.pushed (h : Alike shared seen m m') (value : Int) :
    Alike shared seen (m.pushed value) (m'.pushed value) := by
  rw [Machine.pushed, Machine.pushed, h.sp]
  exact (h.setCell _ _).setSp _

theorem Alike.popped (h : Alike shared seen m m') : Alike shared seen m.popped m'.popped := by
  rw [Machine.popped, Machine.popped, h.sp]
  exact h.setSp _

/-- Machines that are alike and about to execute what they have fetched: their constants agree, so
do their program counters from the origin on, and what they can reach is shared. -/
structure Abreast (shared : Nat) (seen : Set Flag) (m m' : Machine) : Prop
    extends Alike shared seen m m' where
  rules : m.variant.SameRules m'.variant
  offset : m'.pc - m'.origin = m.pc - m.origin
  room : 16 ≤ m.capacity ∧ 16 ≤ m'.capacity
  operands : 16 ≤ shared
  sp_le : m.sp ≤ shared
  all_but_error : {.error}ᶜ ⊆ seen

theorem Abreast.top_eq (h : Abreast shared seen m m') : m'.top = m.top := by
  have := h.sp_le
  have := h.operands
  rw [Machine.top, Machine.top, h.sp]
  exact h.cell_eq (by omega) (by omega)

theorem Abreast.flag_eq (h : Abreast shared seen m m') {f : Flag} (hf : f ≠ .error) :
    m'.flag f = m.flag f :=
  h.toAlike.flag_eq (h.all_but_error hf)

theorem Abreast.secondaryDone (h : Abreast shared seen m m') (s : Secondary) :
    Alike shared seen (m.secondaryDone s) (m'.secondaryDone s) := by
  have hskip (f : Flag) : Alike shared seen (m.skipped f) (m'.skipped f) := by
    unfold skipped
    split <;> split <;> exact { h.toAlike with }
  cases s with
  | nop => exact h.toAlike
  | pushA =>
    change Alike shared seen (m.pushed m.a) (m'.pushed m'.a)
    rw [h.a]
    exact h.pushed _
  | popA =>
    change Alike shared seen { m.popped with a := m.top } { m'.popped with a := m'.top }
    rw [h.top_eq]
    exact h.popped.setA _
  | pushPc =>
    change Alike shared seen (m.pushed (m.pc - m.origin)) (m'.pushed (m'.pc - m'.origin))
    rw [h.offset]
    exact h.pushed _
  | popPc => exact { h.popped with }
  | swapAB => exact { h.toAlike with a := h.b, b := h.a }
  | swapBC => exact { h.toAlike with b := h.c, c := h.b }
  | skipCarry | skipNegative | skipEqual => exact hskip _
  | addB =>
    change Alike shared seen (m.added m.b) (m'.added m'.b)
    rw [h.b]
    exact h.added h.rules _
  | addC =>
    change Alike shared seen (m.added m.c) (m'.added m'.c)
    rw [h.c]
    exact h.added h.rules _

theorem Abreast.primaryDone (h : Abreast shared seen m m') {operand : Nat} (ho : operand < 16)
    {p : Primary} (hp : p ≠ .secondary) :
    Alike shared seen (m.primaryDone operand p) (m'.primaryDone operand p) := by
  have hcell : m'.cell operand = m.cell operand := by
    have := h.operands
    exact h.cell_eq (by omega) (by omega)
  cases p with
  | secondary => contradiction
  | lda =>
    change Alike shared seen { m with a := m.cell operand } { m' with a := m'.cell operand }
    rw [hcell]
    exact h.setA _
  | sta =>
    change Alike shared seen (m.setCell operand m.a) (m'.setCell operand m'.a)
    rw [h.a]
    exact h.setCell _ _
  | cmp | cmpi =>
    change Alike shared seen (m.setFlag .equal (bit (m.a == operand)))
      (m'.setFlag .equal (bit (m'.a == operand)))
    rw [h.a]
    exact h.setFlag _ _
  | add =>
    change Alike shared seen (m.added (m.cell operand)) (m'.added (m'.cell operand))
    rw [hcell]
    exact h.added h.rules _
  | addi => exact h.added h.rules _
  | sub | subi => exact h.subtracted h.rules _
  | and | xor | or | not =>
    simp only [Machine.primaryDone, h.a]
    exact h.combined _ _
  | ldi => exact h.setA _
  | jmp => exact { h.toAlike with }
  | lsp =>
    have hroom := h.room
    have hsame : (operand : Int) % m'.capacity = operand % m.capacity := by
      rw [Int.emod_eq_of_lt (by omega) (by omega), Int.emod_eq_of_lt (by omega) (by omega)]
    change Alike shared seen { m with sp := operand % m.capacity }
      { m' with sp := operand % m'.capacity }
    rw [hsame]
    exact h.setSp _

/-- An operand selects the same operation on both machines, if it selects one. -/
def SameChoice (m m' : Machine) (i : Instruction) : Prop :=
  Primary.ofCode? i.opcode = some .secondary →
    selectSecondary m'.variant (lowNibble i.operand) =
      selectSecondary m.variant (lowNibble i.operand)

theorem sameChoice_of_eq (h : m'.variant.registerAdds = m.variant.registerAdds) (i : Instruction) :
    m.SameChoice m' i := by
  intro _
  rw [selectSecondary, selectSecondary, h]

theorem InRange.sameChoice_of_ne (h : m.InRange) (hb : m.current ≠ ⟨0, 10⟩)
    (hc : m.current ≠ ⟨0, 11⟩) : m.SameChoice m' m.current := by
  intro hp
  have hother {n : Nat} {x : Secondary} (hx : Secondary.all[n]? = some x)
      (hne : m.current ≠ ⟨0, n⟩) : Secondary.ofCode? (lowNibble m.current.operand) ≠ some x := by
    intro hs
    apply hne
    rw [h.operand_eq] at hs
    apply (secondary?_eq_some_iff hx).mp
    rw [Instruction.secondary?, Instruction.isSecondary, ofCode?_secondary.mp hp]
    exact hs
  have hnoB := hother (n := 10) rfl hb
  have hnoC := hother (n := 11) rfl hc
  rw [selectSecondary, selectSecondary]
  cases hs : Secondary.ofCode? (lowNibble m.current.operand) with
  | none => rfl
  | some s =>
    have hsB : s ≠ .addB := fun he => hnoB (he ▸ hs)
    have hsC : s ≠ .addC := fun he => hnoC (he ▸ hs)
    simp [Option.filter, hsB, hsC]

theorem Abreast.fault?_eq (h : Abreast shared seen m m') {i : Instruction}
    (hi : m.SameChoice m' i) : m'.fault? i = m.fault? i := by
  have hstack (s : Secondary) : m'.stackFault? s = m.stackFault? s := by
    cases s <;> simp only [stackFault?, h.sp, h.rules.boundary]
  rw [fault?, fault?]
  cases hp : Primary.ofCode? i.opcode with
  | none => rfl
  | some p =>
    cases p with
    | secondary => simp only [hi hp, hstack]
    | _ => rfl

theorem Abreast.performed (h : Abreast shared seen m m') {i : Instruction}
    (hi : m.SameChoice m' i) : Alike shared seen (m.performed i) (m'.performed i) := by
  have hfault := h.fault?_eq hi
  cases hf : m.fault? i with
  | some fault =>
    rw [performed_of_some hf, performed_of_some (hfault.trans hf)]
    exact h.faulted fault
  | none =>
    rw [performed_of_none hf, performed_of_none (hfault.trans hf), done, done]
    cases hp : Primary.ofCode? i.opcode with
    | none => exact h.toAlike
    | some p =>
      by_cases hs : p = .secondary
      · subst hs
        simp only [Option.map_some, Option.getD_some, Machine.primaryDone, hi hp]
        cases selectSecondary m.variant (lowNibble i.operand) with
        | none => exact h.toAlike
        | some s => exact h.secondaryDone s
      · exact h.primaryDone (lowNibble_lt _) hs

theorem Abreast.target?_eq (h : Abreast shared seen m m') {i : Instruction}
    (hi : m.SameChoice m' i) :
    m'.target? i = (m.target? i).map (· + (m'.origin - m.origin)) := by
  have hoffset := h.offset
  have hskip {f : Flag} (hf : f ≠ .error) :
      m'.skipTarget? f = (m.skipTarget? f).map (· + (m'.origin - m.origin)) := by
    rw [skipTarget?, skipTarget?, h.flag_eq hf, h.rules.skip]
    split
    · exact congrArg some (show m'.pc + _ = m.pc + _ + (m'.origin - m.origin) by omega)
    · rfl
  have hsecondary (s : Secondary) :
      m'.secondaryTarget? s = (m.secondaryTarget? s).map (· + (m'.origin - m.origin)) := by
    cases s with
    | popPc =>
      rw [secondaryTarget?, secondaryTarget?, h.sp, h.top_eq]
      split
      · rfl
      · exact congrArg some (show m.top + _ = m.top + m.origin + (m'.origin - m.origin) by omega)
    | skipCarry | skipNegative | skipEqual => exact hskip (by decide)
    | _ => rfl
  rw [target?, target?]
  cases hp : Primary.ofCode? i.opcode with
  | none => rfl
  | some p =>
    cases p with
    | secondary =>
      simp only [hi hp]
      cases selectSecondary m.variant (lowNibble i.operand) with
      | none => rfl
      | some s => exact hsecondary s
    | jmp => exact congrArg some (show _ + _ = _ + m.origin + (m'.origin - m.origin) by omega)
    | _ => rfl

theorem Abreast.target?_eq_of_origin (h : Abreast shared seen m m') {i : Instruction}
    (hi : m.SameChoice m' i) (ho : m'.origin = m.origin) : m'.target? i = m.target? i := by
  have htarget := h.target?_eq hi
  rw [ho, Int.sub_self] at htarget
  simpa only [Int.add_zero, Option.map_id'] using htarget

theorem Abreast.next (h : Abreast shared seen m.started m'.started) (hi : m'.current = m.current)
    (hc : m.SameChoice m' m.current) :
    Alike shared seen m.next m'.next ∧ m'.next.lastFault = m.next.lastFault := by
  have hstep : Alike shared seen (m.started.performed m.current)
      (m'.started.performed m.current) := h.performed hc
  constructor
  · rw [Machine.next, Machine.next, hi]
    exact { hstep with }
  · rw [next_lastFault, next_lastFault, hi]
    exact h.fault?_eq hc

theorem Abreast.next_offset (h : Abreast shared seen m.started m'.started)
    (hi : m'.current = m.current) (hc : m.SameChoice m' m.current) (hu : m.Unwrapped)
    (hu' : m'.Unwrapped) (hpc : m'.pc - m'.origin = m.pc - m.origin) :
    m'.next.pc - m'.origin = m.next.pc - m.origin := by
  have htarget : m'.started.target? m.current =
      (m.started.target? m.current).map (· + (m'.origin - m.origin)) := h.target?_eq hc
  rw [hu.next_pc, hu'.next_pc, hi, htarget]
  cases m.started.target? m.current with
  | none =>
    rw [Option.map_none, Option.getD_none, Option.getD_none]
    omega
  | some i =>
    rw [Option.map_some, Option.getD_some, Option.getD_some]
    omega

theorem Abreast.next_pc_eq (h : Abreast shared seen m.started m'.started)
    (hi : m'.current = m.current) (hv : m'.variant = m.variant) (hpc : m'.pc = m.pc) :
    m'.next.pc = m.next.pc := by
  have hcapacity : m'.capacity = m.capacity := congrArg (·.capacity) hv
  have hchoice := sameChoice_of_eq (congrArg (·.registerAdds) hv) m.current
  have htarget := h.target?_eq_of_origin hchoice (congrArg (·.programOrigin) hv)
  rw [next_pc, next_pc, hi, htarget, fetched, fetched, hpc, hcapacity]

end Machine
end FourBit
