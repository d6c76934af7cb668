import Mathlib.Algebra.BigOperators.Group.List.Basic
import Mathlib.Data.Int.ModEq
import FourBit.Proofs.Machine.Straight

/-! Sums and differences in A.
Every addition and subtraction reduces A by the modulus of the variant, and what a reduction drops
is missed by none that follows. So a row of them leaves in A what was there, with all addends and
without all subtrahends, as if it had been reduced once. -/
namespace FourBit

inductive Arithmetic where
  | add (address : Nibble)
  | addi (value : Nibble)
  | addB
  | addC
  | sub (value : Nibble)
  | subi (value : Nibble)
  deriving DecidableEq, Repr

namespace Arithmetic

def instruction : Arithmetic → Instruction
  | add address => ⟨4, address.val⟩
  | addi value => ⟨13, value.val⟩
  | addB => ⟨0, 10⟩
  | addC => ⟨0, 11⟩
  | sub value => ⟨5, value.val⟩
  | subi value => ⟨14, value.val⟩

/-- B and C are added only on variants that can do so. -/
def Known (v : Variant) (op : Arithmetic) : Prop :=
  op = addB ∨ op = addC → v.registerAdds = true

instance (v : Variant) (op : Arithmetic) : Decidable (op.Known v) :=
  inferInstanceAs (Decidable (_ → _))

def addend (m : Machine) : Arithmetic → Int
  | add address => m.cell address.val
  | addi value => value.val
  | addB => m.b
  | addC => m.c
  | sub _ | subi _ => 0

def subtrahend : Arithmetic → Int
  | add _ | addi _ | addB | addC => 0
  | sub value | subi value => value.val

def result (m : Machine) : Arithmetic → Machine
  | add address => m.added (m.cell address.val)
  | addi value => m.added value.val
  | addB => m.added m.b
  | addC => m.added m.c
  | sub value | subi value => m.subtracted value.val

end Arithmetic

namespace Machine
variable {m m' m'' : Machine} {net net' : Int} {op : Arithmetic} {ops : List Arithmetic}

/-- A has changed by `net`, up to multiples of the modulus, and besides A only the flags have, but
for those that tell of comparisons and of the stack. -/
structure Accumulates (m : Machine) (net : Int) (m' : Machine) : Prop where
  rest : m' = { m with a := m'.a, flags := m'.flags }
  a_modEq : m'.a ≡ m.a + net [ZMOD m.variant.arithModulus]
  flags_length : m'.flags.length = m.flags.length
  equal : m'.flag .equal = m.flag .equal
  error : m'.flag .error = m.flag .error

/-- A as an operation of arithmetic leaves it. -/
def Reduced (m : Machine) : Prop := 0 ≤ m.a ∧ m.a < m.variant.arithModulus

namespace Accumulates

theorem refl (m : Machine) : m.Accumulates 0 m :=
  ⟨rfl, by rw [Int.add_zero], rfl, rfl, rfl⟩

theorem variant_eq (h : m.Accumulates net m') : m'.variant = m.variant := by
  rw [h.rest]

theorem capacity_eq (h : m.Accumulates net m') : m'.capacity = m.capacity := by
  rw [capacity, capacity, h.variant_eq]

theorem memory_length (h : m.Accumulates net m') : m'.memory.length = m.memory.length := by
  rw [h.rest]

theorem addend_eq (h : m.Accumulates net m') : Arithmetic.addend m' = Arithmetic.addend m := by
  rw [h.rest]
  rfl

theorem trans (h : m.Accumulates net m') (h' : m'.Accumulates net' m'') :
    m.Accumulates (net + net') m'' := by
  refine ⟨?_, ?_, h'.flags_length.trans h.flags_length, h'.equal.trans h.equal,
    h'.error.trans h.error⟩
  · rw [h'.rest, h.rest]
  · have ha := h'.a_modEq
    rw [h.variant_eq] at ha
    rw [← Int.add_assoc]
    exact ha.trans (h.a_modEq.add_right net')

theorem a_eq (h : m.Accumulates net m') (hreduced : m'.Reduced) :
    m'.a = (m.a + net) % m.variant.arithModulus := by
  obtain ⟨hnonneg, hlt⟩ := hreduced
  rw [h.variant_eq] at hlt
  exact (Int.emod_eq_of_lt hnonneg hlt).symm.trans h.a_modEq

end Accumulates

theorem added_accumulates (h : m.flags.length = 4) (value : Int) :
    m.Accumulates value (m.added value) where
  rest := rfl
  a_modEq := Int.mod_modEq _ _
  flags_length := List.length_set
  equal := flag_setFlag h .carry .equal _
  error := flag_setFlag h .carry .error _

theorem subtracted_accumulates (h : m.flags.length = 4) (value : Int) :
    m.Accumulates (-value) (m.subtracted value) where
  rest := rfl
  a_modEq := Int.mod_modEq _ _
  flags_length := List.length_set.trans List.length_set
  equal := (flag_setFlag (List.length_set.trans h) .negative .equal _).trans
    (flag_setFlag h .carry .equal _)
  error := (flag_setFlag (List.length_set.trans h) .negative .error _).trans
    (flag_setFlag h .carry .error _)

theorem result_accumulates (h : m.flags.length = 4) (op : Arithmetic) :
    m.Accumulates (op.addend m - op.subtrahend) (op.result m) := by
  cases op with
  | add | addi | addB | addC =>
    rw [Arithmetic.subtrahend, Int.sub_zero]
    exact added_accumulates h _
  | sub value | subi value =>
    rw [Arithmetic.addend, Int.zero_sub]
    exact subtracted_accumulates h value.val

theorem result_reduced (m : Machine) (op : Arithmetic) : (op.result m).Reduced := by
  have hreduced (i : Int) :
      0 ≤ i % m.variant.arithModulus ∧ i % m.variant.arithModulus < m.variant.arithModulus := by
    have hpos := m.variant.modulus_pos
    exact ⟨Int.emod_nonneg i (by omega), Int.emod_lt_of_pos i (by omega)⟩
  cases op <;> exact hreduced _

private theorem execute_select {code : Nat} {s : Secondary} (hcode : lowNibble code = code)
    (hs : Secondary.ofCode? code = some s) (h : m.variant.registerAdds = true) :
    execute ⟨0, code⟩ m = executeSecondary s m := by
  have hselect : selectSecondary m.variant (lowNibble code) = some s := by
    simp [selectSecondary, hcode, hs, h]
  change executePrimary (lowNibble code) .secondary m = _
  simp [executePrimary, hselect]

section
variable (hmemory : m.memory.length = m.capacity) (hroom : 16 ≤ m.capacity)
  (hflags : m.flags.length = 4)
include hmemory hroom hflags

theorem execute_arithmetic (hop : op.Known m.variant) :
    execute op.instruction m = ⟨.ok (), op.result m, []⟩ := by
  have hlow (value : Nibble) : (lowNibble value.val : Int) = value.val :=
    lowNibble_of_lt (by omega)
  cases op with
  | add address =>
    change (do Machine.add (← readCell (lowNibble address.val))) m = _
    rw [hlow, Action.bind_run, readCell_run hmemory (by omega)]
    simp only [add_run hflags]
    rfl
  | addi value =>
    change Machine.add (lowNibble value.val) m = _
    rw [hlow, add_run hflags]
    rfl
  | addB => exact (execute_select (s := .addB) rfl rfl (hop (.inl rfl))).trans (add_run hflags m.b)
  | addC => exact (execute_select (s := .addC) rfl rfl (hop (.inr rfl))).trans (add_run hflags m.c)
  | sub value | subi value =>
    change Machine.sub (lowNibble value.val) m = _
    rw [hlow, sub_run hflags]
    rfl

theorem executeAll_arithmetic (hops : ∀ op ∈ ops, op.Known m.variant) :
    ∃ m', executeAll (ops.map (·.instruction)) m = ⟨.ok (), m', []⟩ ∧
      m.Accumulates ((ops.map (·.addend m)).sum - (ops.map (·.subtrahend)).sum) m' ∧
      (m.Reduced ∨ ops ≠ [] → m'.Reduced) := by
  induction ops generalizing m with
  | nil => exact ⟨m, rfl, .refl m, fun h => h.resolve_right fun hne => hne rfl⟩
  | cons op ops ih =>
    obtain ⟨hop, hrest⟩ := List.forall_mem_cons.mp hops
    have hfirst := result_accumulates hflags op
    rw [← hfirst.variant_eq] at hrest
    obtain ⟨m', hrun, hlater, hreduced⟩ := ih
      (by rw [hfirst.memory_length, hfirst.capacity_eq, hmemory])
      (hfirst.capacity_eq ▸ hroom) (hfirst.flags_length.trans hflags) hrest
    refine ⟨m', ?_, ?_, fun _ => hreduced (.inl (result_reduced m op))⟩
    · rw [List.map_cons, executeAll, Action.bind_run, execute_arithmetic hmemory hroom hflags hop]
      simp only [hrun]
      rfl
    · have hboth := hfirst.trans hlater
      rw [hfirst.addend_eq, sub_add_sub_comm] at hboth
      exact hboth

end

/-- Additions and subtractions leave in A what it held, more by all that they add and less by all
that they subtract, reduced by the modulus. So it does not matter in which order they come. No other
register changes, no cell, and neither of the flags that tell of comparisons and of the stack. -/
theorem arithmetic_accumulates (m : Machine) (hmemory : m.memory.length = m.capacity)
    (hroom : 16 ≤ m.capacity) (hflags : m.flags.length = 4) (ops : List Arithmetic)
    (hne : ops ≠ []) (hops : ∀ op ∈ ops, op.Known m.variant) :
    let outcome := executeAll (ops.map (·.instruction)) m
    outcome.answer = .ok () ∧
    outcome.state.a = (m.a + (ops.map (·.addend m)).sum - (ops.map (·.subtrahend)).sum) %
      m.variant.arithModulus ∧
    (0 ≤ outcome.state.a ∧ outcome.state.a < m.variant.arithModulus) ∧
    (∀ ops' : List Arithmetic, ops'.Perm ops →
      (executeAll (ops'.map (·.instruction)) m).answer = .ok () ∧
      (executeAll (ops'.map (·.instruction)) m).state.a = outcome.state.a) ∧
    outcome.state = { m with a := outcome.state.a, flags := outcome.state.flags } ∧
    outcome.state.flag .equal = m.flag .equal ∧
    outcome.state.flag .error = m.flag .error := by
  obtain ⟨m', hrun, hnet, hreduced⟩ := executeAll_arithmetic hmemory hroom hflags hops
  have hrange := hreduced (.inr hne)
  simp only [hrun]
  refine ⟨trivial, ?_, ⟨hrange.1, hnet.variant_eq ▸ hrange.2⟩, fun ops' hperm => ?_, hnet.rest,
    hnet.equal, hnet.error⟩
  · rw [hnet.a_eq hrange, Int.add_sub_assoc]
  · have hne' : ops' ≠ [] := fun h => hne (h ▸ hperm).symm.eq_nil
    obtain ⟨_, hrun', hnet', hreduced'⟩ := executeAll_arithmetic hmemory hroom hflags
      fun op hop => hops op (hperm.mem_iff.mp hop)
    rw [(hperm.map _).sum_eq, (hperm.map _).sum_eq] at hnet'
    simp only [hrun']
    exact ⟨trivial, (hnet'.a_eq (hreduced' (.inr hne'))).trans (hnet.a_eq hrange).symm⟩

/-- A machine on which nothing but the sizes is as it should be. -/
private def unbounded : Machine where
  variant := .nv256
  memory := List.replicate 256 (-11)
  a := -40
  b := 1000
  c := -7
  pc := 999
  sp := -3
  flags := [7, 0, 1, 1]
  lastFault := none
  cycles := 0
  haltRequested := false

/-- All kinds of operations. The subtractions come last, and the first of them borrows. -/
theorem arithmetic_accumulates_mixed :
    let ops : List Arithmetic := [.addB, .addC, .add 3, .addi 10, .sub 15, .subi 2]
    (executeAll (ops.map (·.instruction)) unbounded).state.a = 5 ∧
    (executeAll (ops.reverse.map (·.instruction)) unbounded).state.a = 5 := by
  intro ops
  have hmemory : unbounded.memory.length = unbounded.capacity :=
    congrArg Nat.cast List.length_replicate
  obtain ⟨-, ha, -, hperm, -⟩ := arithmetic_accumulates unbounded hmemory (by decide) rfl ops
    (by decide) (by decide)
  have hsum : (unbounded.a + (ops.map (·.addend unbounded)).sum -
      (ops.map (·.subtrahend)).sum) % unbounded.variant.arithModulus = 5 := rfl
  obtain ⟨-, hreverse⟩ := hperm ops.reverse ops.reverse_perm
  rw [hsum] at ha
  exact ⟨ha, hreverse.trans ha⟩

end Machine
end FourBit
