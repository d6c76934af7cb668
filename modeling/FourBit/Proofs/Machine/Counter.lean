import Mathlib.Data.Int.ModEq
import Mathlib.Data.List.Intervals
import FourBit.Proofs.Machine.Run

/-! The program counter: what steps make of it.
Fetching moves it on by two cells, and an instruction may send it somewhere else. Each new value is
reduced to an address, and as long as no reduction changes a value it does not matter how large
memory is. Reductions add up: a run leaves the program counter where the last jump or return went
to, as many cells further on as the steps since then took, reduced once. -/
namespace FourBit.Machine
variable {m : Machine}

def skipTarget? (m : Machine) (f : Flag) : Option Int :=
  if m.flag f = 1 then some (m.pc + m.variant.skipDistance) else none

def secondaryTarget? (m : Machine) : Secondary → Option Int
  | .popPc => if m.sp = 0 then none else some (m.top + m.origin)
  | .skipCarry => m.skipTarget? .carry
  | .skipNegative => m.skipTarget? .negative
  | .skipEqual => m.skipTarget? .equal
  | _ => none

/-- Where an instruction that has been fetched sends the program counter, if it does. -/
def target? (m : Machine) (i : Instruction) : Option Int :=
  match Primary.ofCode? i.opcode with
  | some .jmp => some (lowNibble i.operand + m.origin)
  | some .secondary => (selectSecondary m.variant (lowNibble i.operand)).bind m.secondaryTarget?
  | _ => none

def pcValues (m : Machine) : List Int :=
  (m.pc + 1) :: ((m.pc + 1) % m.capacity + 1) :: (m.started.target? m.current).toList

/-- No value of the program counter in the next step is changed by its reduction. -/
def Unwrapped (m : Machine) : Prop := ∀ i ∈ m.pcValues, i % m.capacity = i

instance (m : Machine) : Decidable m.Unwrapped :=
  inferInstanceAs (Decidable (∀ i ∈ m.pcValues, i % m.capacity = i))

private theorem skipped_pc (m : Machine) (f : Flag) :
    (m.skipped f).pc = ((m.skipTarget? f).map (· % m.capacity)).getD m.pc := by
  by_cases hf : m.flag f = 1
  · rw [skipped, if_pos hf, skipTarget?, if_pos hf]
    rfl
  · rw [skipped, if_neg hf, skipTarget?, if_neg hf]
    rfl

private theorem secondaryDone_pc {s : Secondary} (hs : m.stackFault? s = none) :
    (m.secondaryDone s).pc = ((m.secondaryTarget? s).map (· % m.capacity)).getD m.pc := by
  cases s with
  | popPc =>
    have hz : m.sp ≠ 0 := by simpa [stackFault?] using hs
    rw [secondaryTarget?, if_neg hz]
    rfl
  | skipCarry | skipNegative | skipEqual => exact skipped_pc m _
  | _ => rfl

private theorem secondaryTarget?_of_fault {s : Secondary} {fault : Fault}
    (hs : m.stackFault? s = some fault) : m.secondaryTarget? s = none := by
  cases s with
  | popPc =>
    have hz : m.sp = 0 := by
      by_contra hne
      rw [stackFault?, if_neg hne] at hs
      cases hs
    rw [secondaryTarget?, if_pos hz]
  | skipCarry | skipNegative | skipEqual => cases hs
  | _ => rfl

private theorem target?_of_fault {i : Instruction} {fault : Fault}
    (hf : m.fault? i = some fault) : m.target? i = none := by
  rcases fault?_eq_some_iff.mp hf with ⟨hp, -⟩ | ⟨hp, ⟨hsel, -⟩ | ⟨s, hsel, hs⟩⟩
  · rw [target?, hp]
  · simp only [target?, hp, hsel, Option.bind_none]
  · simp only [target?, hp, hsel, Option.bind_some]
    exact secondaryTarget?_of_fault hs

theorem performed_pc (m : Machine) (i : Instruction) :
    (m.performed i).pc = ((m.target? i).map (· % m.capacity)).getD m.pc := by
  cases hf : m.fault? i with
  | some fault =>
    rw [performed_of_some hf, target?_of_fault hf]
    cases fault <;> rfl
  | none =>
    rw [performed_of_none hf]
    refine done_cases
      (motive := fun m' => m'.pc = ((m.target? i).map (· % m.capacity)).getD m.pc) hf ?_ ?_
    · intro s hp hsel hs
      rw [secondaryDone_pc hs, target?, hp]
      simp only [hsel, Option.bind_some]
    · intro p hp hne
      rw [target?, hp]
      cases p with
      | secondary => contradiction
      | _ => rfl

theorem next_pc (m : Machine) :
    m.next.pc = ((m.started.target? m.current).map (· % m.capacity)).getD m.fetched.pc :=
  performed_pc m.started m.current

theorem unwrapped_iff :
    m.Unwrapped ↔ (m.pc + 1) % m.capacity = m.pc + 1 ∧ m.fetched.pc = m.pc + 2 ∧
      ∀ i ∈ m.started.target? m.current, i % m.capacity = i := by
  have hsecond (hfirst : (m.pc + 1) % m.capacity = m.pc + 1) :
      ((m.pc + 1) % m.capacity + 1) % m.capacity = (m.pc + 1) % m.capacity + 1 ↔
        m.fetched.pc = m.pc + 2 := by
    rw [hfirst, Int.add_assoc]
    rfl
  simp only [Unwrapped, pcValues, List.forall_mem_cons, Option.mem_toList]
  constructor
  · rintro ⟨hfirst, hnext, htarget⟩
    exact ⟨hfirst, (hsecond hfirst).mp hnext, htarget⟩
  · rintro ⟨hfirst, hnext, htarget⟩
    exact ⟨hfirst, (hsecond hfirst).mpr hnext, htarget⟩

/-- Without a reduction the next instruction is where the last one sends the program counter, or
behind it. -/
theorem Unwrapped.next_pc (hu : m.Unwrapped) :
    m.next.pc = (m.started.target? m.current).getD (m.pc + 2) := by
  obtain ⟨-, hfetched, htarget⟩ := unwrapped_iff.mp hu
  rw [Machine.next_pc, hfetched]
  cases ht : m.started.target? m.current with
  | none => rfl
  | some i => exact htarget i ht

/-- Where the next instruction sends the program counter by its operand or by a value from the
stack, if it does. -/
def landing? (m : Machine) : Option Int :=
  match Primary.ofCode? m.current.opcode with
  | some .jmp => some (lowNibble m.current.operand + m.origin)
  | some .secondary =>
    match selectSecondary m.variant (lowNibble m.current.operand) with
    | some .popPc => if m.sp = 0 then none else some (m.top + m.origin)
    | _ => none
  | _ => none

def tested? (m : Machine) : Option Flag :=
  match Primary.ofCode? m.current.opcode with
  | some .secondary =>
    match selectSecondary m.variant (lowNibble m.current.operand) with
    | some .skipCarry => some .carry
    | some .skipNegative => some .negative
    | some .skipEqual => some .equal
    | _ => none
  | _ => none

def skips (m : Machine) : Bool := m.tested?.any fun f => m.flag f = 1

/-- Within `k` steps the program counter was last sent somewhere by a jump or a return in step `j`,
namely to `base`; without such a step `j` is zero and `base` where it stood at the beginning. -/
structure LandedLast (m : Machine) (k j : Nat) (base : Int) : Prop where
  le : j ≤ k
  landed : j = 0 ∧ base = m.pc ∨ ∃ i, j = i + 1 ∧ (m.after i).landing? = some base
  since : ∀ i, j ≤ i → i < k → (m.after i).landing? = none

def skipsSince (m : Machine) (j k : Nat) : Nat := (List.Ico j k).countP fun i => (m.after i).skips

def aligned (m : Machine) : Machine := { m with pc := m.pc % m.capacity }

private theorem started_target? (m : Machine) :
    m.started.target? m.current =
      m.landing?.or (if m.skips then some (m.fetched.pc + m.variant.skipDistance) else none) := by
  have hskip {f : Flag} (ht : m.tested? = some f) : m.started.skipTarget? f =
      if m.skips then some (m.fetched.pc + m.variant.skipDistance) else none := by
    rw [skips, ht, Option.any_some, skipTarget?]
    simp only [decide_eq_true_eq]
    rfl
  have hstays (ht : m.tested? = none) : m.skips = false := by rw [skips, ht, Option.any_none]
  rw [target?, landing?]
  cases hp : Primary.ofCode? m.current.opcode with
  | none => simp [hstays (by rw [tested?, hp])]
  | some p =>
    cases p with
    | jmp => rfl
    | secondary =>
      change (selectSecondary m.variant (lowNibble m.current.operand)).bind _ = _
      cases hsel : selectSecondary m.variant (lowNibble m.current.operand) with
      | none => simp [hstays (by simp only [tested?, hp, hsel])]
      | some s =>
        cases s with
        | popPc =>
          rw [hstays (by simp only [tested?, hp, hsel])]
          exact (Option.or_none).symm
        | skipCarry | skipNegative | skipEqual => exact hskip (by simp only [tested?, hp, hsel])
        | _ =>
          rw [hstays (by simp only [tested?, hp, hsel])]
          rfl
    | _ => simp [hstays (by rw [tested?, hp])]

private theorem next_pc_eq (m : Machine) :
    m.next.pc = m.landing?.getD
      (m.pc + 2 + if m.skips then m.variant.skipDistance else 0) % m.capacity := by
  have hfetched : m.fetched.pc = (m.pc + 2) % m.capacity := rfl
  rw [next_pc, started_target?]
  cases m.landing? with
  | some base => rfl
  | none =>
    cases m.skips with
    | false =>
      change m.fetched.pc = (m.pc + 2 + 0) % m.capacity
      rw [hfetched, Int.add_zero]
    | true =>
      change (m.fetched.pc + m.variant.skipDistance) % m.capacity =
        (m.pc + 2 + m.variant.skipDistance) % m.capacity
      rw [hfetched, Int.emod_add_emod]

private theorem aligned_pc (m : Machine) :
    m.aligned.pc % m.aligned.capacity = m.pc % m.capacity :=
  Int.emod_emod_of_dvd _ (Int.dvd_refl _)

theorem step_aligned (m : Machine) : step m.aligned = step m := by
  have hstart : { m.aligned with lastFault := none, pc := m.aligned.pc % m.aligned.capacity } =
      { m with lastFault := none, pc := m.pc % m.capacity } := by
    rw [aligned_pc]
    rfl
  simp only [step, Action.bind_run, Action.modify_run, hstart]

theorem aligned_next (m : Machine) : m.aligned.next = m.next := by
  have hcurrent : m.aligned.current = m.current := by
    rw [current, aligned_pc, current]
    rfl
  have hstarted : m.aligned.started = m.started := by
    have hfetched : (m.aligned.pc + 2) % m.aligned.capacity = (m.pc + 2) % m.capacity :=
      Int.emod_add_emod m.pc m.capacity 2
    rw [started, fetched, hfetched]
    rfl
  rw [next, hcurrent, hstarted, next]

theorem after_aligned (m : Machine) (n : Nat) : m.aligned.after (n + 1) = m.after (n + 1) := by
  rw [after, Function.iterate_succ_apply, step_aligned, ← Function.iterate_succ_apply, after]

private theorem skipsSince_succ (m : Machine) {j k : Nat} (h : j ≤ k) :
    m.skipsSince j (k + 1) * m.variant.skipDistance =
      m.skipsSince j k * m.variant.skipDistance +
        if (m.after k).skips then m.variant.skipDistance else 0 := by
  rw [skipsSince, List.Ico.succ_top h, List.countP_append, List.countP_singleton, Nat.cast_add,
    Int.add_mul, skipsSince]
  cases (m.after k).skips with
  | false => rw [if_neg Bool.false_ne_true, if_neg Bool.false_ne_true, Int.ofNat_zero, Int.zero_mul]
  | true => rw [if_pos rfl, if_pos rfl, Int.ofNat_one, Int.one_mul]

section
variable (h : m.aligned.InRange) (hv : m.variant.Sound)
include h hv

private theorem step_of_aligned (n : Nat) :
    (step (m.after n)).answer = .ok () ∧ m.after (n + 1) = (m.after n).next ∧
      (m.after n).variant = m.variant := by
  cases n with
  | zero =>
    have hstep := h.step_run hv
    rw [step_aligned] at hstep
    refine ⟨?_, ?_, rfl⟩
    · rw [after_zero, hstep]
    · rw [after_succ_step, after_zero, hstep, aligned_next]
  | succ n =>
    have hnext := h.after_succ' hv (n + 1)
    have hanswer := h.after_answer hv (n + 1)
    have hvariant := (h.after hv (n + 1)).2
    simp only [after_aligned] at hnext hanswer hvariant
    exact ⟨hanswer, hnext, hvariant⟩

private theorem LandedLast.pc_modEq {k j : Nat} {base : Int} (hl : m.LandedLast k j base) :
    (m.after k).pc ≡ base + 2 * (k - j) + m.skipsSince j k * m.variant.skipDistance
      [ZMOD m.capacity] := by
  induction k with
  | zero =>
    obtain rfl : j = 0 := Nat.le_zero.mp hl.le
    rcases hl.landed with ⟨-, rfl⟩ | ⟨i, hi, -⟩
    · simp [skipsSince, after_zero]
    · omega
  | succ k ih =>
    obtain ⟨-, hnext, hvariant⟩ := step_of_aligned h hv k
    have hcapacity : (m.after k).capacity = m.capacity := congrArg (·.capacity) hvariant
    rw [hnext, next_pc_eq, hcapacity, hvariant]
    refine (Int.mod_modEq _ _).trans ?_
    rcases Nat.lt_or_eq_of_le hl.le with hlt | rfl
    · have hle : j ≤ k := Nat.le_of_lt_succ hlt
      have hrest : m.LandedLast k j base :=
        ⟨hle, hl.landed, fun i hj hi => hl.since i hj (Nat.lt_succ_of_lt hi)⟩
      have hcount := m.skipsSince_succ hle
      have hsum : base + 2 * ((k : Int) - j) + m.skipsSince j k * m.variant.skipDistance +
          (2 + if (m.after k).skips then m.variant.skipDistance else 0) =
            base + 2 * ((k + 1 : Nat) - j) + m.skipsSince j (k + 1) * m.variant.skipDistance := by
        omega
      rw [hl.since k hle k.lt_succ_self, Option.getD_none, Int.add_assoc, ← hsum]
      exact (ih hrest).add_right _
    · rcases hl.landed with ⟨hzero, -⟩ | ⟨i, hi, hbase⟩
      · omega
      · obtain rfl := Nat.succ_inj.mp hi
        rw [hbase, Option.getD_some, skipsSince, List.Ico.self_empty]
        simp

end

private theorem exists_landedLast (m : Machine) (k : Nat) : ∃ j base, m.LandedLast k j base := by
  induction k with
  | zero => exact ⟨0, m.pc, Nat.le_refl 0, .inl ⟨rfl, rfl⟩, fun i _ hi => absurd hi i.not_lt_zero⟩
  | succ k ih =>
    cases hlanding : (m.after k).landing? with
    | some base =>
      exact ⟨k + 1, base, Nat.le_refl _, .inr ⟨k, rfl, hlanding⟩, fun i hj hi => by omega⟩
    | none =>
      obtain ⟨j, base, hle, hlanded, hsince⟩ := ih
      refine ⟨j, base, Nat.le_succ_of_le hle, hlanded, fun i hj hi => ?_⟩
      rcases Nat.lt_succ_iff_lt_or_eq.mp hi with hlt | rfl
      · exact hsince i hj hlt
      · exact hlanding

/-- The program counter after a run of one step or more, from any program counter on and otherwise
in range. Every step succeeds. Where the last jump or return has sent it, or else where it stood at
the beginning, two cells for each step since then and the skip distance for each skip taken since
then: that, reduced to an address, is where it stands. -/
theorem run_pc_eq (m : Machine) (hv : m.variant.Sound) (h : m.aligned.InRange) (k : Nat)
    (hk : 1 ≤ k) :
    (∀ i < k, (step (m.after i)).answer = .ok ()) ∧
    (∃ j base, m.LandedLast k j base) ∧
    ∀ j base, m.LandedLast k j base →
      (m.after k).pc =
        (base + 2 * (k - j) + m.skipsSince j k * m.variant.skipDistance) % m.capacity := by
  refine ⟨fun i _ => (step_of_aligned h hv i).1, m.exists_landedLast k, fun j base hl => ?_⟩
  have hreduced : (m.after k).pc % m.capacity = (m.after k).pc := by
    obtain ⟨i, rfl⟩ := Nat.exists_eq_add_of_le' hk
    obtain ⟨-, hnext, hvariant⟩ := step_of_aligned h hv i
    have hcapacity : (m.after i).capacity = m.capacity := congrArg (·.capacity) hvariant
    rw [hnext, next_pc_eq, hcapacity]
    exact Int.emod_emod_of_dvd _ (Int.dvd_refl _)
  exact hreduced.symm.trans (hl.pc_modEq h hv)

private def backward : Variant := { Variant.nv32 with skipDistance := -6 }

/-- Begins in front of memory, compares, jumps, pops from an empty stack and skips back. -/
private def circling : Machine :=
  { Machine.fresh backward with
    memory := List.replicate 15 0 ++ [15, 0, 11, 4, 0, 4, 0, 9] ++ List.replicate 9 0
    pc := -17 }

theorem run_pc_eq_of_circling :
    circling.variant.Sound ∧ circling.aligned.InRange ∧ circling.LandedLast 4 2 19 ∧
      circling.skipsSince 2 4 = 1 ∧ (circling.after 4).pc = 17 := by
  have hv : circling.variant.Sound := ⟨by decide, by decide, by decide, by decide⟩
  have hr : circling.aligned.InRange := { fresh_inRange hv with
    memory_length := by decide
    memory_nibble := by decide
    pc_cell := by decide }
  have hl : circling.LandedLast 4 2 19 := by
    refine ⟨by decide, .inr ⟨1, rfl, by decide +kernel⟩, fun i hj hi => ?_⟩
    obtain rfl | rfl : i = 2 ∨ i = 3 := by omega
    · decide +kernel
    · decide +kernel
  have hskips : circling.skipsSince 2 4 = 1 := by decide +kernel
  obtain ⟨-, -, hpc⟩ := run_pc_eq circling hv hr 4 (by decide)
  refine ⟨hv, hr, hl, hskips, ?_⟩
  rw [hpc 2 19 hl, hskips]
  decide

end FourBit.Machine
