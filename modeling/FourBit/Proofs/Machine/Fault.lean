import FourBit.Proofs.Machine.Flag

/-! Faults: what a step makes of an instruction that is refused.
The pair of an instruction and the stack pointer decide whether there is a fault and which one. A
step with a fault goes on to the next instruction and does nothing else but record it, so that a
run tells of its faults by the error flag and by its warnings. -/
namespace FourBit

def Fault.OfStack (fault : Fault) : Prop := fault = .stackOverflow ∨ fault = .stackUnderflow

instance (fault : Fault) : Decidable fault.OfStack := inferInstanceAs (Decidable (_ ∨ _))

namespace Machine
variable {m : Machine}

/-- A step from one machine to another has the fault that its instruction calls for. If there is
one, nothing else has happened but that the step has been taken. -/
structure RecordsFault (m m' : Machine) : Prop where
  overflow : m'.lastFault = some .stackOverflow ↔
    (m.current = ⟨0, 1⟩ ∨ m.current = ⟨0, 3⟩) ∧ m.variant.stackBoundary ≤ m.sp
  underflow : m'.lastFault = some .stackUnderflow ↔
    (m.current = ⟨0, 2⟩ ∨ m.current = ⟨0, 4⟩) ∧ m.sp = 0
  invalid_operand : m'.lastFault = some .invalidOperand ↔
    m.current.opcode = 0 ∧ (12 ≤ m.current.operand ∨
      (m.current.operand = 10 ∨ m.current.operand = 11) ∧ m.variant.registerAdds = false)
  known_opcode : m'.lastFault ≠ some .invalidOpcode
  otherwise_idle : ∀ fault, m'.lastFault = some fault → m' =
    { m with
      pc := (m.pc + 2) % m.capacity
      cycles := m.cycles + 1
      lastFault := some fault
      flags := if fault.OfStack then m.flags.set Flag.error.place 1 else m.flags }

def reports (m : Machine) (n : Nat) : List Event :=
  (List.range n).flatMap fun k => (step (m.after k)).events

def StackFaulted (m : Machine) : Prop := ∃ fault : Fault, fault.OfStack ∧ m.lastFault = some fault

theorem stackFault?_eq_some_iff {s : Secondary} {fault : Fault} :
    m.stackFault? s = some fault ↔
      (s = .pushA ∨ s = .pushPc) ∧ m.variant.stackBoundary ≤ m.sp ∧ fault = .stackOverflow ∨
        (s = .popA ∨ s = .popPc) ∧ m.sp = 0 ∧ fault = .stackUnderflow := by
  cases s <;> simp [stackFault?, eq_comm]

theorem usesStack_of_stackFault? {s : Secondary} {fault : Fault}
    (h : m.stackFault? s = some fault) : s.UsesStack := by
  rcases stackFault?_eq_some_iff.mp h with ⟨rfl | rfl, -⟩ | ⟨rfl | rfl, -⟩ <;> decide

/-- Operands without an operation: the last four, and those of register additions on a variant
that has none. -/
theorem selectSecondary_eq_none_iff {v : Variant} {operand : Nat} :
    selectSecondary v operand = none ↔
      12 ≤ operand ∨ (operand = 10 ∨ operand = 11) ∧ v.registerAdds = false := by
  rcases Nat.lt_or_ge operand 12 with hlt | hge
  · obtain ⟨s, hs⟩ : ∃ s, Secondary.all[operand]? = some s := ⟨_, List.getElem?_eq_getElem hlt⟩
    have hcode : Secondary.ofCode? operand = some s := hs
    have hplace {n : Nat} {x : Secondary} (hx : Secondary.all[n]? = some x) :
        s = x ↔ operand = n := by
      rw [← Option.some_inj, ← hs, ← hx]
      exact List.getElem?_inj hlt (by decide)
    have hnone : selectSecondary v operand = none ↔
        (s = .addB ∨ s = .addC) ∧ v.registerAdds = false := by
      simp [selectSecondary, hcode, and_comm, or_iff_not_imp_left]
    rw [hnone, hplace (n := 10) rfl, hplace (n := 11) rfl, or_iff_right (Nat.not_le_of_lt hlt)]
  · have hcode : Secondary.ofCode? operand = none := List.getElem?_eq_none hge
    rw [selectSecondary, hcode]
    exact ⟨fun _ => .inl hge, fun _ => rfl⟩

private theorem next_lastFault_iff (h : m.InRange) {fault : Fault} :
    m.next.lastFault = some fault ↔
      (∃ s, m.current.secondary? = some s ∧ m.stackFault? s = some fault) ∨
        m.current.opcode = 0 ∧ selectSecondary m.variant (lowNibble m.current.operand) = none ∧
          fault = .invalidOperand := by
  rw [next_lastFault, fault?_eq_some_iff]
  constructor
  · rintro (⟨hp, -⟩ | ⟨hp, ⟨hno, hf⟩ | ⟨s, hsel, hs⟩⟩)
    · exact absurd hp (Option.isSome_iff_ne_none.mp (ofCode?_isSome h.current_opcode))
    · exact .inr ⟨ofCode?_secondary.mp hp, hno, hf⟩
    · exact .inl ⟨s, h.secondary?_of_select hp hsel, hs⟩
  · rintro (⟨s, hsec, hs⟩ | ⟨hz, hno, hf⟩)
    · obtain ⟨hp, hsel⟩ := h.select_of_secondary? (usesStack_of_stackFault? hs) hsec
      exact .inr ⟨hp, .inr ⟨s, hsel, hs⟩⟩
    · exact .inr ⟨ofCode?_secondary.mpr hz, .inl ⟨hno, hf⟩⟩

private theorem exists_secondary?_iff {i : Instruction} {s t : Secondary} {j k : Nat}
    (hs : Secondary.all[j]? = some s) (ht : Secondary.all[k]? = some t) {P : Prop} :
    (∃ u, i.secondary? = some u ∧ (u = s ∨ u = t) ∧ P) ↔ (i = ⟨0, j⟩ ∨ i = ⟨0, k⟩) ∧ P := by
  rw [← secondary?_eq_some_iff hs, ← secondary?_eq_some_iff ht]
  constructor
  · rintro ⟨u, hu, rfl | rfl, hP⟩
    · exact ⟨.inl hu, hP⟩
    · exact ⟨.inr hu, hP⟩
  · rintro ⟨hu | hu, hP⟩
    · exact ⟨s, hu, .inl rfl, hP⟩
    · exact ⟨t, hu, .inr rfl, hP⟩

theorem InRange.next_overflow_iff (h : m.InRange) :
    m.next.lastFault = some .stackOverflow ↔
      (m.current = ⟨0, 1⟩ ∨ m.current = ⟨0, 3⟩) ∧ m.variant.stackBoundary ≤ m.sp := by
  have hpairs := exists_secondary?_iff (i := m.current) (j := 1) (k := 3) rfl rfl
    (P := m.variant.stackBoundary ≤ m.sp)
  rw [next_lastFault_iff h]
  simpa [stackFault?_eq_some_iff] using hpairs

theorem InRange.next_underflow_iff (h : m.InRange) :
    m.next.lastFault = some .stackUnderflow ↔
      (m.current = ⟨0, 2⟩ ∨ m.current = ⟨0, 4⟩) ∧ m.sp = 0 := by
  have hpairs := exists_secondary?_iff (i := m.current) (j := 2) (k := 4) rfl rfl (P := m.sp = 0)
  rw [next_lastFault_iff h]
  simpa [stackFault?_eq_some_iff] using hpairs

theorem InRange.next_invalidOperand_iff (h : m.InRange) :
    m.next.lastFault = some .invalidOperand ↔
      m.current.opcode = 0 ∧ (12 ≤ m.current.operand ∨
        (m.current.operand = 10 ∨ m.current.operand = 11) ∧ m.variant.registerAdds = false) := by
  have hoperand := h.operand_eq
  have hnone : selectSecondary m.variant (lowNibble m.current.operand) = none ↔
      12 ≤ m.current.operand ∨
        (m.current.operand = 10 ∨ m.current.operand = 11) ∧ m.variant.registerAdds = false := by
    generalize lowNibble m.current.operand = n at hoperand
    rw [selectSecondary_eq_none_iff, ← hoperand]
    norm_cast
  rw [next_lastFault_iff h, hnone]
  constructor
  · rintro (⟨s, -, hf⟩ | ⟨hz, hno, -⟩)
    · rcases stackFault?_eq_some_iff.mp hf with ⟨-, -, hf⟩ | ⟨-, -, hf⟩ <;> cases hf
    · exact ⟨hz, hno⟩
  · rintro ⟨hz, hno⟩
    exact .inr ⟨hz, hno, rfl⟩

theorem next_of_fault {fault : Fault} (hf : m.next.lastFault = some fault) :
    m.next =
      { m with
        pc := (m.pc + 2) % m.capacity
        cycles := m.cycles + 1
        lastFault := some fault
        flags := if fault.OfStack then m.flags.set Flag.error.place 1 else m.flags } := by
  rw [next_lastFault] at hf
  rw [next, performed_of_some hf]
  cases fault <;> rfl

theorem InRange.recordsFault (h : m.InRange) : m.RecordsFault m.next where
  overflow := h.next_overflow_iff
  underflow := h.next_underflow_iff
  invalid_operand := h.next_invalidOperand_iff
  known_opcode := by
    rw [next_lastFault]
    exact fault?_ne_invalidOpcode h.current_opcode
  otherwise_idle _ := next_of_fault

theorem InRange.next_error_iff (h : m.InRange) :
    m.next.flag .error = 1 ↔ m.flag .error = 1 ∨ m.next.StackFaulted := by
  cases hf : m.started.fault? m.current with
  | some fault =>
    have hfault : m.next.lastFault = some fault := (next_lastFault m).trans hf
    have hflags : m.next.flag .error = if fault.OfStack then 1 else m.flag .error := by
      rw [next_of_fault hfault]
      split
      · exact (flag_setFlag h.flags_length .error .error 1).trans (if_pos rfl)
      · rfl
    have hstack : m.next.StackFaulted ↔ fault.OfStack := by
      constructor
      · rintro ⟨other, hother, hsome⟩
        obtain rfl : fault = other := Option.some_inj.mp (hfault.symm.trans hsome)
        exact hother
      · intro hof
        exact ⟨fault, hof, hfault⟩
    rw [hflags, hstack]
    split <;> simp [*]
  | none =>
    have hfault : m.next.lastFault = none := (next_lastFault m).trans hf
    have hkept : m.next.flag .error = m.flag .error := by
      change (m.started.performed m.current).flag .error = m.flag .error
      rw [performed_of_none hf, done_flag (m := m.started) h.flags_length hf]
      cases m.started.calculation? m.current with
      | none => rfl
      | some x => cases x <;> rfl
    have hquiet : ¬ m.next.StackFaulted := by
      rintro ⟨fault, -, hsome⟩
      rw [hfault] at hsome
      cases hsome
    rw [hkept, or_iff_left hquiet]

theorem InRange.countP_step (h : m.InRange) (hv : m.variant.Sound) :
    (step m).events.countP (·.level = .warning) = if m.next.lastFault.isSome then 1 else 0 := by
  rw [h.step_run hv, next_lastFault]
  cases m.started.fault? m.current with
  | none => rfl
  | some fault => cases fault <;> rfl

theorem InRange.after_error_iff (h : m.InRange) (hv : m.variant.Sound) (n : Nat) :
    (m.after n).flag .error = 1 ↔
      m.flag .error = 1 ∨ ∃ k < n, (m.after (k + 1)).StackFaulted := by
  induction n with
  | zero => simp [after_zero]
  | succ n ih =>
    rw [h.after_succ' hv, (h.after hv n).1.next_error_iff, ih, ← h.after_succ' hv, or_assoc]
    simp only [Nat.lt_succ_iff_lt_or_eq, or_and_right, exists_or, exists_eq_left]

theorem InRange.countP_reports (h : m.InRange) (hv : m.variant.Sound) (n : Nat) :
    (m.reports n).countP (·.level = .warning) =
      (List.range n).countP fun k => (m.after (k + 1)).lastFault.isSome := by
  induction n with
  | zero => rfl
  | succ n ih =>
    obtain ⟨hr, hs⟩ := h.after hv n
    have hlast := hr.countP_step (hs ▸ hv)
    rw [← h.after_succ' hv] at hlast
    rw [reports, List.range_succ, List.flatMap_append, List.flatMap_singleton, ← reports,
      List.countP_append, List.countP_append, List.countP_singleton, ih, hlast]

/-- A run of a machine in range. Each step fetches its pair and succeeds; it has the fault that the
pair and the stack pointer call for, and with a fault it does nothing but record that and go on to
the next pair. At the end the error flag is set if it was set before or some step had a fault of
the stack, and there is one warning for each step that had a fault. -/
theorem run_records_faults (m : Machine) (hv : m.variant.Sound) (h : m.InRange) (n : Nat) :
    (∀ k < n, (fetch (m.after k)).answer = .ok (m.after k).current ∧
      (step (m.after k)).answer = .ok () ∧ (m.after k).RecordsFault (m.after (k + 1))) ∧
    ((m.after n).flag .error = 1 ↔
      m.flag .error = 1 ∨ ∃ k < n, (m.after (k + 1)).StackFaulted) ∧
    (m.reports n).countP (·.level = .warning) =
      (List.range n).countP fun k => (m.after (k + 1)).lastFault.isSome := by
  refine ⟨?_, h.after_error_iff hv n, h.countP_reports hv n⟩
  intro k _
  have hr := (h.after hv k).1
  refine ⟨?_, h.after_answer hv k, ?_⟩
  · rw [fetch_run hr.memory_length hr.pc_cell]
  · rw [h.after_succ' hv]
    exact hr.recordsFault

/-- Pops from an empty stack, asks for an addition that its variant has not, and pushes at the
boundary. -/
private def refused : Machine :=
  { Machine.fresh .nv32 with
    memory := List.replicate 15 0 ++ [0, 2, 0, 10, 12, 14, 0, 1] ++ List.replicate 9 0 }

theorem run_records_faults_of_refused :
    refused.variant.Sound ∧ refused.InRange ∧
      (∀ k < 4, (refused.after k).RecordsFault (refused.after (k + 1))) ∧
      (refused.after 4).flag .error = 1 ∧
      (refused.reports 4).countP (·.level = .warning) = 3 := by
  have hv : refused.variant.Sound := Variant.builtin_sound .nv32 (by decide)
  have hr : refused.InRange := { fresh_inRange hv with
    memory_length := by decide
    memory_nibble := by decide }
  obtain ⟨hsteps, herror, hwarnings⟩ := run_records_faults refused hv hr 4
  refine ⟨hv, hr, fun k hk => (hsteps k hk).2.2, ?_, ?_⟩
  · have hpop : (refused.after 1).lastFault = some .stackUnderflow := by decide +kernel
    exact herror.mpr (.inr ⟨0, by decide, .stackUnderflow, .inr rfl, hpop⟩)
  · rw [hwarnings]
    decide +kernel

end Machine
end FourBit
