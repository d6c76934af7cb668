import FourBit.Proofs.Machine.Stack

/-! Flags: what they tell of the instructions that a run has executed.
Additions, subtractions and comparisons set flags from what A holds, and all other instructions
leave those alone, whether they are carried out or refused. So each of them tells of the last
instruction that set it. -/
namespace FourBit

/-- What an instruction works out from A and a value, as far as flags tell of it. -/
inductive Calculation where
  | add (value : Int)
  | subtract (value : Int)
  | compare (value : Int)
  deriving DecidableEq, Repr

/-- What a calculation makes of a flag when A holds `a`, if it sets it. -/
def Calculation.setting? (a : Int) : Calculation → Flag → Option Bool
  | add value, .carry => some (15 < a + value)
  | subtract value, .carry | subtract value, .negative => some (a < value)
  | compare value, .equal => some (a = value)
  | _, _ => none

namespace Machine
variable {m : Machine}

def calculation? (m : Machine) (i : Instruction) : Option Calculation :=
  match Primary.ofCode? i.opcode with
  | some .add => some (.add (m.cell (lowNibble i.operand)))
  | some .addi => some (.add (lowNibble i.operand))
  | some .sub | some .subi => some (.subtract (lowNibble i.operand))
  | some .cmp | some .cmpi => some (.compare (lowNibble i.operand))
  | some .secondary =>
    match selectSecondary m.variant (lowNibble i.operand) with
    | some .addB => some (.add m.b)
    | some .addC => some (.add m.c)
    | _ => none
  | _ => none

def setting? (m : Machine) (f : Flag) : Option Bool :=
  (m.calculation? m.current).bind fun x => x.setting? m.a f

/-- What the last instruction of a run that sets a flag by a calculation makes of it. -/
def lastSetting? (m : Machine) (n : Nat) (f : Flag) : Option Bool :=
  (m.along n fun m _ => m.setting? f).getLast?

private def flagAfter (m : Machine) (x : Option Calculation) (f : Flag) : Int :=
  ((x.bind fun x => x.setting? m.a f).map bit).getD (m.flag f)

private theorem flag_added (h : m.flags.length = 4) (value : Int) (f : Flag) :
    (m.added value).flag f = m.flagAfter (some (.add value)) f := by
  change (m.setFlag .carry (bit (15 < m.a + value))).flag f = _
  rw [flag_setFlag h]
  cases f <;> rfl

private theorem flag_subtracted (h : m.flags.length = 4) (value : Int) (f : Flag) :
    (m.subtracted value).flag f = m.flagAfter (some (.subtract value)) f := by
  have hborrow : m.a - value < 0 ↔ m.a < value := by omega
  have hlength : (m.setFlag .carry (bit (m.a - value < 0))).flags.length = 4 := by
    rw [setFlag, List.length_set, h]
  change ((m.setFlag .carry _).setFlag .negative _).flag f = _
  rw [flag_setFlag hlength, flag_setFlag h, decide_eq_decide.mpr hborrow]
  cases f <;> rfl

private theorem flag_compared (h : m.flags.length = 4) (value : Int) (f : Flag) :
    (m.setFlag .equal (bit (m.a == value))).flag f = m.flagAfter (some (.compare value)) f := by
  rw [flag_setFlag h]
  cases f <;> rfl

private theorem flag_secondaryDone (h : m.flags.length = 4) {i : Instruction} {s : Secondary}
    (hp : Primary.ofCode? i.opcode = some .secondary)
    (hsel : selectSecondary m.variant (lowNibble i.operand) = some s) (f : Flag) :
    (m.secondaryDone s).flag f = m.flagAfter (m.calculation? i) f := by
  have hskip (g : Flag) : (m.skipped g).flag f = m.flag f := by
    rw [skipped_eq]
    rfl
  rw [calculation?, hp]
  simp only [hsel]
  cases s with
  | addB | addC => exact flag_added h _ f
  | skipCarry | skipNegative | skipEqual => exact hskip _
  | _ => rfl

private theorem flag_primaryDone (h : m.flags.length = 4) {i : Instruction} {p : Primary}
    (hp : Primary.ofCode? i.opcode = some p) (hne : p ≠ .secondary) (f : Flag) :
    (m.primaryDone (lowNibble i.operand) p).flag f = m.flagAfter (m.calculation? i) f := by
  rw [calculation?, hp]
  cases p with
  | secondary => contradiction
  | add | addi => exact flag_added h _ f
  | sub | subi => exact flag_subtracted h _ f
  | cmp | cmpi => exact flag_compared h _ f
  | _ => rfl

theorem done_flag (h : m.flags.length = 4) {i : Instruction} (hf : m.fault? i = none) (f : Flag) :
    (m.done i).flag f =
      (((m.calculation? i).bind fun x => x.setting? m.a f).map bit).getD (m.flag f) := by
  refine done_cases (motive := fun m' => m'.flag f = m.flagAfter (m.calculation? i) f) hf ?_ ?_
  · intro s hp hsel _
    exact flag_secondaryDone h hp hsel f
  · intro p hp hne
    exact flag_primaryDone h hp hne f

private theorem calculation?_of_fault {i : Instruction} {fault : Fault}
    (hf : m.fault? i = some fault) : m.calculation? i = none := by
  rcases fault?_eq_some_iff.mp hf with ⟨hp, -⟩ | ⟨hp, ⟨hsel, -⟩ | ⟨s, hsel, hs⟩⟩
  · rw [calculation?, hp]
  · simp only [calculation?, hp, hsel]
  · simp only [calculation?, hp, hsel]
    cases s with
    | addB | addC => cases hs
    | _ => rfl

theorem faulted_flag (h : m.flags.length = 4) (fault : Fault) {f : Flag} (hf : f ≠ .error) :
    (m.faulted fault).flag f = m.flag f := by
  cases fault with
  | stackOverflow | stackUnderflow =>
    exact (flag_setFlag h .error f 1).trans (if_neg hf.symm)
  | invalidOperand | invalidOpcode => rfl

theorem next_flag (h : m.flags.length = 4) {f : Flag} (hf : f ≠ .error) :
    m.next.flag f = ((m.setting? f).map bit).getD (m.flag f) := by
  change (m.started.performed m.current).flag f = _
  have hlength : m.started.flags.length = 4 := h
  cases hfault : m.started.fault? m.current with
  | some fault =>
    have hnone : m.calculation? m.current = none := calculation?_of_fault (m := m.started) hfault
    rw [performed_of_some hfault, faulted_flag hlength fault hf, setting?, hnone]
    rfl
  | none =>
    rw [performed_of_none hfault, done_flag hlength hfault]
    rfl

theorem InRange.after_flag (h : m.InRange) (hv : m.variant.Sound) (n : Nat) {f : Flag}
    (hf : f ≠ .error) :
    (m.after n).flag f = ((m.lastSetting? n f).map bit).getD (m.flag f) := by
  induction n with
  | zero => rfl
  | succ n ih =>
    have hlast : m.lastSetting? (n + 1) f =
        ((m.after n).setting? f).or (m.lastSetting? n f) := by
      rw [lastSetting?, along_succ, List.getLast?_append, lastSetting?]
      cases (m.after n).setting? f <;> rfl
    rw [h.after_succ' hv, next_flag (h.after hv n).1.flags_length hf, hlast]
    cases (m.after n).setting? f with
    | none => exact ih
    | some b => rfl

/-- The flags of a run of a machine in range. Each step fetches its pair and succeeds. One that
neither adds, subtracts nor compares, or that is refused, leaves the flags for carry, negative and
equal alone, and at the end each of them is as the last step that set it has made it: carry tells
whether a sum of A and the value added was no nibble or A was less than the value subtracted,
negative whether A was less than the value subtracted, and equal whether A was the value that it was
compared with. A flag that no step has set is as before. -/
theorem run_flags_tell_last (m : Machine) (hv : m.variant.Sound) (h : m.InRange) (n : Nat) :
    (∀ k < n, (fetch (m.after k)).answer = .ok (m.after k).current ∧
      (step (m.after k)).answer = .ok ()) ∧
    ∀ f ≠ .error,
      (∀ k < n, (m.after k).setting? f = none →
        (m.after (k + 1)).flag f = (m.after k).flag f) ∧
      (m.after n).flag f = ((m.lastSetting? n f).map bit).getD (m.flag f) := by
  refine ⟨fun k _ => ?_, fun f hf => ⟨fun k _ hnone => ?_, h.after_flag hv n hf⟩⟩
  · have hr := (h.after hv k).1
    rw [fetch_run hr.memory_length hr.pc_cell]
    exact ⟨rfl, h.after_answer hv k⟩
  · rw [h.after_succ' hv, next_flag (h.after hv k).1.flags_length hf, hnone]
    rfl

/-- Adds with a carry, compares equal, pops from an empty stack, and loads another value into A. The
negative flag is set from the beginning. -/
private def telling : Machine :=
  { Machine.fresh .nv32 with
    memory := List.replicate 15 0 ++ [10, 9, 13, 8, 15, 2, 0, 2, 10, 7] ++ List.replicate 7 0
    flags := [0, 1, 0, 0] }

theorem run_flags_tell_last_of_telling :
    telling.variant.Sound ∧ telling.InRange ∧
      telling.lastSetting? 5 .carry = some true ∧ (telling.after 5).flag .carry = 1 ∧
      telling.lastSetting? 5 .equal = some true ∧ (telling.after 5).flag .equal = 1 ∧
      telling.lastSetting? 5 .negative = none ∧ (telling.after 5).flag .negative = 1 := by
  have hv : telling.variant.Sound := Variant.builtin_sound .nv32 (by decide)
  have hr : telling.InRange := { fresh_inRange hv with
    memory_length := by decide
    memory_nibble := by decide
    flags_length := rfl
    flags_bit := by decide }
  have hcarry : telling.lastSetting? 5 .carry = some true := by decide +kernel
  have hequal : telling.lastSetting? 5 .equal = some true := by decide +kernel
  have hnegative : telling.lastSetting? 5 .negative = none := by decide +kernel
  obtain ⟨-, hflags⟩ := run_flags_tell_last telling hv hr 5
  refine ⟨hv, hr, hcarry, ?_, hequal, ?_, hnegative, ?_⟩
  · rw [(hflags .carry (by decide)).2, hcarry]
    rfl
  · rw [(hflags .equal (by decide)).2, hequal]
    rfl
  · rw [(hflags .negative (by decide)).2, hnegative]
    rfl

end Machine
end FourBit
