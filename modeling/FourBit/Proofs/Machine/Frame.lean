import FourBit.Proofs.Machine.Load
import FourBit.Proofs.Machine.Stack

/-! What a run may write.
A step writes at most one cell, which a store names by its operand and a push by the stack pointer.
Cells that neither can reach keep their values, and on the built-in machines that is all of a
program but its first nibble. -/
namespace FourBit.Machine
variable {m : Machine}

/-- The next instruction writes a cell: it stores A there, or it pushes something there and is not
refused. -/
inductive Writes (m : Machine) (i : Nat) : Prop where
  | store (sta : Primary.ofCode? m.current.opcode = some .sta)
    (operand : (i : Int) = m.current.operand) (lt : i < 16)
  | push (pushes : m.current.secondary? = some .pushA ∨ m.current.secondary? = some .pushPc)
    (pointer : (i : Int) = m.sp) (lt : i < m.variant.stackBoundary)

instance (m : Machine) (i : Nat) : Decidable (m.Writes i) :=
  decidable_of_iff
    (Primary.ofCode? m.current.opcode = some .sta ∧ (i : Int) = m.current.operand ∧ i < 16 ∨
      (m.current.secondary? = some .pushA ∨ m.current.secondary? = some .pushPc) ∧
        (i : Int) = m.sp ∧ i < m.variant.stackBoundary)
    ⟨fun h => h.elim (fun ⟨sta, operand, lt⟩ => .store sta operand lt) fun ⟨pushes, pointer, lt⟩ =>
        .push pushes pointer lt,
      fun h => match h with
        | .store sta operand lt => .inl ⟨sta, operand, lt⟩
        | .push pushes pointer lt => .inr ⟨pushes, pointer, lt⟩⟩

private theorem memory_secondaryDone {s : Secondary} (hpush : s ≠ .pushA ∧ s ≠ .pushPc) :
    (m.secondaryDone s).memory = m.memory := by
  have hskip (f : Flag) : (m.skipped f).memory = m.memory := by rw [skipped_eq]
  cases s with
  | pushA => exact absurd rfl hpush.1
  | pushPc => exact absurd rfl hpush.2
  | skipCarry | skipNegative | skipEqual => exact hskip _
  | _ => rfl

private theorem memory_primaryDone {operand : Nat} {p : Primary} (hp : p ≠ .secondary)
    (hsta : p ≠ .sta) : (m.primaryDone operand p).memory = m.memory := by
  cases p with
  | secondary | sta => contradiction
  | _ => rfl

theorem next_memory (hsp : 0 ≤ m.sp)
    (ho : (lowNibble m.current.operand : Int) = m.current.operand) :
    m.next.memory = m.memory ∨
      ∃ i value, m.Writes i ∧ m.next.memory = m.memory.set i value := by
  change (m.started.performed m.current).memory = m.memory ∨
    ∃ i value, m.Writes i ∧ (m.started.performed m.current).memory = m.memory.set i value
  cases hf : m.started.fault? m.current with
  | some fault =>
    rw [performed_of_some hf]
    cases fault <;> exact .inl rfl
  | none =>
    rw [performed_of_none hf]
    refine done_cases (motive := fun m' => m'.memory = m.memory ∨
      ∃ i value, m.Writes i ∧ m'.memory = m.memory.set i value) hf ?_ ?_
    · intro s hp hsel hs
      by_cases hpush : s = .pushA ∨ s = .pushPc
      · have hsec := secondary?_of_select ho hp hsel
        have hroom : m.started.sp < m.started.variant.stackBoundary := by
          rcases hpush with rfl | rfl <;> simpa [stackFault?] using hs
        change m.sp < m.variant.stackBoundary at hroom
        have hpushes :
            m.current.secondary? = some .pushA ∨ m.current.secondary? = some .pushPc := by
          rcases hpush with rfl | rfl
          · exact .inl hsec
          · exact .inr hsec
        have hwrites : m.Writes m.sp.toNat := .push hpushes (by omega) (by omega)
        rcases hpush with rfl | rfl <;> exact .inr ⟨_, _, hwrites, rfl⟩
      · exact .inl (memory_secondaryDone (not_or.mp hpush))
    · intro p hp hne
      by_cases hsta : p = .sta
      · subst hsta
        exact .inr ⟨_, _, .store hp ho (lowNibble_lt _), rfl⟩
      · exact .inl (memory_primaryDone hne hsta)

theorem InRange.next_memory (h : m.InRange) :
    m.next.memory = m.memory ∨
      ∃ i value, m.Writes i ∧ m.next.memory = m.memory.set i value :=
  Machine.next_memory h.sp_cell.1 h.operand_eq

theorem next_cell (hsp : 0 ≤ m.sp) (ho : (lowNibble m.current.operand : Int) = m.current.operand)
    {i : Nat} (hw : ¬ m.Writes i) : m.next.memory[i]? = m.memory[i]? := by
  rcases next_memory hsp ho with he | ⟨j, value, hj, he⟩
  · rw [he]
  · rw [he, List.getElem?_set_ne]
    rintro rfl
    exact hw hj

/-- A cell that no step of a run writes keeps its value. -/
theorem InRange.after_cell (h : m.InRange) (hv : m.variant.Sound) (n : Nat) {i : Nat}
    (hw : ∀ k < n, ¬ (m.after k).Writes i) : (m.after n).memory[i]? = m.memory[i]? := by
  induction n with
  | zero => rfl
  | succ n ih =>
    have hr := (h.after hv n).1
    rw [h.after_succ' hv, next_cell hr.sp_cell.1 hr.operand_eq (hw n n.lt_succ_self)]
    exact ih fun k hk => hw k (Nat.lt_succ_of_lt hk)

theorem not_writes_of_le {i : Nat} (hi : max 16 m.variant.stackBoundary ≤ i) : ¬ m.Writes i := by
  rintro (⟨_, _, hlt⟩ | ⟨_, _, hlt⟩) <;> omega

/-- On a built-in machine only a store at the last operand writes where programs stand, and it
writes the first nibble. -/
theorem Writes.of_builtin {i : Nat} (hw : m.Writes i) (hv : m.variant ∈ Variant.builtin)
    (hi : 15 ≤ i) : i = 15 ∧ m.current = ⟨2, 15⟩ := by
  have hb : m.variant.stackBoundary = 14 := by
    rcases List.mem_cons.mp hv with he | he
    · rw [he]
      rfl
    · rw [List.mem_singleton.mp he]
      rfl
  obtain ⟨hsta, hoperand, hlt⟩ | ⟨_, _, hlt⟩ := hw
  · obtain rfl : i = 15 := by omega
    have hcode : m.current.opcode = 2 := code_of_ofCode? (n := 2) rfl hsta
    exact ⟨rfl, by cases hc : m.current; simp_all⟩
  · omega

theorem builtin_origin (hv : m.variant ∈ Variant.builtin) : m.origin = 15 := by
  rcases List.mem_cons.mp hv with he | he
  · rw [origin, he]
    rfl
  · rw [origin, List.mem_singleton.mp he]
    rfl

theorem InRange.after_sp_le (h : m.InRange) (hv : m.variant.Sound) (n : Nat)
    (hs : m.sp ≤ max 15 m.variant.stackBoundary) :
    (m.after n).sp ≤ max 15 m.variant.stackBoundary := by
  have hroom := hv.capacity_ge
  have hboundary := m.variant.boundary_le
  have hb : m.variant.Bounds 16 (max 15 m.variant.stackBoundary) :=
    hv.bounds (by omega) (by omega) (by omega)
  exact ((h.bounded_of_le hs).after hb n).1.sp_le.2

/-- After any run of a built-in machine the nibbles of its program stand where they were put,
except that the first may have been stored over. -/
theorem InRange.after_placed (h : m.InRange) (hv : m.variant ∈ Variant.builtin)
    {nibbles : List Nibble} (hn : nibbles.length ≤ m.variant.programSpace) (n : Nat) {i : Nat}
    (hi : i < nibbles.length) :
    ((Machine.place nibbles m).after n).memory[15 + i]? = some (nibbles[i].val : Int) ∨
      i = 0 ∧ ∃ k < n, ((Machine.place nibbles m).after k).current = ⟨2, 15⟩ := by
  have hsound := Variant.builtin_sound _ hv
  have hplaced := h.place hsound hn
  have hstands := getElem?_place h.memory_length hsound.origin_nonneg hn hi
  rw [builtin_origin hv] at hstands
  by_cases hw : ∃ k < n, ((Machine.place nibbles m).after k).Writes (15 + i)
  · obtain ⟨k, hk, hwrites⟩ := hw
    have hbuiltin : ((Machine.place nibbles m).after k).variant ∈ Variant.builtin := by
      rw [(hplaced.after hsound k).2]
      exact hv
    obtain ⟨hzero, hcurrent⟩ := hwrites.of_builtin hbuiltin (Nat.le_add_right 15 i)
    exact .inr ⟨by omega, k, hk, hcurrent⟩
  · refine .inl ((hplaced.after_cell hsound n fun k hk hwrites => hw ⟨k, hk, hwrites⟩).trans ?_)
    exact hstands

/-- A run of a machine in range. Each step changes one cell at most, which is the operand of a
store or the cell at the stack pointer of a push that is not refused; so the cells that operands
and the boundary leave alone are as before, and a stack pointer that has not passed both does not
pass them. On a built-in machine a program that is loaded stays as it is, except that a store at
the last operand may change its first nibble. -/
theorem run_writes_bounded (m : Machine) (hv : m.variant.Sound) (h : m.InRange) (n : Nat) :
    (∀ k < n, (m.after (k + 1)).memory = (m.after k).memory ∨
      ∃ i value, (m.after k).Writes i ∧
        (m.after (k + 1)).memory = (m.after k).memory.set i value) ∧
    (∀ i : Nat, max 16 m.variant.stackBoundary ≤ i → (m.after n).memory[i]? = m.memory[i]?) ∧
    (m.sp ≤ max 15 m.variant.stackBoundary →
      (m.after n).sp ≤ max 15 m.variant.stackBoundary) ∧
    (m.variant ∈ Variant.builtin → ∀ program nibbles,
      (readProgram program m).answer = .ok nibbles → (load program m).answer = .ok () →
        ∀ i (hi : i < nibbles.length),
          ((load program m).state.after n).memory[15 + i]? = some (nibbles[i].val : Int) ∨
            i = 0 ∧ ∃ k < n, ((load program m).state.after k).current = ⟨2, 15⟩) := by
  refine ⟨fun k _ => ?_, fun i hi => ?_, h.after_sp_le hv n, ?_⟩
  · rw [h.after_succ' hv]
    exact (h.after hv k).1.next_memory
  · refine h.after_cell hv n fun k _ => not_writes_of_le ?_
    rwa [(h.after hv k).2]
  · intro hbuiltin program nibbles hread hload i hi
    rcases load_cases program m with ⟨⟨e, he⟩, -⟩ | ⟨placed, hplaced, hn, hs⟩
    · rw [hload] at he
      cases he
    · obtain rfl : placed = nibbles := Except.ok.inj (hplaced.symm.trans hread)
      rw [hs]
      exact h.after_placed hbuiltin hn n hi

/-- Stores five over its own first nibble, and pushes it. -/
private def storing : List Nibble := [10, 5, 2, 15, 0, 1]

private def storingProgram : Value := .list (storing.map fun n => .int n.val)

theorem run_writes_bounded_of_storing :
    (fresh .nv32).variant.Sound ∧ (fresh .nv32).InRange ∧
      (readProgram storingProgram (fresh .nv32)).answer = .ok storing ∧
      (load storingProgram (fresh .nv32)).answer = .ok () ∧
      (∀ i (hi : i < storing.length),
        ((load storingProgram (fresh .nv32)).state.after 3).memory[15 + i]? =
            some (storing[i].val : Int) ∨
          i = 0 ∧ ∃ k < 3, ((load storingProgram (fresh .nv32)).state.after k).current = ⟨2, 15⟩) ∧
      (place storing (fresh .nv32)).InRange ∧
      ((place storing (fresh .nv32)).after 3).memory[0]? = some 5 ∧
      ((place storing (fresh .nv32)).after 3).memory[15]? = some 5 ∧
      ∀ i : Nat, 16 ≤ i → ((place storing (fresh .nv32)).after 3).memory[i]? =
        (place storing (fresh .nv32)).memory[i]? := by
  have hv : (fresh .nv32).variant.Sound := Variant.builtin_sound .nv32 (by decide)
  have hr := fresh_inRange hv
  have hp : (place storing (fresh .nv32)).InRange := hr.place hv (by decide)
  have hread : (readProgram storingProgram (fresh .nv32)).answer = .ok storing := rfl
  have hload : (load storingProgram (fresh .nv32)).answer = .ok () := rfl
  obtain ⟨-, -, -, hloaded⟩ := run_writes_bounded (fresh .nv32) hv hr 3
  obtain ⟨-, hcells, -, -⟩ := run_writes_bounded (place storing (fresh .nv32)) hv hp 3
  refine ⟨hv, hr, hread, hload, hloaded (by decide) _ _ hread hload, hp, by decide +kernel,
    by decide +kernel, fun i hi => hcells i ?_⟩
  change max 16 14 ≤ (i : Int)
  omega

end FourBit.Machine
