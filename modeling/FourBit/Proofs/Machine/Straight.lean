import FourBit.Proofs.Machine.Counter
import FourBit.Proofs.Machine.Frame

/-! Programs that run straight through.
Without jumps, returns and skips the instructions of a program are fetched one after the other, and
none of them can change one that is still to be fetched. Taking steps then is nothing but executing
the instructions in their order. -/
namespace FourBit

/-- Instructions that neither send the program counter anywhere nor push it. -/
def Instruction.Straight (i : Instruction) : Prop :=
  Primary.ofCode? i.opcode ≠ some .jmp ∧
    ∀ s ∈ i.secondary?, s ∉ [.pushPc, .popPc, .skipCarry, .skipNegative, .skipEqual]

instance (i : Instruction) : Decidable i.Straight := inferInstanceAs (Decidable (_ ∧ _))

def Instruction.ofPair (pair : Nibble × Nibble) : Instruction := ⟨pair.1.val, pair.2.val⟩

namespace Machine
variable {m : Machine} {pairs : List (Nibble × Nibble)}

/-- Executes instructions one after the other, wherever the program counter is. -/
def executeAll : List Instruction → Action Machine Unit
  | [] => pure ()
  | i :: rest => do
    execute i
    executeAll rest

def flattened (pairs : List (Nibble × Nibble)) : List Nibble := pairs.flatMap fun p => [p.1, p.2]

private def holding (m : Machine) (pairs : List (Nibble × Nibble)) : Machine :=
  place (flattened pairs) m

private def executed (m : Machine) (pairs : List (Nibble × Nibble)) (k : Nat) : Machine :=
  ((pairs.take k).map .ofPair).foldl performed (m.holding pairs)

private theorem executed_succ {k : Nat} (hk : k < pairs.length) :
    m.executed pairs (k + 1) = (m.executed pairs k).performed (.ofPair pairs[k]) := by
  rw [executed, List.take_succ_eq_append_getElem hk, List.map_append, List.foldl_append]
  rfl

/-- A machine with another program counter and other records of its last steps. -/
private def elsewhere (m : Machine) (pc : Int) (fault : Option Fault) (cycles : Int) : Machine :=
  { m with
    pc := pc
    lastFault := fault
    cycles := cycles }

private theorem secondaryDone_elsewhere {s : Secondary}
    (hs : s ∉ [Secondary.pushPc, .popPc, .skipCarry, .skipNegative, .skipEqual]) (pc : Int)
    (fault : Option Fault) (cycles : Int) :
    (m.elsewhere pc fault cycles).secondaryDone s =
      (m.secondaryDone s).elsewhere pc fault cycles := by
  cases s with
  | pushPc | popPc | skipCarry | skipNegative | skipEqual => exact absurd (by decide) hs
  | _ => rfl

private theorem primaryDone_elsewhere (operand : Nat) {p : Primary} (hp : p ≠ .secondary)
    (hjmp : p ≠ .jmp) (pc : Int) (fault : Option Fault) (cycles : Int) :
    (m.elsewhere pc fault cycles).primaryDone operand p =
      (m.primaryDone operand p).elsewhere pc fault cycles := by
  cases p with
  | secondary | jmp => contradiction
  | _ => rfl

private theorem performed_elsewhere {i : Instruction} (hi : i.Straight)
    (ho : (lowNibble i.operand : Int) = i.operand) (pc : Int) (fault : Option Fault)
    (cycles : Int) :
    (m.elsewhere pc fault cycles).performed i =
      (m.performed i).elsewhere pc ((m.fault? i).or fault) cycles := by
  have hsame : (m.elsewhere pc fault cycles).fault? i = m.fault? i := rfl
  cases hf : m.fault? i with
  | some reason =>
    rw [performed_of_some (hsame.trans hf), performed_of_some hf]
    cases reason <;> rfl
  | none =>
    rw [performed_of_none (hsame.trans hf), performed_of_none hf, Option.none_or, done, done]
    cases hp : Primary.ofCode? i.opcode with
    | none => rfl
    | some p =>
      by_cases hsec : p = .secondary
      · subst hsec
        simp only [Option.map_some, Option.getD_some, primaryDone]
        change ((selectSecondary m.variant (lowNibble i.operand)).map _).getD _ = _
        cases hsel : selectSecondary m.variant (lowNibble i.operand) with
        | none => rfl
        | some s =>
          exact secondaryDone_elsewhere (hi.2 s (secondary?_of_select ho hp hsel)) pc fault cycles
      · have hjmp : p ≠ .jmp := fun he => hi.1 (he ▸ hp)
        exact primaryDone_elsewhere _ hsec hjmp pc fault cycles

private theorem next_elsewhere {m' : Machine} {pc : Int} {fault : Option Fault} {cycles : Int}
    (he : m' = m.elsewhere pc fault cycles) (hi : m'.current.Straight)
    (ho : (lowNibble m'.current.operand : Int) = m'.current.operand) :
    m'.next = (m.performed m'.current).elsewhere ((m'.pc + 2) % m'.capacity)
      (m.fault? m'.current) (m'.cycles + 1) := by
  subst he
  have hperformed := performed_elsewhere (m := m) hi ho ((pc + 2) % m.capacity) none cycles
  rw [Option.or_none] at hperformed
  exact congrArg (fun m' : Machine => { m' with cycles := m'.cycles + 1 }) hperformed

private theorem executeAll_run (h : m.InRange) (hv : m.variant.Sound)
    {instructions : List Instruction}
    (hw : ∀ i ∈ instructions, Numeral.isWritable i.opcode = true) :
    (executeAll instructions m).answer = .ok () ∧
      (executeAll instructions m).state = instructions.foldl performed m := by
  induction instructions generalizing m with
  | nil => exact ⟨rfl, rfl⟩
  | cons i rest ih =>
    obtain ⟨hi, hrest⟩ := List.forall_mem_cons.mp hw
    have hv' : (m.performed i).variant.Sound := by
      rw [performed_variant]
      exact hv
    rw [executeAll, Action.bind_run, execute_run (h.ready hv) hi]
    exact ih (h.performed hv i) hv' hrest

theorem length_flattened (pairs : List (Nibble × Nibble)) :
    (flattened pairs).length = 2 * pairs.length := by
  induction pairs with
  | nil => rfl
  | cons p pairs ih =>
    change (flattened pairs).length + 2 = 2 * (pairs.length + 1)
    omega

theorem getElem?_flattened (pairs : List (Nibble × Nibble)) (k : Nat) :
    (flattened pairs)[2 * k]? = pairs[k]?.map (·.1) ∧
      (flattened pairs)[2 * k + 1]? = pairs[k]?.map (·.2) := by
  induction pairs generalizing k with
  | nil => exact ⟨rfl, rfl⟩
  | cons p pairs ih =>
    cases k with
    | zero => exact ⟨rfl, rfl⟩
    | succ k => exact ih k

section
variable (h : m.InRange) (hv : m.variant.Sound) (hn : 2 * pairs.length ≤ m.variant.programSpace)
include hn

private theorem flattened_fits : (flattened pairs).length ≤ m.variant.programSpace := by
  rw [length_flattened]
  exact_mod_cast hn

include h hv

private theorem holding_after (k : Nat) :
    ((m.holding pairs).after k).InRange ∧ ((m.holding pairs).after k).variant = m.variant :=
  (h.place hv (flattened_fits hn)).after hv k

private theorem holding_after_succ (k : Nat) :
    (m.holding pairs).after (k + 1) = ((m.holding pairs).after k).next :=
  (h.place hv (flattened_fits hn)).after_succ' hv k

variable (ho : 15 ≤ m.origin) (hb : m.variant.stackBoundary ≤ m.origin)
include ho hb

private theorem stands_after {i k : Nat} (hi : k = 0 ∨ 1 ≤ i) {n : Nibble}
    (hs : (flattened pairs)[i]? = some n) :
    ((m.holding pairs).after k).memory[m.origin.toNat + i]? = some (n.val : Int) := by
  have hfits := flattened_fits hn
  obtain ⟨hlt, rfl⟩ := List.getElem?_eq_some_iff.mp hs
  rw [← getElem?_place h.memory_length hv.origin_nonneg hfits hlt]
  rcases hi with rfl | hi
  · rfl
  · apply (h.place hv hfits).after_cell hv
    intro j _
    apply not_writes_of_le
    have hvariant : ((place (flattened pairs) m).after j).variant = m.variant :=
      (holding_after h hv hn j).2
    have horigin : m.variant.programOrigin = m.origin := rfl
    rw [hvariant]
    omega

private theorem current_after {k : Nat} (hk : k < pairs.length)
    (hpc : ((m.holding pairs).after k).pc = m.origin + 2 * k) :
    ((m.holding pairs).after k).current = .ofPair pairs[k] := by
  have hr := (holding_after h hv hn k).1
  obtain ⟨hfirst, hsecond⟩ := getElem?_flattened pairs k
  rw [List.getElem?_eq_getElem hk] at hfirst hsecond
  have hplace : ((m.holding pairs).after k).pc = (m.origin.toNat + 2 * k : Nat) := by omega
  exact current_of_cells hr.memory_length hplace
    (stands_after h hv hn ho hb (by omega) hfirst)
    (stands_after h hv hn ho hb (by omega) hsecond)

/-- The machine after some steps of a program is the one that has executed the same instructions,
but for what these leave alone. -/
private theorem holding_after_eq (hpc : m.pc = m.origin)
    (hs : ∀ p ∈ pairs, (Instruction.ofPair p).Straight) {k : Nat} (hk : k ≤ pairs.length) :
    ∃ fault, (m.holding pairs).after k =
      (m.executed pairs k).elsewhere ((m.origin + 2 * k) % m.capacity) fault (m.cycles + k) := by
  induction k with
  | zero =>
    have horigin : (m.origin + 2 * (0 : Nat)) % m.capacity = m.pc := by
      rw [hpc, Int.natCast_zero, Int.mul_zero, Int.add_zero]
      exact Int.emod_eq_of_lt hv.origin_nonneg m.variant.origin_lt
    refine ⟨m.lastFault, ?_⟩
    rw [horigin, Int.natCast_zero, Int.add_zero]
    rfl
  | succ k ih =>
    obtain ⟨fault, heq⟩ := ih (Nat.le_of_succ_le hk)
    obtain ⟨hr, hvariant⟩ := holding_after h hv hn k
    have hcapacity : ((m.holding pairs).after k).capacity = m.capacity :=
      congrArg (·.capacity) hvariant
    have hcycles : ((m.holding pairs).after k).cycles = m.cycles + k := by
      rw [heq]
      rfl
    have hplace : ((m.holding pairs).after k).pc = m.origin + 2 * k := by
      have hspace : m.variant.programSpace = m.capacity - m.origin := rfl
      rw [heq]
      exact Int.emod_eq_of_lt (by omega) (by omega)
    have hcurrent := current_after h hv hn ho hb hk hplace
    have hi : ((m.holding pairs).after k).current.Straight := by
      rw [hcurrent]
      exact hs _ (List.getElem_mem hk)
    have hpc' : m.origin + 2 * k + 2 = m.origin + 2 * (k + 1 : Nat) := by omega
    have hcycles' : m.cycles + k + 1 = m.cycles + (k + 1 : Nat) := by omega
    have hnext := next_elsewhere heq hi hr.operand_eq
    rw [hplace, hcapacity, hcycles, hcurrent, hpc', hcycles', ← executed_succ hk] at hnext
    exact ⟨_, (holding_after_succ h hv hn k).trans hnext⟩

end

/-- A program without jumps, returns and skips is loaded into a machine in range, whose program
counter is at the origin and whose origin is not in front of the last operand and the boundary. All
of its steps succeed, and they lead to the machine that has executed its instructions one after the
other, except that the program counter has moved on and the steps have been counted, and for the
fault that a step forgets. -/
theorem straight_steps_eq_execute (m : Machine) (h : m.InRange) (ho : 15 ≤ m.origin)
    (hb : m.variant.stackBoundary ≤ m.origin) (hm : m.variant.arithModulus ≤ 16)
    (hpc : m.pc = m.origin) (pairs : List (Nibble × Nibble))
    (hn : 2 * pairs.length ≤ m.variant.programSpace)
    (hs : ∀ p ∈ pairs, (Instruction.ofPair p).Straight) :
    let loaded := load (.list ((flattened pairs).map fun n => .int n.val)) m
    let executed := executeAll (pairs.map .ofPair) loaded.state
    loaded.answer = .ok () ∧ executed.answer = .ok () ∧
    (∀ k < pairs.length, (step (loaded.state.after k)).answer = .ok ()) ∧
    loaded.state.after pairs.length =
      { executed.state with
        pc := (m.origin + 2 * pairs.length) % m.capacity
        cycles := m.cycles + pairs.length
        lastFault := (loaded.state.after pairs.length).lastFault } := by
  have hv : m.variant.Sound := by
    have hlt : m.origin < m.variant.capacity := m.variant.origin_lt
    exact ⟨by omega, by change 0 ≤ m.origin; omega, hm, by omega⟩
  have hload := load_nibbles (flattened_fits hn)
  have hplaced := h.place hv (flattened_fits hn)
  intro loaded executed
  have hstate : loaded.state = m.holding pairs := by
    rw [show loaded = _ from hload]
    rfl
  have hw : ∀ i ∈ pairs.map Instruction.ofPair, Numeral.isWritable i.opcode = true := by
    intro i hi
    obtain ⟨p, -, rfl⟩ := List.mem_map.mp hi
    apply Numeral.isWritable_of_lt
    change p.1.val < 100
    omega
  obtain ⟨hanswer, hexecuted⟩ := executeAll_run hplaced hv hw
  obtain ⟨fault, heq⟩ := holding_after_eq h hv hn ho hb hpc hs (Nat.le_refl pairs.length)
  rw [Machine.executed, List.take_length] at heq
  have hsame : executed = executeAll (pairs.map .ofPair) (m.holding pairs) :=
    congrArg (executeAll (pairs.map .ofPair)) hstate
  refine ⟨?_, ?_, fun k _ => ?_, ?_⟩
  · rw [show loaded = _ from hload]
  · rw [hsame]
    exact hanswer
  · rw [hstate]
    exact hplaced.after_answer hv k
  · rw [hsame, hstate, heq]
    exact congrArg (Machine.elsewhere · _ _ _) hexecuted.symm

private def pair (x y : Nat) (hx : x < 16 := by decide) (hy : y < 16 := by decide) :
    Nibble × Nibble :=
  (⟨x, hx⟩, ⟨y, hy⟩)

/-- Stores over its own first nibble, pushes, pops, pops from an empty stack, and adds, up to the
last cell but one. -/
private def storingPairs : List (Nibble × Nibble) :=
  [pair 10 9, pair 2 15, pair 0 1, pair 10 3, pair 0 2, pair 0 2, pair 13 8, pair 15 2]

theorem straight_steps_eq_execute_of_storing :
    (fresh .nv32).InRange ∧ 15 ≤ (fresh .nv32).origin ∧
      2 * storingPairs.length ≤ (fresh .nv32).variant.programSpace ∧
      (∀ p ∈ storingPairs, (Instruction.ofPair p).Straight) ∧
      let loaded := (load (.list ((flattened storingPairs).map fun n => .int n.val))
        (fresh .nv32)).state
      let executed := (executeAll (storingPairs.map .ofPair) loaded).state
      (loaded.after 8).a = executed.a ∧ (loaded.after 8).memory = executed.memory ∧
        (loaded.after 8).flags = executed.flags ∧ (loaded.after 8).pc = 31 ∧
        (loaded.after 8).memory[15]? = some 9 ∧ (loaded.after 8).flags = [1, 0, 1, 1] := by
  have hr := fresh_inRange (Variant.builtin_sound .nv32 (by decide))
  have hn : 2 * storingPairs.length ≤ (fresh .nv32).variant.programSpace := by decide
  have hs : ∀ p ∈ storingPairs, (Instruction.ofPair p).Straight := by decide +kernel
  obtain ⟨-, -, -, hsame⟩ := straight_steps_eq_execute (fresh .nv32) hr (by decide) (by decide)
    (by decide) rfl storingPairs hn hs
  have ha := congrArg Machine.a hsame
  have hmemory := congrArg Machine.memory hsame
  have hflags := congrArg Machine.flags hsame
  have hpc := congrArg Machine.pc hsame
  exact ⟨hr, by decide, hn, hs, ha, hmemory, hflags, hpc, by decide +kernel, by decide +kernel⟩

end Machine
end FourBit
