import FourBit.Proofs.Machine.Frame
import FourBit.Proofs.Machine.Lockstep

/-! Programs at different origins.
Jumps and return addresses count from the origin, operands and the stack from the first cell. A
program that stands behind all cells that operands and the stack reach is not changed by a run, and
wherever it stands it computes the same. -/
namespace FourBit.Machine
variable {m m' : Machine} {nibbles : List Nibble}

/-- A machine that holds a program where no operand and no push reaches it. -/
structure Hosts (m : Machine) (nibbles : List Nibble) : Prop where
  ready : m.Ready
  operands_lt : 16 ≤ m.origin
  boundary_le : m.variant.stackBoundary ≤ m.origin
  sp_le : m.sp ≤ m.origin
  stands : ∀ i (hi : i < nibbles.length),
    m.memory[m.origin.toNat + i]? = some (nibbles[i].val : Int)

theorem Hosts.current_eq (h : m.Hosts nibbles) {j : Nat} (hj : j + 1 < nibbles.length)
    (hpc : m.pc = m.origin + j) :
    m.current = ⟨(nibbles[j].val : Int), (nibbles[j + 1].val : Int)⟩ := by
  have horigin := h.operands_lt
  have hplace : m.pc = (m.origin.toNat + j : Nat) := by omega
  exact current_of_cells h.ready.memory_length hplace (h.stands j (by omega)) (h.stands (j + 1) hj)

theorem Hosts.next (h : m.Hosts nibbles)
    (ho : (lowNibble m.current.operand : Int) = m.current.operand) : m.next.Hosts nibbles where
  ready := h.ready.next
  operands_lt := by
    rw [next_origin]
    exact h.operands_lt
  boundary_le := by
    rw [next_origin, next_variant]
    exact h.boundary_le
  sp_le := by
    rw [next_origin]
    have := h.operands_lt
    exact (h.ready.next_sp_le h.sp_le (by omega) h.boundary_le).2
  stands i hi := by
    have hlow := h.operands_lt
    have hboundary := h.boundary_le
    rw [next_origin, next_cell h.ready.sp_range.1 ho (not_writes_of_le (by omega))]
    exact h.stands i hi

private theorem fresh_hosts {v : Variant} (ho : 16 ≤ v.programOrigin)
    (hb : v.stackBoundary ≤ v.programOrigin) (hn : nibbles.length ≤ v.programSpace) :
    (place nibbles (fresh v)).Hosts nibbles := by
  have horigin : 0 ≤ (fresh v).origin := by
    change 0 ≤ v.programOrigin
    omega
  have hroom : 16 ≤ v.capacity := by
    have := v.origin_lt
    omega
  have hlength := fresh_memory_length v
  exact {
    ready := ⟨length_place hlength horigin hn, hroom, rfl, Int.le_refl 0,
      Int.le_of_lt v.capacity_pos⟩
    operands_lt := ho
    boundary_le := hb
    sp_le := horigin
    stands := fun _ hi => getElem?_place hlength horigin hn hi }

def InProgram (nibbles : List Nibble) (m : Machine) : Prop :=
  m.origin ≤ m.pc ∧ m.pc ≤ m.origin + nibbles.length - 2

instance (nibbles : List Nibble) (m : Machine) : Decidable (m.InProgram nibbles) :=
  inferInstanceAs (Decidable (_ ∧ _))

private theorem InProgram.exists_index (h : m.InProgram nibbles) :
    ∃ j : Nat, j + 1 < nibbles.length ∧ m.pc = m.origin + j := by
  obtain ⟨hfirst, hlast⟩ := h
  exact ⟨(m.pc - m.origin).toNat, by omega, by omega⟩

private theorem Hosts.step_run (h : m.Hosts nibbles) {j : Nat} (hj : j + 1 < nibbles.length)
    (hpc : m.pc = m.origin + j) : (step m).answer = .ok () ∧ (step m).state = m.next := by
  have hw : Numeral.isWritable m.current.opcode = true := by
    rw [h.current_eq hj hpc]
    apply Numeral.isWritable_of_lt
    change nibbles[j].val < 100
    omega
  rw [Machine.step_run h.ready hw]
  exact ⟨rfl, rfl⟩

/-- One program at the origins of two variants, as far as it has run. -/
structure Relocated (v w : Variant) (nibbles : List Nibble) (m m' : Machine) : Prop
    extends Alike (min v.programOrigin w.programOrigin).toNat Set.univ m m' where
  variant : m.variant = v
  variant' : m'.variant = w
  hosts : m.Hosts nibbles
  hosts' : m'.Hosts nibbles
  offset : m'.pc - w.programOrigin = m.pc - v.programOrigin
  lastFault : m'.lastFault = m.lastFault
  cycles : m'.cycles = m.cycles

section
variable {v w : Variant} (hr : v.SameRules w) (ha : w.registerAdds = v.registerAdds)
include hr

private theorem Relocated.abreast (h : Relocated v w nibbles m m') (hu : m.Unwrapped)
    (hu' : m'.Unwrapped) :
    Abreast (min v.programOrigin w.programOrigin).toNat Set.univ m.started m'.started := by
  obtain rfl := h.variant
  obtain rfl := h.variant'
  have hoperands := h.hosts.operands_lt
  have hoperands' := h.hosts'.operands_lt
  exact {
    toAlike := { h.toAlike with }
    rules := hr
    offset := by
      have hoffset := h.offset
      obtain ⟨-, hfetched, -⟩ := unwrapped_iff.mp hu
      obtain ⟨-, hfetched', -⟩ := unwrapped_iff.mp hu'
      change m'.fetched.pc - m'.variant.programOrigin = m.fetched.pc - m.variant.programOrigin
      omega
    room := ⟨h.hosts.ready.room, h.hosts'.ready.room⟩
    operands := by
      change 16 ≤ (min m.origin m'.origin).toNat
      omega
    sp_le := by
      have := h.hosts.sp_le
      have := h.hosts'.sp_le
      have := h.sp
      change m.sp ≤ (min m.origin m'.origin).toNat
      omega
    all_but_error := Set.subset_univ _ }

include ha

private theorem Relocated.next (h : Relocated v w nibbles m m') (hin : m.InProgram nibbles)
    (hu : m.Unwrapped) (hu' : m'.Unwrapped) :
    ((step m).answer = .ok () ∧ (step m').answer = .ok ()) ∧
      Relocated v w nibbles (step m).state (step m').state := by
  have hab := h.abreast hr hu hu'
  obtain rfl := h.variant
  obtain rfl := h.variant'
  obtain ⟨j, hj, hpc⟩ := hin.exists_index
  have hpc' : m'.pc = m'.origin + j := by
    have hoffset : m'.pc - m'.origin = m.pc - m.origin := h.offset
    omega
  have hcurrent := h.hosts.current_eq hj hpc
  have hcurrent' := h.hosts'.current_eq hj hpc'
  have hi : m'.current = m.current := hcurrent'.trans hcurrent.symm
  have hoperand : (lowNibble m.current.operand : Int) = m.current.operand := by
    apply lowNibble_of_lt
    rw [hcurrent]
    change 0 ≤ (nibbles[j + 1].val : Int) ∧ (nibbles[j + 1].val : Int) < 16
    omega
  have hchoice := sameChoice_of_eq ha m.current
  obtain ⟨hal, hfault⟩ := hab.next hi hchoice
  obtain ⟨hanswer, hstate⟩ := h.hosts.step_run hj hpc
  obtain ⟨hanswer', hstate'⟩ := h.hosts'.step_run hj hpc'
  refine ⟨⟨hanswer, hanswer'⟩, ?_⟩
  rw [hstate, hstate']
  exact {
    toAlike := hal
    variant := next_variant m
    variant' := next_variant m'
    hosts := h.hosts.next hoperand
    hosts' := h.hosts'.next (hi ▸ hoperand)
    offset := hab.next_offset hi hchoice hu hu' h.offset
    lastFault := hfault
    cycles := by rw [next_cycles, next_cycles, h.cycles] }

private theorem Relocated.after (h : Relocated v w nibbles m m') (n : Nat)
    (hin : ∀ k < n, (m.after k).InProgram nibbles)
    (hu : ∀ k < n, (m.after k).Unwrapped ∧ (m'.after k).Unwrapped) :
    (∀ k < n, (step (m.after k)).answer = .ok () ∧ (step (m'.after k)).answer = .ok ()) ∧
      Relocated v w nibbles (m.after n) (m'.after n) := by
  induction n with
  | zero => exact ⟨fun k hk => absurd hk (Nat.not_lt_zero k), h⟩
  | succ n ih =>
    obtain ⟨hanswers, hrest⟩ := ih (fun k hk => hin k (Nat.lt_succ_of_lt hk)) fun k hk =>
      hu k (Nat.lt_succ_of_lt hk)
    obtain ⟨hunwrapped, hunwrapped'⟩ := hu n n.lt_succ_self
    obtain ⟨hlast, hnext⟩ := hrest.next hr ha (hin n n.lt_succ_self) hunwrapped hunwrapped'
    rw [after_succ_step, after_succ_step]
    refine ⟨?_, hnext⟩
    intro k hk
    rcases Nat.lt_succ_iff_lt_or_eq.mp hk with hk | rfl
    · exact hanswers k hk
    · exact hlast

end

private theorem fresh_relocated {v w : Variant}
    (hv : (place nibbles (fresh v)).Hosts nibbles) (hw : (place nibbles (fresh w)).Hosts nibbles)
    (hn : nibbles.length ≤ v.programSpace) (hn' : nibbles.length ≤ w.programSpace) :
    Relocated v w nibbles (place nibbles (fresh v)) (place nibbles (fresh w)) where
  a := rfl
  b := rfl
  c := rfl
  sp := rfl
  flag _ _ := rfl
  cell i hi := by
    have hfront {u : Variant} (hu : nibbles.length ≤ u.programSpace)
        (hiu : i < u.programOrigin.toNat) : (place nibbles (fresh u)).memory[i]? = some 0 := by
      have hin : i < u.capacity.toNat := by
        have := u.origin_lt
        omega
      rw [getElem?_place_of_lt (fresh_memory_length u) hu hiu]
      exact List.getElem?_replicate_of_lt hin
    rw [hfront hn (by omega), hfront hn' (by omega)]
  variant := rfl
  variant' := rfl
  hosts := hv
  hosts' := hw
  offset := (Int.sub_self _).trans (Int.sub_self _).symm
  lastFault := rfl
  cycles := rfl

/-- A program computes the same wherever it stands. Machines whose constants agree apart from the
size of memory and the origin, which lies behind all operands and the stack, load a program that
fits both. As long as the one executes the program and neither wraps its program counter around,
all steps succeed and both machines agree on their registers, flags and cells in front of both
origins, on the last fault and the cycles, and from their origins on, on the program counter and
the cells of the program. -/
theorem run_relocates (v w : Variant) (hr : v.SameRules w)
    (ha : w.registerAdds = v.registerAdds)
    (hv : 16 ≤ v.programOrigin ∧ v.stackBoundary ≤ v.programOrigin)
    (hw : 16 ≤ w.programOrigin ∧ w.stackBoundary ≤ w.programOrigin) (program : Value)
    (nibbles : List Nibble) (hread : (readProgram program (fresh v)).answer = .ok nibbles)
    (hn : nibbles.length ≤ v.programSpace) (hn' : nibbles.length ≤ w.programSpace) (n : Nat)
    (hin : ∀ k < n, ((load program (fresh v)).state.after k).InProgram nibbles)
    (hu : ∀ k < n, ((load program (fresh v)).state.after k).Unwrapped ∧
      ((load program (fresh w)).state.after k).Unwrapped) :
    let m := (load program (fresh v)).state
    let m' := (load program (fresh w)).state
    (load program (fresh v)).answer = .ok () ∧ (load program (fresh w)).answer = .ok () ∧
    (∀ k < n, (step (m.after k)).answer = .ok () ∧ (step (m'.after k)).answer = .ok ()) ∧
    Alike (min v.programOrigin w.programOrigin).toNat Set.univ (m.after n) (m'.after n) ∧
    (m'.after n).lastFault = (m.after n).lastFault ∧ (m'.after n).cycles = (m.after n).cycles ∧
    (m'.after n).pc - w.programOrigin = (m.after n).pc - v.programOrigin ∧
    ∀ i < nibbles.length, (m'.after n).memory[w.programOrigin.toNat + i]? =
      (m.after n).memory[v.programOrigin.toNat + i]? := by
  have hread' : (readProgram program (fresh w)).answer = .ok nibbles :=
    (readProgram_answer program (fresh w) (fresh v)).trans hread
  obtain ⟨hload, hplace⟩ := load_of_fits hread hn
  obtain ⟨hload', hplace'⟩ := load_of_fits hread' hn'
  intro m m'
  have hstart : Relocated v w nibbles m m' := by
    rw [show m = place nibbles (fresh v) from hplace,
      show m' = place nibbles (fresh w) from hplace']
    exact fresh_relocated (fresh_hosts hv.1 hv.2 hn) (fresh_hosts hw.1 hw.2 hn') hn hn'
  obtain ⟨hanswers, hend⟩ := hstart.after hr ha n hin hu
  refine ⟨hload, hload', hanswers, hend.toAlike, hend.lastFault, hend.cycles, hend.offset, ?_⟩
  intro i hi
  have hcell := hend.hosts.stands i hi
  have hcell' := hend.hosts'.stands i hi
  rw [origin, hend.variant] at hcell
  rw [origin, hend.variant'] at hcell'
  rw [hcell, hcell']

private theorem moved_origins_lt : (16 : Int) < 32 ∧ (40 : Int) < 256 := by decide

private def near : Variant :=
  { Variant.nv32 with
    programOrigin := 16
    origin_lt := moved_origins_lt.1 }

private def far : Variant :=
  { Variant.nv256 with
    programOrigin := 40
    registerAdds := false
    origin_lt := moved_origins_lt.2 }

/-- Pushes the place of its third instruction, which returns to it and then finds the stack empty,
stores five and goes back to the push. -/
private def returning : Value := .list ([10, 5, 0, 3, 0, 4, 2, 2, 11, 2].map .int)

theorem run_relocates_of_returning :
    near.SameRules far ∧
      (readProgram returning (fresh near)).answer = .ok [10, 5, 0, 3, 0, 4, 2, 2, 11, 2] ∧
      (∀ k < 6, ((load returning (fresh near)).state.after k).InProgram
        [10, 5, 0, 3, 0, 4, 2, 2, 11, 2]) ∧
      (∀ k < 6, ((load returning (fresh near)).state.after k).Unwrapped ∧
        ((load returning (fresh far)).state.after k).Unwrapped) ∧
      (load returning (fresh far)).answer = .ok () ∧
      Alike 16 Set.univ ((load returning (fresh near)).state.after 6)
        ((load returning (fresh far)).state.after 6) ∧
      ((load returning (fresh near)).state.after 6).pc = 18 ∧
      ((load returning (fresh far)).state.after 6).pc = 42 ∧
      ((load returning (fresh far)).state.after 6).memory[2]? = some 5 := by
  have hr : near.SameRules far := ⟨rfl, rfl, rfl⟩
  have hread : (readProgram returning (fresh near)).answer =
      .ok [10, 5, 0, 3, 0, 4, 2, 2, 11, 2] := rfl
  have hin : ∀ k < 6, ((load returning (fresh near)).state.after k).InProgram
      [10, 5, 0, 3, 0, 4, 2, 2, 11, 2] := by decide +kernel
  have hu : ∀ k < 6, ((load returning (fresh near)).state.after k).Unwrapped ∧
      ((load returning (fresh far)).state.after k).Unwrapped := by decide +kernel
  have hpc : ((load returning (fresh near)).state.after 6).pc = 18 := by decide +kernel
  have hstored : ((load returning (fresh near)).state.after 6).memory[2]? = some 5 := by
    decide +kernel
  obtain ⟨-, hload, -, halike, -, -, hoffset, -⟩ :=
    run_relocates near far hr rfl (by decide) (by decide) returning _ hread (by decide)
      (by decide) 6 hin hu
  refine ⟨hr, hread, hin, hu, hload, halike, hpc, ?_, (halike.cell 2 (by decide)).trans hstored⟩
  rw [hpc] at hoffset
  exact Int.sub_eq_iff_eq_add.mp hoffset

end FourBit.Machine
