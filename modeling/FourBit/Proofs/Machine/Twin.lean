import FourBit.Proofs.Machine.Frame
import FourBit.Proofs.Machine.Lockstep

/-! Differences between machines that no run brings to light.
What a machine records of its steps is read by none of them. Memory beyond the cells of a smaller
machine is not reached either, as long as the program counter of that one does not wrap around. -/
namespace FourBit.Machine
variable {m m' : Machine}

/-- Machines of one variant that differ at most in what they record: the error flag, the last
fault, the cycles and a request to halt. -/
structure Twin (m m' : Machine) : Prop extends Alike m.capacity.toNat {.error}ᶜ m m' where
  variant : m'.variant = m.variant
  pc : m'.pc = m.pc

/-- A machine with no less memory than another one, whose first cells and everything else agree
with it. -/
structure Widens (m m' : Machine) : Prop extends Alike m.capacity.toNat Set.univ m m' where
  rules : m.variant.SameRules m'.variant
  origin : m'.origin = m.origin
  capacity_le : m.capacity ≤ m'.capacity
  pc : m'.pc = m.pc

private theorem current_eq {seen : Set Flag} (hal : Alike m.capacity.toNat seen m m')
    (hfirst : m'.pc % m'.capacity = m.pc % m.capacity)
    (hsecond : (m.pc % m.capacity + 1) % m'.capacity = (m.pc % m.capacity + 1) % m.capacity) :
    m'.current = m.current := by
  have hpos := m.capacity_pos
  have hshared {address : Int} (ha : address < m.capacity) : m'.cell address = m.cell address :=
    hal.cell_eq (by omega) (by omega)
  rw [current, current, hfirst, hsecond, hshared (m.emod_capacity _).2,
    hshared (m.emod_capacity _).2]

private theorem InRange.abreast {seen : Set Flag} (h : m.InRange) (hv : m.variant.Sound)
    (hr : m.variant.SameRules m'.variant) (hc : m.capacity ≤ m'.capacity) (hs : {.error}ᶜ ⊆ seen)
    (hal : Alike m.capacity.toNat seen m m')
    (hoffset : m'.fetched.pc - m'.origin = m.fetched.pc - m.origin) :
    Abreast m.capacity.toNat seen m.started m'.started where
  toAlike := { hal with }
  rules := hr
  offset := hoffset
  room := ⟨hv.capacity_ge, Int.le_trans hv.capacity_ge hc⟩
  operands := by
    have : 16 ≤ m.capacity := hv.capacity_ge
    omega
  sp_le := by
    have := h.sp_cell
    change m.sp ≤ m.capacity.toNat
    omega
  all_but_error := hs

private theorem Twin.next (ht : m.Twin m') (h : m.InRange) (hv : m.variant.Sound) :
    m.next.Twin m'.next ∧ m'.next.lastFault = m.next.lastFault := by
  have hcapacity : m'.capacity = m.capacity := congrArg (·.capacity) ht.variant
  have horigin : m'.origin = m.origin := congrArg (·.programOrigin) ht.variant
  have hi : m'.current = m.current :=
    current_eq ht.toAlike (by rw [ht.pc, hcapacity]) (by rw [hcapacity])
  have hab : Abreast m.capacity.toNat {.error}ᶜ m.started m'.started := by
    apply h.abreast hv (ht.variant ▸ .refl _) (Int.le_of_eq hcapacity.symm) subset_rfl ht.toAlike
    rw [fetched, fetched, ht.pc, hcapacity, horigin]
  obtain ⟨hal, hfault⟩ :=
    hab.next hi (sameChoice_of_eq (congrArg (·.registerAdds) ht.variant) m.current)
  refine ⟨{ toAlike := m.next_capacity ▸ hal, variant := ?_, pc := ?_ }, hfault⟩
  · rw [next_variant, next_variant, ht.variant]
  · exact hab.next_pc_eq hi ht.variant ht.pc

private theorem Twin.after (ht : m.Twin m') (h : m.InRange) (h' : m'.InRange)
    (hv : m.variant.Sound) (n : Nat) :
    (m.after n).Twin (m'.after n) ∧
      (0 < n → (m'.after n).lastFault = (m.after n).lastFault) := by
  have hv' : m'.variant.Sound := ht.variant ▸ hv
  induction n with
  | zero => exact ⟨ht, fun hn => absurd hn (Nat.lt_irrefl 0)⟩
  | succ n ih =>
    obtain ⟨hr, hs⟩ := h.after hv n
    obtain ⟨htwin, hfault⟩ := ih.1.next hr (hs ▸ hv)
    rw [h.after_succ' hv, h'.after_succ' hv']
    exact ⟨htwin, fun _ => hfault⟩

/-- What a machine records does not influence what it computes. Runs of machines that differ at
most in that succeed and agree on everything else, from the first step on also in the fault of the
last one; the cycles stay as far apart as they are, and a request to halt stays as it is. -/
theorem run_ignores_records (m m' : Machine) (hv : m.variant.Sound) (h : m.InRange)
    (h' : m'.InRange) (ht : m.Twin m') (n : Nat) :
    (∀ k < n, (step (m.after k)).answer = .ok () ∧ (step (m'.after k)).answer = .ok ()) ∧
    (m.after n).Twin (m'.after n) ∧ (m'.after n).memory = (m.after n).memory ∧
    (0 < n → (m'.after n).lastFault = (m.after n).lastFault) ∧
    (m'.after n).cycles - (m.after n).cycles = m'.cycles - m.cycles ∧
    (m.after n).haltRequested = m.haltRequested ∧
    (m'.after n).haltRequested = m'.haltRequested := by
  have hv' : m'.variant.Sound := ht.variant ▸ hv
  obtain ⟨htwin, hfault⟩ := ht.after h h' hv n
  refine ⟨fun k _ => ⟨h.after_answer hv k, h'.after_answer hv' k⟩, htwin, ?_, hfault, ?_,
    h.after_haltRequested hv n, h'.after_haltRequested hv' n⟩
  · have hlength := (h.after hv n).1.memory_length
    have hlength' := (h'.after hv' n).1.memory_length
    have hcapacity : (m'.after n).capacity = (m.after n).capacity :=
      congrArg (·.capacity) htwin.variant
    apply List.ext_getElem?
    intro i
    by_cases hi : i < (m.after n).capacity.toNat
    · exact htwin.cell i hi
    · rw [List.getElem?_eq_none (by omega), List.getElem?_eq_none (by omega)]
  · rw [h.after_cycles hv, h'.after_cycles hv']
    omega

/-- Pushes A, compares, and pops twice, the second time from an empty stack. -/
private def unmarked : Machine :=
  { Machine.fresh .nv32 with
    memory := List.replicate 15 0 ++ [10, 7, 0, 1, 3, 7, 0, 2, 0, 2] ++ List.replicate 7 0 }

private def marked : Machine :=
  { unmarked with
    flags := [0, 0, 0, 1]
    lastFault := some .invalidOperand
    cycles := 40
    haltRequested := true }

theorem run_ignores_records_of_marked :
    unmarked.variant.Sound ∧ unmarked.InRange ∧ marked.InRange ∧ unmarked.Twin marked ∧
      (unmarked.after 5).Twin (marked.after 5) ∧
      (unmarked.after 5).lastFault = some .stackUnderflow ∧
      (marked.after 5).lastFault = some .stackUnderflow ∧
      (marked.after 5).cycles - (unmarked.after 5).cycles = 40 := by
  have hv : unmarked.variant.Sound := Variant.builtin_sound .nv32 (by decide)
  have hr : unmarked.InRange := { fresh_inRange hv with
    memory_length := by decide
    memory_nibble := by decide }
  have hr' : marked.InRange := { hr with
    flags_length := rfl
    flags_bit := by decide }
  have ht : unmarked.Twin marked :=
    { a := rfl, b := rfl, c := rfl, sp := rfl, cell := fun _ _ => rfl, variant := rfl, pc := rfl
      flag := by
        intro f hf
        cases f with
        | error => exact absurd rfl hf
        | _ => rfl }
  obtain ⟨-, htwin, -, hfault, hcycles, -⟩ := run_ignores_records unmarked marked hv hr hr' ht 5
  have hunder : (unmarked.after 5).lastFault = some .stackUnderflow := by decide +kernel
  exact ⟨hv, hr, hr', ht, htwin, hunder, (hfault (by decide)).trans hunder, hcycles⟩

private theorem emod_of_le {i c c' : Int} (hc : 0 < c) (hle : c ≤ c') (h : i % c = i) :
    i % c' = i := by
  have hnonneg := Int.emod_nonneg i (Int.ne_of_gt hc)
  have hlt := Int.emod_lt_of_pos i hc
  exact Int.emod_eq_of_lt (by omega) (by omega)

/-- The next instruction is one that a variant without register additions refuses. -/
def AddsRegister (m : Machine) : Prop := m.current = ⟨0, 10⟩ ∨ m.current = ⟨0, 11⟩

instance (m : Machine) : Decidable m.AddsRegister := inferInstanceAs (Decidable (_ ∨ _))

private theorem Widens.next (hw : m.Widens m') (h : m.InRange) (hv : m.variant.Sound)
    (hu : m.Unwrapped)
    (ha : m'.variant.registerAdds = m.variant.registerAdds ∨ ¬ m.AddsRegister) :
    m.next.Widens m'.next ∧ m'.next.lastFault = m.next.lastFault := by
  obtain ⟨hfirst, hfetched, htarget⟩ := unwrapped_iff.mp hu
  have hpc : m.pc % m.capacity = m.pc := Int.emod_eq_of_lt h.pc_cell.1 h.pc_cell.2
  have hwide {i : Int} (hi : i % m.capacity = i) : i % m'.capacity = i :=
    emod_of_le m.capacity_pos hw.capacity_le hi
  have hfetched' : m'.fetched.pc = m.fetched.pc := by
    rw [hfetched, fetched, hw.pc]
    exact hwide hfetched
  have hi : m'.current = m.current := by
    apply current_eq hw.toAlike
    · rw [hw.pc, hpc, hwide hpc]
    · rw [hpc, hfirst, hwide hfirst]
  have hc : m.SameChoice m' m.current := by
    rcases ha with ha | ha
    · exact sameChoice_of_eq ha _
    · exact h.sameChoice_of_ne (fun he => ha (.inl he)) fun he => ha (.inr he)
  have hab : Abreast m.capacity.toNat Set.univ m.started m'.started := by
    apply h.abreast hv hw.rules hw.capacity_le (Set.subset_univ _) hw.toAlike
    rw [hfetched', hw.origin]
  have hu' : m'.Unwrapped := by
    refine unwrapped_iff.mpr ⟨?_, ?_, ?_⟩
    · rw [hw.pc, hwide hfirst]
    · rw [hfetched', hfetched, hw.pc]
    · rw [hi, hab.target?_eq_of_origin hc hw.origin]
      exact fun i hi => hwide (htarget i hi)
  obtain ⟨hal, hfault⟩ := hab.next hi hc
  have hoffset := hab.next_offset hi hc hu hu' (by rw [hw.pc, hw.origin])
  rw [hw.origin] at hoffset
  refine ⟨{ toAlike := m.next_capacity ▸ hal, rules := ?_, origin := ?_, capacity_le := ?_,
            pc := ?_ }, hfault⟩
  · rw [next_variant, next_variant]
    exact hw.rules
  · rw [next_origin, next_origin, hw.origin]
  · rw [next_capacity, next_capacity]
    exact hw.capacity_le
  · omega

private theorem Widens.sound (hw : m.Widens m') (hv : m.variant.Sound) : m'.variant.Sound where
  capacity_ge := Int.le_trans hv.capacity_ge hw.capacity_le
  origin_nonneg := Int.le_trans hv.origin_nonneg (Int.le_of_eq hw.origin.symm)
  modulus_le := Int.le_trans (Int.le_of_eq hw.rules.modulus) hv.modulus_le
  boundary_lt := by
    rw [hw.rules.boundary]
    exact Int.lt_of_lt_of_le hv.boundary_lt hw.capacity_le

private theorem Widens.after (hw : m.Widens m') (h : m.InRange) (h' : m'.InRange)
    (hv : m.variant.Sound) (n : Nat) (hu : ∀ k < n, (m.after k).Unwrapped)
    (ha : ∀ k < n, m'.variant.registerAdds = m.variant.registerAdds ∨
      ¬ (m.after k).AddsRegister) :
    (m.after n).Widens (m'.after n) ∧
      (0 < n → (m'.after n).lastFault = (m.after n).lastFault) := by
  have hv' := hw.sound hv
  induction n with
  | zero => exact ⟨hw, fun hn => absurd hn (Nat.lt_irrefl 0)⟩
  | succ n ih =>
    obtain ⟨hr, hs⟩ := h.after hv n
    obtain ⟨-, hs'⟩ := h'.after hv' n
    obtain ⟨hrest, -⟩ := ih (fun k hk => hu k (Nat.lt_succ_of_lt hk)) fun k hk =>
      ha k (Nat.lt_succ_of_lt hk)
    have hlast := ha n n.lt_succ_self
    rw [← hs, ← hs'] at hlast
    obtain ⟨hwidens, hfault⟩ := hrest.next hr (hs ▸ hv) (hu n n.lt_succ_self) hlast
    rw [h.after_succ' hv, h'.after_succ' hv']
    exact ⟨hwidens, fun _ => hfault⟩

/-- More memory makes no difference to a run in which the smaller machine does not wrap its program
counter around, and which adds no register if only one of the variants can. Runs of machines that
agree as far as the smaller one goes succeed and keep agreeing, also in the fault of the last step,
and the further cells keep their values. -/
theorem run_ignores_capacity (m m' : Machine) (hv : m.variant.Sound) (h : m.InRange)
    (h' : m'.InRange) (hw : m.Widens m') (n : Nat) (hn : 1 ≤ n)
    (hu : ∀ k < n, (m.after k).Unwrapped)
    (ha : m'.variant.registerAdds ≠ m.variant.registerAdds →
      ∀ k < n, ¬ (m.after k).AddsRegister) :
    (∀ k < n, (step (m.after k)).answer = .ok () ∧ (step (m'.after k)).answer = .ok ()) ∧
    (m.after n).Widens (m'.after n) ∧ (m'.after n).lastFault = (m.after n).lastFault ∧
    ∀ i : Nat, m.capacity ≤ i → (m'.after n).memory[i]? = m'.memory[i]? := by
  have hv' := hw.sound hv
  obtain ⟨hwidens, hfault⟩ := hw.after h h' hv n hu fun k hk =>
    Decidable.or_iff_not_imp_left.mpr fun hne => ha hne k hk
  refine ⟨fun k _ => ⟨h.after_answer hv k, h'.after_answer hv' k⟩, hwidens, hfault hn, ?_⟩
  intro i hi
  have hroom : 16 ≤ m.capacity := hv.capacity_ge
  have hboundary : m.variant.stackBoundary < m.capacity := hv.boundary_lt
  refine h'.after_cell hv' n fun k _ => not_writes_of_le ?_
  rw [(h'.after hv' k).2, hw.rules.boundary]
  omega

/-- Pushes A and the program counter, and returns to behind the second push. -/
private def small : Machine :=
  { Machine.fresh .nv32 with
    memory := List.replicate 15 0 ++ [10, 5, 0, 1, 0, 3, 0, 4] ++ List.replicate 9 0 }

private def large : Machine :=
  { Machine.fresh .nv256 with memory := small.memory ++ List.replicate 224 9 }

theorem run_ignores_capacity_of_large :
    small.variant.Sound ∧ small.InRange ∧ large.InRange ∧ small.Widens large ∧
      (∀ k < 4, (small.after k).Unwrapped) ∧ (∀ k < 4, ¬ (small.after k).AddsRegister) ∧
      (small.after 4).Widens (large.after 4) ∧ (small.after 4).pc = 21 ∧
      ∀ i : Nat, 32 ≤ i → (large.after 4).memory[i]? = large.memory[i]? := by
  have hv : small.variant.Sound := Variant.builtin_sound .nv32 (by decide)
  have hv' : large.variant.Sound := Variant.builtin_sound .nv256 (by decide)
  have hr : small.InRange := { fresh_inRange hv with
    memory_length := by decide
    memory_nibble := by decide }
  have hr' : large.InRange := { fresh_inRange hv' with
    memory_length := by
      change ((small.memory ++ List.replicate 224 9).length : Int) = 256
      rw [List.length_append, List.length_replicate]
      rfl
    memory_nibble := by
      intro i hi
      rcases List.mem_append.mp hi with hi | hi
      · exact hr.memory_nibble i hi
      · rw [List.eq_of_mem_replicate hi]
        decide }
  have hw : small.Widens large :=
    { a := rfl, b := rfl, c := rfl, sp := rfl, flag := fun _ _ => rfl
      cell := fun i hi => List.getElem?_append_left hi
      rules := ⟨rfl, rfl, rfl⟩, origin := rfl, capacity_le := by decide, pc := rfl }
  have hu : ∀ k < 4, (small.after k).Unwrapped := by decide +kernel
  have ha : ∀ k < 4, ¬ (small.after k).AddsRegister := by decide +kernel
  obtain ⟨-, hwidens, -, hcells⟩ :=
    run_ignores_capacity small large hv hr hr' hw 4 (by decide) hu fun _ => ha
  refine ⟨hv, hr, hr', hw, hu, ha, hwidens, by decide +kernel, fun i hi => hcells i ?_⟩
  change (32 : Int) ≤ i
  omega

end FourBit.Machine
