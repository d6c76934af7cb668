import FourBit.Proofs.Machine.Load
import FourBit.Proofs.Machine.Run

/-! Which variants run all programs without leaving memory.
An operand addresses one of sixteen cells whatever the size of memory, and a program is put into
memory from the origin on wherever that is. A variant may be built with fewer cells, or with an
origin in front of the first one; the others run every program. -/
namespace FourBit
open Machine Numeral

/-- Loading a program into a fresh machine leaves memory as long as it is, and so does every step
after that, none of which fails. -/
def Variant.RunsSafely (v : Variant) : Prop :=
  ∀ program, (load program (fresh v)).answer = .ok () →
    let m := (load program (fresh v)).state
    m.memory.length = v.capacity ∧
      ∀ n, (step (m.after n)).answer = .ok () ∧ (m.after (n + 1)).memory.length = v.capacity

/-- With an address for every operand, values stay below the least number that has too many digits,
and the stack pointer stays within memory. -/
theorem Variant.bounds_of_room {v : Variant} (hc : 16 ≤ v.capacity)
    (hm : v.arithModulus ≤ Nat.pow 10 maxDigits) : v.Bounds (Nat.pow 10 maxDigits) v.capacity where
  room := hc
  nibbles := by
    have hpow (k : Nat) (hk : 4 ≤ k) : Nat.pow 10 4 ∣ Nat.pow 10 k := Nat.pow_dvd_pow 10 hk
    have hsixteen : 16 ∣ Nat.pow 10 4 := by decide
    exact Int.ofNat_dvd.mpr (Nat.dvd_trans hsixteen (hpow maxDigits (by decide)))
  modulus_le := hm
  writable i hi := by
    rw [isWritable_iff]
    omega
  operand_le := by omega
  boundary_le := v.boundary_le
  reach_le := Int.le_refl _

theorem Variant.runsSafely_of_room {v : Variant} (hc : 16 ≤ v.capacity) (ho : 0 ≤ v.programOrigin)
    (hm : v.arithModulus ≤ Nat.pow 10 maxDigits) : v.RunsSafely := by
  intro program _ m
  have hb := Variant.bounds_of_room hc hm
  have hfresh := fresh_bounded ho hb
  obtain ⟨hv, h⟩ : m.variant = v ∧ m.Bounded (Nat.pow 10 maxDigits) v.capacity := by
    rcases load_cases program (fresh v) with ⟨-, hs⟩ | ⟨nibbles, -, hn, hs⟩
    · exact ⟨congrArg Machine.variant hs, (show m = _ from hs) ▸ hfresh⟩
    · exact ⟨congrArg Machine.variant hs, (show m = _ from hs) ▸ hfresh.place hb ho hn⟩
  have hlength (n : Nat) : (m.after n).memory.length = v.capacity := by
    obtain ⟨hn, hs⟩ := h.after (hv ▸ hb) n
    rw [hn.memory_length, capacity, hs, hv]
  refine ⟨hlength 0, fun n => ⟨?_, hlength (n + 1)⟩⟩
  obtain ⟨hn, hs⟩ := h.after (hv ▸ hb) n
  rw [hn.step_run (hs ▸ hv ▸ hb)]

private theorem length_place_of_before {m : Machine} (ho : m.origin < 0) {nibbles : List Nibble}
    (hn : m.origin + nibbles.length = 0) :
    (place nibbles m).memory.length = m.memory.length + nibbles.length := by
  have hstop : Cells.cut m.memory.length (m.origin + nibbles.length) = 0 := by
    rw [hn, Cells.cut]
    exact Nat.min_zero _
  change (Cells.splice m.memory m.origin (m.origin + nibbles.length) _).length = _
  rw [Cells.splice, hstop, Nat.max_zero]
  simp only [List.length_append, List.length_take, List.length_drop, List.length_map, Cells.cut]
  omega

theorem Variant.RunsSafely.origin_nonneg {v : Variant} (h : v.RunsSafely) :
    0 ≤ v.programOrigin := by
  apply Int.not_lt.mp
  intro ho
  let nibbles : List Nibble := List.replicate v.programOrigin.natAbs 0
  have hlength : nibbles.length = v.programOrigin.natAbs := List.length_replicate
  have hfits : nibbles.length ≤ v.programSpace := by
    have := v.capacity_pos
    simp only [Variant.programSpace, hlength]
    omega
  have hload := load_nibbles (m := fresh v) hfits
  have hzero : (fresh v).origin + nibbles.length = 0 := by
    change v.programOrigin + _ = 0
    omega
  obtain ⟨hkept, -⟩ := h _ (by rw [hload])
  simp only [hload] at hkept
  rw [length_place_of_before (m := fresh v) ho hzero] at hkept
  simp only [fresh, List.length_replicate, hlength] at hkept
  omega

private theorem current_place {m : Machine} (h : m.memory.length = m.capacity) (ho : 0 ≤ m.origin)
    (hpc : m.pc = m.origin) {x y : Nibble} (hs : 2 ≤ m.variant.programSpace) :
    (place [x, y] m).current = ⟨x.val, y.val⟩ := by
  have hlength := @length_place m h ho [x, y] hs
  have hstands {i : Nat} (hi : i < [x, y].length) := @getElem?_place m h ho [x, y] hs i hi
  have hplace : (place [x, y] m).pc = (m.origin.toNat : Nat) := by
    rw [Int.toNat_of_nonneg ho]
    exact hpc
  exact current_of_cells hlength hplace (hstands (i := 0) (by simp))
    (hstands (i := 1) (by simp))

private theorem step_lda_outside {m : Machine} (h : m.memory.length = m.capacity)
    (hp : Primary.ofCode? m.current.opcode = some .lda)
    (ho : m.capacity ≤ lowNibble m.current.operand) : (step m).answer = .error .outside := by
  have hlength : m.started.memory.length = m.capacity := h
  have hplace : Cells.place? m.started.memory.length (lowNibble m.current.operand) = none := by
    rw [Cells.place?, if_neg (by omega), if_neg (by omega)]
  rw [step_fetched h]
  simp [execute, hp, executePrimary, readCell, Cells.get?, hplace]

theorem Variant.RunsSafely.capacity_ge {v : Variant} (h : v.RunsSafely)
    (hs : 2 ≤ v.programSpace) : 16 ≤ v.capacity := by
  apply Int.not_lt.mp
  intro hc
  have hload := @load_nibbles (fresh v) [1, 15] hs
  obtain ⟨hlength, hsteps⟩ := h _ (by rw [hload])
  simp only [hload] at hlength hsteps
  have hcurrent : (place [1, 15] (fresh v)).current = ⟨1, 15⟩ :=
    current_place (fresh_memory_length v) h.origin_nonneg rfl hs
  have hbeyond : (place [1, 15] (fresh v)).capacity ≤
      lowNibble (place [1, 15] (fresh v)).current.operand := by
    rw [hcurrent]
    change v.capacity ≤ 15
    omega
  have hstep : (step (place [1, 15] (fresh v))).answer = .ok () := (hsteps 0).1
  rw [step_lda_outside hlength (by rw [hcurrent]; rfl) hbeyond] at hstep
  cases hstep

/-- The checks of a variant are not enough. Constants whose sums can be named in a report make every
program run without leaving memory exactly when each operand has a cell and the origin is one; for
the converse, memory has at least room for an instruction. -/
theorem Variant.runsSafely_iff (v : Variant) (hm : v.arithModulus ≤ Nat.pow 10 maxDigits)
    (hs : 16 ≤ v.capacity ∨ 2 ≤ v.programSpace) :
    v.RunsSafely ↔ 16 ≤ v.capacity ∧ 0 ≤ v.programOrigin := by
  constructor
  · intro h
    exact ⟨hs.elim id h.capacity_ge, h.origin_nonneg⟩
  · rintro ⟨hc, ho⟩
    exact runsSafely_of_room hc ho hm

private def eightCells : Parameters where
  name := "tiny"
  capacity := 8
  stackBoundary := 4
  programOrigin := 0

private def frontOrigin : Parameters where
  name := "front"
  capacity := 16
  programOrigin := -2

/-- A load from the last operand fails in eight cells, and two nibbles at an origin two cells in
front of memory make it two cells longer. Both variants pass the checks. -/
theorem checked_variants_unsafe :
    (∃ v, Variant.ofParameters eightCells = .ok v ∧
      let loaded := load (.list [.int 1, .int 15]) (fresh v)
      loaded.answer = .ok () ∧ (step loaded.state).answer = .error .outside) ∧
    ∃ v, Variant.ofParameters frontOrigin = .ok v ∧
      let loaded := load (.list [.int 1, .int 15]) (fresh v)
      loaded.answer = .ok () ∧ loaded.state.memory.length = v.capacity + 2 := by
  exact ⟨⟨_, rfl, rfl, rfl⟩, ⟨_, rfl, rfl, rfl⟩⟩

/-- Sixteen cells that the stack and the program share, and a modulus above a nibble. -/
private def sharedCells : Variant where
  name := "shared"
  capacity := 16
  stackBoundary := 16
  programOrigin := 0
  arithModulus := 99
  origin_lt := by decide
  boundary_pos := by decide
  boundary_le := by decide
  modulus_pos := by decide

theorem runsSafely_sharedCells :
    sharedCells.arithModulus ≤ Nat.pow 10 maxDigits ∧ 16 ≤ sharedCells.capacity ∧
      sharedCells.RunsSafely := by
  have hm : sharedCells.arithModulus ≤ Nat.pow 10 maxDigits := by
    have hw := isWritable_iff.mp (isWritable_of_lt (i := 99) (by decide))
    exact Int.ofNat_le.mpr (Nat.le_of_lt hw)
  have hc : 16 ≤ sharedCells.capacity := by decide
  exact ⟨hm, hc, (Variant.runsSafely_iff sharedCells hm (.inl hc)).mpr ⟨hc, by decide⟩⟩

end FourBit
