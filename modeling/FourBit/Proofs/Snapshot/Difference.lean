import FourBit.Proofs.Store.Snapshot

/-! Differences of snapshots.
A difference of two snapshots names the registers and the cells in which they differ, and no others.
So it is the same in both directions, it is what has to be taken over from one to come to the other,
and it misses nothing but which variant the machines are of, how many steps they have taken, and
their faults. -/
namespace FourBit
variable {τ : Type}

structure Difference.Tells (d : Difference) (s t : Snapshot τ) : Prop where
  register : ∀ r, r ∈ d.registers ↔ s.contents r ≠ t.contents r
  cell : ∀ k, k ∈ d.cells ↔ s.memory[k]? ≠ t.memory[k]?

namespace Snapshot
variable {s t u : Snapshot τ} {d e f : Difference}

/-- A snapshot that takes over the registers and cells of a difference from another one. -/
def overwritten (t s : Snapshot τ) (d : Difference) : Snapshot τ :=
  let chosen (r : Register) : Snapshot τ := if r ∈ d.registers then s else t
  { t with
    a := (chosen .a).a
    b := (chosen .b).b
    c := (chosen .c).c
    pc := (chosen .pc).pc
    sp := (chosen .sp).sp
    flags := (chosen .f).flags
    memory := t.memory.mapIdx fun k x => if k ∈ d.cells then s.memory.getD k x else x }

private theorem mem_alphabetical (r : Register) : r ∈ alphabetical := by
  cases r <;> decide

theorem mem_changedCells {n k : Nat} {xs ys : List Int} :
    k ∈ changedCells n xs ys ↔
      ∃ i x y, k = n + i ∧ xs[i]? = some x ∧ ys[i]? = some y ∧ x ≠ y := by
  induction xs generalizing n ys with
  | nil => simp [changedCells]
  | cons x xs ih =>
    cases ys with
    | nil => simp [changedCells]
    | cons y ys =>
      have hrest : k ∈ changedCells (n + 1) xs ys ↔ ∃ i x' y', k = n + (i + 1) ∧
          (x :: xs)[i + 1]? = some x' ∧ (y :: ys)[i + 1]? = some y' ∧ x' ≠ y' := by
        simp only [ih, List.getElem?_cons_succ, Nat.add_assoc, Nat.add_comm 1]
      have hfirst : (∃ i x' y', k = n + i ∧ (x :: xs)[i]? = some x' ∧ (y :: ys)[i]? = some y' ∧
          x' ≠ y') ↔ k = n ∧ x ≠ y ∨ k ∈ changedCells (n + 1) xs ys := by
        rw [hrest]
        constructor
        · rintro ⟨i, x', y', hk, hx, hy, hne⟩
          cases i with
          | zero =>
            obtain rfl := Option.some.inj hx
            obtain rfl := Option.some.inj hy
            exact .inl ⟨hk, hne⟩
          | succ i => exact .inr ⟨i, x', y', hk, hx, hy, hne⟩
        · rintro (⟨hk, hne⟩ | ⟨i, x', y', hk, hx, hy, hne⟩)
          · exact ⟨0, x, y, hk, rfl, rfl, hne⟩
          · exact ⟨i + 1, x', y', hk, hx, hy, hne⟩
      rw [hfirst, changedCells]
      by_cases hxy : x = y <;> simp [hxy]

theorem mem_changedCells_iff {xs ys : List Int} (h : xs.length = ys.length) {k : Nat} :
    k ∈ changedCells 0 xs ys ↔ xs[k]? ≠ ys[k]? := by
  rw [mem_changedCells]
  constructor
  · rintro ⟨i, x, y, hk, hx, hy, hne⟩
    obtain rfl : i = k := by omega
    rw [hx, hy]
    exact fun he => hne (Option.some.inj he)
  · intro hne
    have hlt : k < xs.length := by
      by_contra hge
      apply hne
      rw [List.getElem?_eq_none (by omega), List.getElem?_eq_none (by omega)]
    rw [List.getElem?_eq_getElem hlt, List.getElem?_eq_getElem (h ▸ hlt)] at hne
    exact ⟨k, xs[k], ys[k], (Nat.zero_add k).symm, List.getElem?_eq_getElem hlt,
      List.getElem?_eq_getElem (h ▸ hlt), fun he => hne (congrArg some he)⟩

theorem changedCells_comm (n : Nat) (xs ys : List Int) :
    changedCells n xs ys = changedCells n ys xs := by
  induction xs generalizing n ys with
  | nil => cases ys <;> rfl
  | cons x xs ih =>
    cases ys with
    | nil => rfl
    | cons y ys =>
      rw [changedCells, changedCells, ih]
      simp only [eq_comm]

theorem diff_eq_error_iff :
    s.diff t = .error .unequalMemories ↔ s.memory.length ≠ t.memory.length := by
  rw [diff]
  split <;> simp [*]

theorem diff_comm (s t : Snapshot τ) : s.diff t = t.diff s := by
  have hregisters : (fun r => s.contents r != t.contents r) =
      fun r => t.contents r != s.contents r := by
    funext r
    exact bne_comm
  rw [diff, diff, hregisters, changedCells_comm]
  simp only [eq_comm]

theorem exists_diff (h : s.memory.length = t.memory.length) :
    ∃ d, s.diff t = .ok d ∧ d.Tells s t := by
  refine ⟨_, if_pos h, fun r => ?_, fun k => mem_changedCells_iff h⟩
  rw [List.mem_filter, bne_iff_ne, and_iff_right (mem_alphabetical r)]

theorem eq_iff_contents : s = t ↔ (∀ r, s.contents r = t.contents r) ∧ s.memory = t.memory ∧
    s.variant = t.variant ∧ s.cycles = t.cycles ∧ s.fault = t.fault := by
  constructor
  · rintro rfl
    exact ⟨fun _ => rfl, rfl, rfl, rfl, rfl⟩
  · rintro ⟨hcontents, hmemory, hvariant, hcycles, hfault⟩
    have ha := List.head_eq_of_cons_eq (hcontents .a)
    have hb := List.head_eq_of_cons_eq (hcontents .b)
    have hc := List.head_eq_of_cons_eq (hcontents .c)
    have hpc := List.head_eq_of_cons_eq (hcontents .pc)
    have hsp := List.head_eq_of_cons_eq (hcontents .sp)
    have hf : s.flags = t.flags := hcontents .f
    cases s
    cases t
    rw [Snapshot.mk.injEq]
    exact ⟨hvariant, ha, hb, hc, hpc, hsp, hf, hmemory, hcycles, hfault⟩

section
variable (hd : d.Tells s t)
include hd

theorem contents_of_notMem {r : Register} (h : r ∉ d.registers) : s.contents r = t.contents r :=
  not_not.mp (mt (hd.register r).mpr h)

theorem cell_of_notMem {k : Nat} (h : k ∉ d.cells) : s.memory[k]? = t.memory[k]? :=
  not_not.mp (mt (hd.cell k).mpr h)

theorem empty_iff :
    d = ⟨[], []⟩ ↔ (∀ r, s.contents r = t.contents r) ∧ s.memory = t.memory := by
  constructor
  · rintro rfl
    exact ⟨fun r => contents_of_notMem hd List.not_mem_nil,
      List.ext_getElem? fun k => cell_of_notMem hd List.not_mem_nil⟩
  · rintro ⟨hcontents, hmemory⟩
    have hregisters : d.registers = [] :=
      List.eq_nil_iff_forall_not_mem.mpr fun r hr => (hd.register r).mp hr (hcontents r)
    have hcells : d.cells = [] :=
      List.eq_nil_iff_forall_not_mem.mpr fun k hk => (hd.cell k).mp hk (by rw [hmemory])
    rw [← hregisters, ← hcells]

theorem contents_overwritten (r : Register) : (t.overwritten s d).contents r = s.contents r := by
  have hchosen : (if r ∈ d.registers then s else t).contents r = s.contents r := by
    split
    · rfl
    · exact (contents_of_notMem hd ‹_›).symm
  cases r <;> exact hchosen

theorem memory_overwritten (h : s.memory.length = t.memory.length) :
    (t.overwritten s d).memory = s.memory := by
  apply List.ext_getElem?
  intro k
  have hsame := cell_of_notMem hd (k := k)
  rw [overwritten, List.getElem?_mapIdx]
  by_cases hlt : k < t.memory.length
  · rw [List.getElem?_eq_getElem hlt, Option.map_some]
    split
    · rw [List.getD_eq_getElem?_getD, List.getElem?_eq_getElem (h ▸ hlt), Option.getD_some]
    · rw [hsame ‹_›, List.getElem?_eq_getElem hlt]
  · rw [List.getElem?_eq_none (by omega), List.getElem?_eq_none (by omega), Option.map_none]

theorem overwritten_eq (h : s.memory.length = t.memory.length) :
    t.overwritten s d =
      { s with variant := t.variant, cycles := t.cycles, fault := t.fault } := by
  refine eq_iff_contents.mpr ⟨fun r => ?_, memory_overwritten hd h, rfl, rfl, rfl⟩
  rw [contents_overwritten hd]
  cases r <;> rfl

theorem subset_of_tells (he : e.Tells s u) (hf : f.Tells t u) :
    e.registers ⊆ d.registers ++ f.registers ∧ e.cells ⊆ d.cells ++ f.cells := by
  constructor
  · intro r hr
    by_contra hnot
    obtain ⟨hfirst, hsecond⟩ := not_or.mp (mt List.mem_append.mpr hnot)
    exact (he.register r).mp hr
      ((contents_of_notMem hd hfirst).trans (contents_of_notMem hf hsecond))
  · intro k hk
    by_contra hnot
    obtain ⟨hfirst, hsecond⟩ := not_or.mp (mt List.mem_append.mpr hnot)
    exact (he.cell k).mp hk ((cell_of_notMem hd hfirst).trans (cell_of_notMem hf hsecond))

end

/-- Snapshots of memories of different sizes are not compared. Of others, the difference tells all
registers and cells that differ, and only those, in either direction. What it leaves out is left out
by no equality: snapshots are equal if nothing differs and they have the same variant, cycles and
fault. What changes over two stretches has changed in one of them. -/
theorem diff_exact [CodeText τ] (s t : Snapshot τ) :
    (s.diff t = .error .unequalMemories ↔ s.memory.length ≠ t.memory.length) ∧
    Error.unequalMemories.kind = .value ∧
    (s.memory.length = t.memory.length → ∃ d : Difference,
      s.diff t = .ok d ∧
      d.Tells s t ∧
      t.diff s = .ok d ∧
      t.overwritten s d =
        { s with variant := t.variant, cycles := t.cycles, fault := t.fault } ∧
      s.toValue.same t.toValue = .ok (decide
        (d = ⟨[], []⟩ ∧ s.variant = t.variant ∧ s.cycles = t.cycles ∧ s.fault = t.fault)) ∧
      ∀ u : Snapshot τ, u.memory.length = t.memory.length → ∃ e f : Difference,
        s.diff u = .ok e ∧ t.diff u = .ok f ∧
        e.registers ⊆ d.registers ++ f.registers ∧ e.cells ⊆ d.cells ++ f.cells) := by
  refine ⟨diff_eq_error_iff, rfl, fun h => ?_⟩
  obtain ⟨d, hdiff, hd⟩ := exists_diff h
  have hequal : s = t ↔
      d = ⟨[], []⟩ ∧ s.variant = t.variant ∧ s.cycles = t.cycles ∧ s.fault = t.fault := by
    rw [eq_iff_contents, empty_iff hd, and_assoc]
  refine ⟨d, hdiff, hd, diff_comm t s ▸ hdiff, overwritten_eq hd h, ?_, fun u hu => ?_⟩
  · rw [Store.toValue_same, decide_eq_decide.mpr hequal]
  · obtain ⟨e, hdiffe, he⟩ := exists_diff (h.trans hu.symm)
    obtain ⟨f, hdifff, hf⟩ := exists_diff hu.symm
    exact ⟨e, f, hdiffe, hdifff, subset_of_tells hd he hf⟩

private def early : Snapshot where
  variant := "nv128"
  a := 0
  b := 0
  c := 3
  pc := 1
  sp := 0
  flags := [0, 0, 0, 0]
  memory := [15, 2]

private def failed : Snapshot :=
  { early with
    pc := 0
    flags := [0, 0, 0, 1]
    memory := [15, 7]
    cycles := 1
    fault := some "STACK_OVERFLOW" }

theorem diff_exact_failed :
    early.diff failed = .ok ⟨[.f, .pc], [1]⟩ ∧ failed.diff early = .ok ⟨[.f, .pc], [1]⟩ ∧
    failed.overwritten early ⟨[.f, .pc], [1]⟩ =
      { early with cycles := 1, fault := some "STACK_OVERFLOW" } ∧
    early.toValue.same failed.toValue = .ok false ∧
    ∃ e f : Difference, early.diff early = .ok e ∧ failed.diff early = .ok f ∧
      e.registers ⊆ [.f, .pc] ++ f.registers ∧ e.cells ⊆ [1] ++ f.cells := by
  obtain ⟨-, -, hexact⟩ := diff_exact early failed
  obtain ⟨d, hdiff, -, hback, hover, hsame, hthird⟩ := hexact rfl
  obtain rfl : d = ⟨[.f, .pc], [1]⟩ := Except.ok.inj (hdiff.symm.trans rfl)
  exact ⟨hdiff, hback, hover, hsame, hthird early rfl⟩

end Snapshot
end FourBit
