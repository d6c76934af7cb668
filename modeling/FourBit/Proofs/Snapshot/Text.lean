import FourBit.Proofs.Machine.Display
import FourBit.Proofs.Numeral.Format
import FourBit.Proofs.Snapshot.Difference

/-! Snapshots that are told apart by what is shown of them.
The line of a snapshot is made of nine parts with blanks between them, and a part has no blank and
shows one number behind its label. The line of a cell shows its address, and then its bits up to
the next blank or the end. So the texts of two snapshots are equal only if all their registers,
flags and cells are. -/
namespace FourBit.Snapshot
open Numeral
variable {τ : Type} {s t : Snapshot τ} {k : Nat}

private def parts (s : Snapshot τ) : List (List Char) :=
  ["A=0x".toList ++ hex.chars s.a, "B=0x".toList ++ hex.chars s.b, "C=0x".toList ++ hex.chars s.c,
    "PC=0x".toList ++ address.chars s.pc, "SP=0x".toList ++ address.chars s.sp] ++
  (Flag.all.zip s.flags).map fun x => x.1.label.toList ++ '=' :: decimal.chars x.2

private theorem blank_notMem (i : Int) : ' ' ∉ hex.chars i ∧ ' ' ∉ address.chars i ∧
    ' ' ∉ decimal.chars i ∧ ' ' ∉ bits.chars i := by
  have hplain {f : Format} (hb : 1 < f.base) (hmark : ∀ c ∈ f.mark, (c != ' ') = true)
      (h : ∀ d < f.base,
        ((if f.capitals then d.digitChar.toUpper else d.digitChar) != ' ') = true) :
      ' ' ∉ f.chars i := by
    intro hmem
    have hne :=
      Format.forall_mem_chars hb (p := fun c => (c != ' ') = true) rfl hmark rfl h i _ hmem
    exact absurd hne (by decide)
  have hnone : ∀ c ∈ ([] : List Char), (c != ' ') = true := List.forall_mem_nil _
  exact ⟨hplain (by decide) hnone (by decide), hplain (by decide) hnone (by decide),
    hplain (by decide) hnone (by decide), hplain (by decide) hnone (by decide)⟩

private theorem parts_plain (s : Snapshot τ) : ∀ part ∈ s.parts, ' ' ∉ part := by
  have hlabel (f : Flag) : ' ' ∉ f.label.toList := by cases f <;> decide
  intro part hpart
  rw [parts, List.mem_append] at hpart
  rcases hpart with hpart | hpart
  · simp only [List.mem_cons, List.not_mem_nil, or_false] at hpart
    rcases hpart with rfl | rfl | rfl | rfl | rfl <;> simp [blank_notMem]
  · obtain ⟨⟨f, i⟩, -, rfl⟩ := List.mem_map.mp hpart
    simp [hlabel, blank_notMem]

private theorem Printable.line_parts (h : s.Printable) :
    ∃ line, s.state = .ok line ∧ line.toList = [' '].intercalate s.parts := by
  obtain ⟨carry, negative, equal, error, hfour⟩ := List.length_eq_four.mp h.flags_length
  refine ⟨_, h.state_eq, ?_⟩
  rw [stateLine_eq]
  simp [parts, hfour, Flag.all, List.intercalate, Format.write]

private theorem Printable.parts_eq (hs : s.Printable) (ht : t.Printable) (h : s.state = t.state) :
    s.parts = t.parts := by
  obtain ⟨line, hline, hparts⟩ := hs.line_parts
  obtain ⟨line', hline', hparts'⟩ := ht.line_parts
  obtain rfl : line = line' := Except.ok.inj (hline.symm.trans (h.trans hline'))
  have hsplit := List.splitOn_intercalate ' ' s.parts_plain (by simp [parts])
  rw [← List.splitOn_intercalate ' ' t.parts_plain (by simp [parts]), ← hparts', hparts, hsplit]

private theorem Printable.contents_eq (hs : s.Printable) (ht : t.Printable) (h : s.parts = t.parts)
    (r : Register) : s.contents r = t.contents r := by
  obtain ⟨carry, negative, equal, error, hfour⟩ := List.length_eq_four.mp hs.flags_length
  obtain ⟨carry', negative', equal', error', hfour'⟩ := List.length_eq_four.mp ht.flags_length
  simp only [parts, hfour, hfour', Flag.all, List.zip_cons_cons, List.map_cons, List.cons_append,
    List.nil_append, List.cons.injEq, List.append_cancel_left_eq, true_and] at h
  obtain ⟨ha, hb, hc, hpc, hsp, hcarry, hnegative, hequal, herror, -⟩ := h
  cases r with
  | a => exact congrArg ([·]) (Format.hex_readable.chars_injective ha)
  | b => exact congrArg ([·]) (Format.hex_readable.chars_injective hb)
  | c => exact congrArg ([·]) (Format.hex_readable.chars_injective hc)
  | pc => exact congrArg ([·]) (Format.address_readable.chars_injective hpc)
  | sp => exact congrArg ([·]) (Format.address_readable.chars_injective hsp)
  | f =>
    rw [contents, contents, hfour, hfour', Format.decimal_readable.chars_injective hcarry,
      Format.decimal_readable.chars_injective hnegative,
      Format.decimal_readable.chars_injective hequal,
      Format.decimal_readable.chars_injective herror]

private def pointers (s : Snapshot τ) (k : Nat) : List Char :=
  (if (k : Int) = s.pc then " <-- PC".toList else []) ++
    if (k : Int) = s.sp then " <-- SP".toList else []

private def front (s : Snapshot τ) (k : Nat) : List Char :=
  "0x".toList ++ (address.chars k ++ ' ' :: bits.chars (s.memory.getD k 0))

private theorem toList_lineAt (s : Snapshot τ) (k : Nat) :
    (s.lineAt k).toList = s.front k ++ s.pointers k := by
  have hcell (b : String) (atPc atSp : Bool) : (cellLine k b atPc atSp).toList =
      "0x".toList ++ (address.chars k ++ ' ' :: (b.toList ++
        ((if atPc then " <-- PC".toList else []) ++ if atSp then " <-- SP".toList else []))) := by
    cases atPc <;> cases atSp <;> simp [cellLine, Format.write, toString]
  rw [lineAt, hcell, front, pointers]
  simp only [Format.write, String.toList_ofList, beq_iff_eq, List.append_assoc, List.cons_append]

private theorem blank_of_pointers (s : Snapshot τ) (k : Nat) :
    ∀ c ∈ (s.pointers k).head?, (c != ' ') = false := by
  intro c hc
  unfold pointers at hc
  split at hc <;> split at hc
  · cases hc
    rfl
  · cases hc
    rfl
  · cases hc
    rfl
  · cases hc

private theorem cell_eq_of_lineAt (h : s.lineAt k = t.lineAt k) :
    s.memory.getD k 0 = t.memory.getD k 0 := by
  have hplain (i : Int) : ∀ c ∈ bits.chars i, (c != ' ') = true := by
    intro c hc
    rw [bne_iff_ne]
    rintro rfl
    exact (blank_notMem i).2.2.2 hc
  have hchars := congrArg String.toList h
  simp only [toList_lineAt, front, List.append_assoc, List.cons_append, List.append_cancel_left_eq,
    List.cons.injEq, true_and] at hchars
  have hbits := congrArg (List.takeWhile (· != ' ')) hchars
  rw [(span_append (hplain _) (blank_of_pointers s k)).1,
    (span_append (hplain _) (blank_of_pointers t k)).1] at hbits
  exact Format.bits_readable.chars_injective hbits

private theorem memory_eq_of_lines
    (h : (List.range' 0 s.memory.length).map s.lineAt =
      (List.range' 0 t.memory.length).map t.lineAt) :
    s.memory = t.memory := by
  have hlength : s.memory.length = t.memory.length := by simpa using congrArg List.length h
  rw [hlength, List.map_inj_left] at h
  apply List.ext_getElem hlength
  intro k hs ht
  have hcell := cell_eq_of_lineAt (h k (by simpa [List.mem_range'_1] using ht))
  simpa [List.getD_eq_getElem?_getD, hs, ht] using hcell

private theorem front_plain (s : Snapshot τ) (k : Nat) : ∀ c ∈ s.front k, c ≠ 'C' ∧ c ≠ 'S' := by
  have hmark : ∀ c ∈ "0x".toList, c ≠ 'C' ∧ c ≠ 'S' := by simp
  have haddress : ∀ c ∈ address.chars k, c ≠ 'C' ∧ c ≠ 'S' :=
    Format.forall_mem_chars (f := address) (by decide) (by decide) (List.forall_mem_nil _)
      (by decide) (by decide) k
  have hbits : ∀ c ∈ bits.chars (s.memory.getD k 0), c ≠ 'C' ∧ c ≠ 'S' :=
    Format.forall_mem_chars (f := bits) (by decide) (by decide) (List.forall_mem_nil _)
      (by decide) (by decide) _
  intro c h
  simp only [front, List.mem_append, List.mem_cons] at h
  rcases h with h | h | rfl | h
  · exact hmark c h
  · exact haddress c h
  · decide
  · exact hbits c h

theorem pc_marked_iff (s : Snapshot τ) (k : Nat) :
    " <-- PC".toList <:+: (s.lineAt k).toList ↔ (k : Int) = s.pc := by
  rw [toList_lineAt]
  constructor
  · intro h
    by_contra hne
    have hmem : 'C' ∈ s.front k ++ s.pointers k := h.subset (by decide)
    have hfront : 'C' ∉ s.front k := fun h => (front_plain s k _ h).1 rfl
    rw [List.mem_append, or_iff_right hfront, pointers, if_neg hne] at hmem
    split at hmem <;> exact absurd hmem (by decide)
  · intro h
    rw [pointers, if_pos h]
    exact ⟨s.front k, _, List.append_assoc _ _ _⟩

theorem sp_marked_iff (s : Snapshot τ) (k : Nat) :
    " <-- SP".toList <:+: (s.lineAt k).toList ↔ (k : Int) = s.sp := by
  rw [toList_lineAt]
  constructor
  · intro h
    by_contra hne
    have hmem : 'S' ∈ s.front k ++ s.pointers k := h.subset (by decide)
    have hfront : 'S' ∉ s.front k := fun h => (front_plain s k _ h).2 rfl
    rw [List.mem_append, or_iff_right hfront, pointers, if_neg hne] at hmem
    split at hmem <;> exact absurd hmem (by decide)
  · intro h
    rw [pointers, if_pos h]
    exact ⟨s.front k ++ _, [], by rw [List.append_nil, List.append_assoc]⟩

/-- The lines of the cells from one address on and before another, in order: each shows the address
and the bits of the cell, and behind them nothing but the pointers that are at it. -/
structure ShowsCells (s : Snapshot τ) (start stop : Nat) (lines : List String) : Prop where
  length : lines.length = stop - start
  cell_shown : ∀ i (hi : i < lines.length),
    ∃ rest ∈ ["", " <-- PC", " <-- SP", " <-- PC <-- SP"], lines[i] =
      s!"0x{address.write (start + i : Nat)} {bits.write (s.memory.getD (start + i) 0)}" ++ rest
  pc_marked : ∀ i (hi : i < lines.length),
    " <-- PC".toList <:+: lines[i].toList ↔ ((start + i : Nat) : Int) = s.pc
  sp_marked : ∀ i (hi : i < lines.length),
    " <-- SP".toList <:+: lines[i].toList ↔ ((start + i : Nat) : Int) = s.sp

private theorem lineAt_eq (s : Snapshot τ) (k : Nat) :
    ∃ rest ∈ ["", " <-- PC", " <-- SP", " <-- PC <-- SP"], s.lineAt k =
      s!"0x{address.write k} {bits.write (s.memory.getD k 0)}" ++ rest := by
  have hboth : " <-- PC <-- SP" = " <-- PC" ++ " <-- SP" := by decide
  have hcell (b : String) (atPc atSp : Bool) :
      ∃ rest ∈ ["", " <-- PC", " <-- SP", " <-- PC <-- SP"],
        cellLine k b atPc atSp = s!"0x{address.write k} {b}" ++ rest := by
    cases atPc <;> cases atSp <;> simp [cellLine, hboth, String.append_assoc]
  exact hcell _ _ _

theorem showsCells_lines (s : Snapshot τ) (start stop : Nat) :
    s.ShowsCells start stop ((List.range' start (stop - start)).map s.lineAt) where
  length := by simp
  cell_shown i hi := by simpa using s.lineAt_eq (start + i)
  pc_marked i hi := by simpa using s.pc_marked_iff (start + i)
  sp_marked i hi := by simpa using s.sp_marked_iff (start + i)

theorem slice_lines (s : Snapshot τ) {start stop : Nat} (hstop : stop ≤ s.memory.length) :
    (List.range' start (stop - start)).map s.lineAt =
      (((List.range' 0 s.memory.length).map s.lineAt).take stop).drop start := by
  rw [← List.map_take, ← List.map_drop, List.take_range'_of_length_ge hstop]
  simp

theorem diff_eq_empty_iff : s.diff t = .ok ⟨[], []⟩ ↔
    (∀ r, s.contents r = t.contents r) ∧ s.memory = t.memory := by
  constructor
  · intro h
    have hlength : s.memory.length = t.memory.length := by
      by_contra hne
      rw [diff_eq_error_iff.mpr hne] at h
      cases h
    obtain ⟨d, hdiff, hd⟩ := exists_diff hlength
    exact (empty_iff hd).mp (Except.ok.inj (hdiff.symm.trans h))
  · intro h
    obtain ⟨d, hdiff, hd⟩ := exists_diff (congrArg List.length h.2)
    rw [hdiff, (empty_iff hd).mpr h]

private theorem shown_congr (h : ∀ r, s.contents r = t.contents r) (hm : s.memory = t.memory) :
    s.state = t.state ∧ s.showMemory 0 none = t.showMemory 0 none := by
  have ha := List.head_eq_of_cons_eq (h .a)
  have hb := List.head_eq_of_cons_eq (h .b)
  have hc := List.head_eq_of_cons_eq (h .c)
  have hpc := List.head_eq_of_cons_eq (h .pc)
  have hsp := List.head_eq_of_cons_eq (h .sp)
  have hf : s.flags = t.flags := h .f
  have hline : s.lineAt = t.lineAt := by
    funext k
    rw [lineAt, lineAt, hm, hpc, hsp]
  constructor
  · simp only [state, flag, ha, hb, hc, hpc, hsp, hf]
  · rw [showMemory_all, showMemory_all, hm, hline]

/-- Snapshots of four flags are shown as the same line and the same lines of cells just if they
have the same registers, flags and cells, so that nothing differs. What is shown of a stretch of
memory is a line for each of its cells, in order, which marks the pointers just where they are, and
it is what is shown of it among all cells. -/
theorem text_determines_state (s t : Snapshot τ) :
    (s.Printable → t.Printable →
      (∃ line, s.state = .ok line) ∧
      (s.state = t.state ∧ s.showMemory 0 none = t.showMemory 0 none ↔
        (∀ r, s.contents r = t.contents r) ∧ s.memory = t.memory) ∧
      ((∀ r, s.contents r = t.contents r) ∧ s.memory = t.memory ↔ s.diff t = .ok ⟨[], []⟩)) ∧
    ∃ all, s.showMemory 0 none = .ok all ∧ s.ShowsCells 0 s.memory.length all ∧
      ∀ start stop : Nat, start ≤ stop → stop ≤ s.memory.length →
        ∃ lines, s.showMemory start (some stop) = .ok lines ∧ s.ShowsCells start stop lines ∧
          lines = (all.take stop).drop start := by
  refine ⟨fun hs ht => ⟨⟨_, hs.state_eq⟩, ⟨?_, ?_⟩, diff_eq_empty_iff.symm⟩, _, showMemory_all s,
    showsCells_lines s 0 _, fun start stop hle hstop =>
      ⟨_, showMemory_eq hle hstop, showsCells_lines s start stop, slice_lines s hstop⟩⟩
  · rintro ⟨hstate, hlines⟩
    rw [showMemory_all, showMemory_all] at hlines
    exact ⟨hs.contents_eq ht (hs.parts_eq ht hstate), memory_eq_of_lines (Except.ok.inj hlines)⟩
  · rintro ⟨hcontents, hmemory⟩
    exact shown_congr hcontents hmemory

/-- Registers, flags and cells of either sign, some of them wider than their fields. -/
private def unruly : Snapshot where
  variant := "nv3"
  a := -5
  b := 0
  c := 300
  pc := 1
  sp := -1
  flags := [0, -1, 0, 7]
  memory := [-3, 5, 255]

private def moved : Snapshot := { unruly with sp := 3 }

theorem text_determines_state_unruly :
    unruly.Printable ∧ moved.Printable ∧ (∃ line, unruly.state = .ok line) ∧
      ¬ (unruly.state = moved.state ∧ unruly.showMemory 0 none = moved.showMemory 0 none) ∧
      ∃ lines, unruly.showMemory 1 (some 3) = .ok lines ∧ unruly.ShowsCells 1 3 lines := by
  have hflags : ∀ i ∈ unruly.flags, isWritable i = true := by
    have hsmall : ∀ i ∈ unruly.flags, i.natAbs < 100 := by decide
    exact fun i hi => isWritable_of_lt (hsmall i hi)
  have hs : unruly.Printable := ⟨rfl, hflags⟩
  have ht : moved.Printable := ⟨rfl, hflags⟩
  obtain ⟨htext, all, -, -, hslice⟩ := text_determines_state unruly moved
  obtain ⟨hstate, hequal, -⟩ := htext hs ht
  obtain ⟨lines, hlines, hshown, -⟩ := hslice 1 3 (by decide) (by decide)
  refine ⟨hs, ht, hstate, fun h => ?_, lines, hlines, hshown⟩
  exact absurd ((hequal.mp h).1 .sp) (by decide)

end FourBit.Snapshot
