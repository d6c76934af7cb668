import FourBit.Proofs.Command.Run

/-! The listing of a program.
A program that is read by the pair takes up a cell more if it has an odd number of nibbles. That
cell holds nought, be it behind the program or, where the program ends with memory, the first
one. -/
namespace FourBit.Command.Request
open Machine Disassembly
variable {r : Request} {text : String} {ns : List Nibble}

section
variable {v : Variant} (hv : v.Sound) (hn : ns.length ≤ v.programSpace)
include hv hn

private theorem received : (fresh v).Received ns (place ns (fresh v)) :=
  received_place (fresh_memory_length v) hv.origin_nonneg hn

private theorem around_program :
    Cells.around (place ns (fresh v)).memory v.programOrigin.toNat ns.length =
      ns.map fun n => (n.val : Int) := by
  have hreceived := received hv hn
  have hlength : ((place ns (fresh v)).memory.length : Int) = v.capacity := hreceived.length
  have horigin := hv.origin_nonneg
  have hspace : ns.length ≤ v.capacity - v.programOrigin := hn
  have hsame : (Cells.around (place ns (fresh v)).memory v.programOrigin.toNat ns.length).length =
      (ns.map fun n => (n.val : Int)).length := by
    rw [Cells.around, List.length_map, List.length_range, List.length_map]
  refine List.ext_getElem hsame fun i hi hi' => ?_
  rw [List.length_map] at hi'
  have hstands : (place ns (fresh v)).memory[v.programOrigin.toNat + i]? = some (ns[i].val : Int) :=
    hreceived.stands i hi'
  simp only [Cells.around, List.getElem_map, List.getElem_range]
  rw [Nat.mod_eq_of_lt (by omega), List.getD_eq_getElem?_getD, hstands, Option.getD_some]

private theorem behind_program (hpos : 0 < v.programOrigin) :
    (place ns (fresh v)).memory.getD
      ((v.programOrigin.toNat + ns.length) % (place ns (fresh v)).memory.length) 0 = 0 := by
  have hreceived := received hv hn
  have hlength : ((place ns (fresh v)).memory.length : Int) = v.capacity := hreceived.length
  have hspace : ns.length ≤ v.capacity - v.programOrigin := hn
  obtain ⟨k, hk, hplace⟩ : ∃ k : Nat,
      (v.programOrigin.toNat + ns.length) % (place ns (fresh v)).memory.length = k ∧
        ¬ ((fresh v).origin ≤ k ∧ k < (fresh v).origin + ns.length) := by
    refine ⟨_, rfl, ?_⟩
    change ¬ (v.programOrigin ≤ _ ∧ _ < v.programOrigin + ns.length)
    rcases Int.lt_or_le (v.programOrigin + ns.length) v.capacity with hlt | hle
    · rw [Nat.mod_eq_of_lt (by omega)]
      omega
    · have hend : v.programOrigin.toNat + ns.length = (place ns (fresh v)).memory.length := by omega
      rw [hend, Nat.mod_self]
      omega
  have hfresh : (fresh v).memory = List.replicate v.capacity.toNat 0 := rfl
  rw [hk, List.getD_eq_getElem?_getD, hreceived.others k hplace, hfresh, List.getElem?_replicate]
  split <;> rfl

private theorem around_even (hpos : 0 < v.programOrigin) :
    Cells.around (place ns (fresh v)).memory v.programOrigin.toNat
        (ns.length + ns.length % 2) =
      ns.map (fun n => (n.val : Int)) ++ if ns.length % 2 = 1 then [0] else [] := by
  rcases Nat.mod_two_eq_zero_or_one ns.length with hzero | hone
  · rw [hzero, if_neg (by decide), Nat.add_zero, List.append_nil, around_program hv hn]
  · rw [hone, if_pos rfl, Cells.around, List.range_succ, List.map_append, ← Cells.around,
      around_program hv hn, List.map_singleton, behind_program hv hn hpos]

end

/-- The listing of memory is its image: of a stretch within it there is a line for every two cells,
which begins with the address of the first one, and read together they give the cells again, and
the one behind them, around memory, if the stretch is odd. So the lines of a program that the
command shows give the program again, and nought behind it if and only if it is odd. -/
theorem listing_images_memory :
    (∀ (memory : List Int) (start stop : Nat), (∀ x ∈ memory, 0 ≤ x ∧ x < 16) → start ≤ stop →
      stop ≤ memory.length →
        ∃ lines, Disassembly.listing memory start (some stop) = .ok lines ∧
          Shows memory start stop lines) ∧
    ∀ (r : Request) (text : String) (ns : List Nibble), r.Proper → r.listing = true →
      Program.parse text = .ok ns → ns.length ≤ r.variant.programSpace →
        ∃ report block rest, r.perform text = .ok report ∧
          report.output = block ++ "" :: rest ∧
          Disassembly.listing (load (.str text) (fresh r.variant)).state.memory
              r.variant.programOrigin
              (some (min (r.variant.programOrigin + ns.length + (ns.length % 2 : Nat))
                r.variant.capacity)) = .ok block ∧
          cellsShown block =
            .ok (ns.map (fun n => (n.val : Int)) ++ if ns.length % 2 = 1 then [0] else []) := by
  refine ⟨fun memory start stop hm hle hstop => listing_shows hm hle hstop,
    fun r text ns hr hlisting hparse hn => ?_⟩
  have hv := Variant.builtin_sound _ hr.variant
  have hpos : 0 < r.variant.programOrigin :=
    (by decide : ∀ v ∈ Variant.builtin, 0 < v.programOrigin) _ hr.variant
  have hspace : ns.length ≤ r.variant.capacity - r.variant.programOrigin := hn
  have hmemory : (r.ready ns).memory = (place ns (fresh r.variant)).memory :=
    (writeRegisters_others _ _).1
  have hloaded : (load (.str text) (fresh r.variant)).state.memory = (r.ready ns).memory := by
    rw [← (load_ready hparse hn).2, (writeRegisters_others _ _).1]
  obtain ⟨block, hblock, hlines, hshows⟩ := exists_listing hr hn
  obtain ⟨listed, traced, ending, document, report, hperform, hreport⟩ := exists_report hr hn hparse
  have hlisted := hreport.listed_eq
  rw [hlisting, hlines] at hlisted
  obtain rfl := Except.ok.inj hlisted
  have hcount : 2 * block.length = ns.length + ns.length % 2 := by
    rw [hshows.length, listingEnd]
    omega
  refine ⟨report, block, traced ++ ending ++
    (if r.output.isEmpty then [] else [s!"Writing snapshot to {r.output}"]), hperform, ?_, ?_, ?_⟩
  · rw [hreport.output, List.append_assoc, List.append_assoc]
    rfl
  · rw [hloaded]
    exact hblock
  · rw [hshows.cells, hcount, hmemory, around_even hv hn hpos]

/-- The program of a small machine is listed, and then no step is taken. -/
private def listed : Request := { program := "p", variant := .nv32, listing := true }

private def fullText : String := "0xA\n5\n0\n5\n0\n3\n1\n2\n3\n4\n5\n6\n7\n8\n9\n0xF\n0xE"

/-- Three cells in two lines, and a program that fills the small machine up to its last cell. In
both, the operand of the last line is the first cell of memory. -/
theorem listing_images_memory_of_full :
    (∀ x ∈ [(7 : Int), 8, 9], 0 ≤ x ∧ x < 16) ∧
      (∃ lines, Disassembly.listing [7, 8, 9] (0 : Nat) (some (3 : Nat)) = .ok lines ∧
        lines.length = 2 ∧ cellsShown lines = .ok [7, 8, 9, 7]) ∧
      listed.Proper ∧ listed.listing = true ∧
      (∃ ns, Program.parse fullText = .ok ns ∧ ns.length = listed.variant.programSpace) ∧
      ∃ report block rest, listed.perform fullText = .ok report ∧
        report.output = block ++ "" :: rest ∧
        cellsShown block =
          .ok [10, 5, 0, 5, 0, 3, 1, 2, 3, 4, 5, 6, 7, 8, 9, 15, 14, 0] := by
  have hm : ∀ x ∈ [(7 : Int), 8, 9], 0 ≤ x ∧ x < 16 := by decide
  obtain ⟨lines, hlines, hshows⟩ :=
    listing_images_memory.1 [7, 8, 9] 0 3 hm (by decide) (by decide)
  have hlength : lines.length = 2 := hshows.length
  have hcells : cellsShown lines = .ok [7, 8, 9, 7] := by
    rw [hshows.cells, hlength]
    rfl
  have hr : listed.Proper :=
    ⟨by decide, by decide, Numeral.isWritable_of_lt (by decide), fun _ => nofun⟩
  have hparse : Program.parse fullText =
      .ok [10, 5, 0, 5, 0, 3, 1, 2, 3, 4, 5, 6, 7, 8, 9, 15, 14] := rfl
  obtain ⟨report, block, rest, hperform, houtput, -, hblock⟩ :=
    listing_images_memory.2 listed fullText _ hr rfl hparse (by decide)
  exact ⟨hm, ⟨lines, hlines, hlength, hcells⟩, hr, rfl, ⟨_, hparse, rfl⟩, report, block, rest,
    hperform, houtput, hblock⟩

end FourBit.Command.Request
