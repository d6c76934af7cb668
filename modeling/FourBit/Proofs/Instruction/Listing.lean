import FourBit.Instruction.Listing
import FourBit.Proofs.Numeral.Decimal

/-! Listings as images of memory.
A line shows an address and the two nibbles of an instruction, and can be read back to them. The
lines of a stretch of memory show all of its cells, and the one behind them if their number is
odd. -/
namespace FourBit
open Numeral

namespace Cells

/-- So many cells from an address on; the first one comes behind the last one. -/
def around (cells : List Int) (start count : Nat) : List Int :=
  (List.range count).map fun i => cells.getD ((start + i) % cells.length) 0

theorem around_succ (cells : List Int) (start count : Nat) : around cells start (count + 1) =
    cells.getD (start % cells.length) 0 :: around cells (start + 1) count := by
  rw [around, List.range_succ_eq_map, List.map_cons, List.map_map, around]
  congr 1
  refine List.map_congr_left fun i _ => ?_
  rw [Function.comp_apply, Nat.succ_eq_add_one, Nat.add_assoc, Nat.add_comm 1 i]

end Cells

namespace Instruction

private theorem nibbleDigit_plain : ∀ n < 16, digit? 16 (nibbleDigit n) = some n ∧
    nibbleDigit n ≠ ' ' ∧ nibbleDigit n ≠ 'x' ∧ nibbleDigit n ≠ 'X' := by decide

theorem ofHex_toHex {i : Instruction} (hx : 0 ≤ i.opcode ∧ i.opcode < 16)
    (hy : 0 ≤ i.operand ∧ i.operand < 16) : ofHex i.toHex = .ok i := by
  obtain ⟨x, hopcode⟩ := Int.eq_ofNat_of_zero_le hx.1
  obtain ⟨y, hoperand⟩ := Int.eq_ofNat_of_zero_le hy.1
  obtain ⟨hfirst, hfirst_blank, -⟩ := nibbleDigit_plain x (by omega)
  obtain ⟨hsecond, hsecond_blank, hsmall, hcapital⟩ := nibbleDigit_plain y (by omega)
  have hnibbles : i.nibbles = (x, y) := by
    rw [nibbles, lowNibble, lowNibble, Int.emod_eq_of_lt hx.1 hx.2, Int.emod_eq_of_lt hy.1 hy.2,
      hopcode, hoperand, Int.toNat_natCast, Int.toNat_natCast]
  have hdigits : hexDigits i.toHex = [nibbleDigit x, nibbleDigit y] := by
    simp [hexDigits, toHex, hnibbles, hfirst_blank, hsecond_blank, hsmall, hcapital]
  rw [ofHex, hdigits]
  simp only [digitValue, hfirst, hsecond]
  change Except.ok (Instruction.mk ((x : Int) % 16) ((y : Int) % 16)) = _
  rw [← hopcode, ← hoperand, Int.emod_eq_of_lt hx.1 hx.2, Int.emod_eq_of_lt hy.1 hy.2]

end Instruction

namespace Disassembly
variable {memory : List Int}

def hexColumn (line : String) : String :=
  .ofList (((line.toList.dropWhile (· != ' ')).drop 1).take 2)

def cellsShown : List String → Except Error (List Int)
  | [] => .ok []
  | line :: rest => do
    let i ← Instruction.ofHex (hexColumn line)
    return i.opcode :: i.operand :: (← cellsShown rest)

private theorem address_plain (i : Int) : ∀ c ∈ address.chars i, (c != ' ') = true :=
  Format.forall_mem_chars (f := address) (by decide) (by decide) (List.forall_mem_nil _)
    (by decide) (by decide) i

theorem line_begins (address : Int) (i : Instruction) :
    ∃ rest, line address i = s!"0x{Numeral.address.write address}: " ++ rest := by
  refine ⟨i.toHex ++ "  " ++ i.mnemonic, ?_⟩
  change "0x" ++ Numeral.address.write address ++ ": " ++ i.toHex ++ "  " ++ i.mnemonic =
    "0x" ++ Numeral.address.write address ++ ": " ++ (i.toHex ++ "  " ++ i.mnemonic)
  simp only [String.append_assoc]

theorem hexColumn_line (address : Int) (i : Instruction) :
    hexColumn (line address i) = i.toHex := by
  have hplain : ∀ c ∈ '0' :: 'x' :: (Numeral.address.chars address ++ [':']), (c != ' ') = true :=
    List.forall_mem_cons.mpr ⟨rfl, List.forall_mem_cons.mpr ⟨rfl,
      List.forall_mem_append.mpr ⟨address_plain address, List.forall_mem_singleton.mpr rfl⟩⟩⟩
  have hline : (line address i).toList = '0' :: 'x' :: (Numeral.address.chars address ++ [':']) ++
      ' ' :: (i.toHex.toList ++ ("  " ++ i.mnemonic).toList) := by
    change ("0x" ++ .ofList (Numeral.address.chars address) ++ ": " ++ i.toHex ++ "  " ++
      i.mnemonic).toList = _
    simp
  have hblank : ∀ cs : List Char, ∀ c ∈ (' ' :: cs).head?, (c != ' ') = false := by
    intro cs c hc
    obtain rfl := Option.some.inj hc
    rfl
  rw [hexColumn, hline, (span_append hplain (hblank _)).2, List.drop_one, List.tail_cons,
    Instruction.toHex, String.toList_ofList]
  rfl

/-- The instruction at an address around memory. -/
def pairAt (memory : List Int) (k : Nat) : Instruction :=
  ⟨memory.getD (k % memory.length) 0, memory.getD ((k + 1) % memory.length) 0⟩

theorem instructionAt_of_lt {k : Nat} (hk : k < memory.length) :
    instructionAt memory k = .ok (pairAt memory k) := by
  have hne : ¬ memory.isEmpty = true := by
    rintro he
    rw [List.isEmpty_iff.mp he] at hk
    exact absurd hk (Nat.not_lt_zero k)
  have hlt : (k + 1) % memory.length < memory.length := Nat.mod_lt _ (Nat.zero_lt_of_lt hk)
  have hcell {j : Nat} (hj : j < memory.length) :
      Cells.get? memory (j : Int) = some (memory.getD j 0) := by
    rw [Cells.get?_of_lt (by omega), Int.toNat_natCast, List.getD_eq_getElem?_getD,
      List.getElem?_eq_getElem hj, Option.getD_some]
  have hsecond : ((k : Int) + 1) % memory.length = ((k + 1) % memory.length : Nat) := by
    exact_mod_cast rfl
  rw [instructionAt, if_neg hne, hsecond, hcell hk, hcell hlt, pairAt, Nat.mod_eq_of_lt hk]

private theorem read_eq {start count : Nat} (h : start + 2 * count ≤ memory.length + 1) :
    read memory start count = ⟨(List.range count).map fun i =>
      (((start + 2 * i : Nat) : Int), pairAt memory (start + 2 * i)), none⟩ := by
  induction count generalizing start with
  | zero => rfl
  | succ count ih =>
    have hrest := @ih (start + 2) (by omega)
    rw [read, instructionAt_of_lt (by omega), List.range_succ_eq_map]
    change Disassembly.mk (_ :: (read memory (start + 2 : Nat) count).instructions)
      (read memory (start + 2 : Nat) count).failure = _
    rw [hrest, List.map_cons, List.map_map]
    congr 2
    refine List.map_congr_left fun i _ => ?_
    rw [Function.comp_apply, Nat.succ_eq_add_one, Nat.mul_add, Nat.add_assoc, Nat.add_comm (2 * i)]

structure Shows (memory : List Int) (start stop : Nat) (lines : List String) : Prop where
  length : lines.length = (stop - start + 1) / 2
  begins : ∀ i (hi : i < lines.length),
    ∃ rest, lines[i] = s!"0x{address.write (start + 2 * i : Nat)}: " ++ rest
  cells : cellsShown lines = .ok (Cells.around memory start (2 * lines.length))

private theorem nibble_getD (hm : ∀ x ∈ memory, 0 ≤ x ∧ x < 16) (k : Nat) :
    0 ≤ memory.getD k 0 ∧ memory.getD k 0 < 16 := by
  rw [List.getD_eq_getElem?_getD]
  cases hx : memory[k]? with
  | none => exact ⟨Int.le_refl 0, by decide⟩
  | some x => exact hm x (List.mem_of_getElem? hx)

private theorem ofHex_hexColumn (hm : ∀ x ∈ memory, 0 ≤ x ∧ x < 16) (address : Int) (k : Nat) :
    Instruction.ofHex (hexColumn (line address (pairAt memory k))) = .ok (pairAt memory k) := by
  rw [hexColumn_line]
  exact Instruction.ofHex_toHex (nibble_getD hm _) (nibble_getD hm _)

private theorem cellsShown_lines (hm : ∀ x ∈ memory, 0 ≤ x ∧ x < 16) (start count : Nat) :
    cellsShown ((List.range count).map fun i =>
      line (start + 2 * i : Nat) (pairAt memory (start + 2 * i))) =
        .ok (Cells.around memory start (2 * count)) := by
  induction count generalizing start with
  | zero => rfl
  | succ count ih =>
    have hrest :
        (fun i => line (start + 2 * i : Nat) (pairAt memory (start + 2 * i))) ∘ Nat.succ =
          fun i => line (start + 2 + 2 * i : Nat) (pairAt memory (start + 2 + 2 * i)) := by
      funext i
      rw [Function.comp_apply, Nat.succ_eq_add_one, Nat.mul_add, Nat.add_assoc start 2,
        Nat.add_comm (2 * i)]
    rw [List.range_succ_eq_map, List.map_cons, List.map_map, hrest, cellsShown,
      ofHex_hexColumn hm, ih, Nat.mul_add, Cells.around_succ, Cells.around_succ]
    rfl

theorem listing_shows (hm : ∀ x ∈ memory, 0 ≤ x ∧ x < 16) {start stop : Nat}
    (hle : start ≤ stop) (hstop : stop ≤ memory.length) :
    ∃ lines, listing memory start (some stop) = .ok lines ∧ Shows memory start stop lines := by
  have hcount : countBetween start stop = (stop - start + 1) / 2 := by
    rw [countBetween]
    omega
  have hread : read memory start ((stop - start + 1) / 2) = _ := read_eq (by omega)
  refine ⟨(List.range ((stop - start + 1) / 2)).map fun i =>
    line (start + 2 * i : Nat) (pairAt memory (start + 2 * i)), ?_, ?_, ?_, ?_⟩
  · rw [listing, ofMemory, Option.getD_some, hcount, hread]
    simp only [List.map_map]
    rfl
  · rw [List.length_map, List.length_range]
  · intro i hi
    rw [List.getElem_map, List.getElem_range]
    exact line_begins _ _
  · rw [List.length_map, List.length_range]
    exact cellsShown_lines hm _ _

end Disassembly
end FourBit
