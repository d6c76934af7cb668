import Mathlib.Data.List.Forall2
import FourBit.Proofs.Instruction.Listing
import FourBit.Proofs.Machine.Invariant
import FourBit.Proofs.Store.Snapshot

/-! Machines that can be shown and stored.
What is shown of a machine in range are numbers that are few, so there is a text for each, and there
is a line for each address. -/
namespace FourBit

theorem exists_mapM {α β : Type} {f : α → Except Error β} {xs : List α}
    (h : ∀ x ∈ xs, ∃ y, f x = .ok y) :
    ∃ ys, xs.mapM f = .ok ys ∧ List.Forall₂ (fun x y => f x = .ok y) xs ys := by
  induction xs with
  | nil => exact ⟨[], rfl, .nil⟩
  | cons x xs ih =>
    obtain ⟨⟨y, hy⟩, hrest⟩ := List.forall_mem_cons.mp h
    obtain ⟨ys, hys, hall⟩ := ih hrest
    refine ⟨y :: ys, ?_, .cons hy hall⟩
    rw [List.mapM_cons, hy, hys]
    rfl

namespace Snapshot
open Numeral
variable {τ : Type} {s : Snapshot τ}

def lineAt (s : Snapshot τ) (k : Nat) : String :=
  cellLine k (bits.write (s.memory.getD k 0)) ((k : Int) == s.pc) ((k : Int) == s.sp)

theorem cells_eq {start count : Nat} (h : start + count ≤ s.memory.length) :
    s.cells start count = .ok ((List.range' start count).map s.lineAt) := by
  induction count generalizing start with
  | zero => rfl
  | succ count ih =>
    have hrest := @ih (start + 1) (by omega)
    have hcell : s.cell start = .ok (s.lineAt start) := by
      rw [cell, Cells.get?_of_lt (by omega), Int.toNat_natCast,
        List.getElem?_eq_getElem (show start < s.memory.length by omega), lineAt,
        List.getD_eq_getElem?_getD,
        List.getElem?_eq_getElem (show start < s.memory.length by omega)]
      rfl
    rw [Int.natCast_succ] at hrest
    rw [cells, hcell, hrest, List.range'_succ]
    rfl

theorem showMemory_eq {start stop : Nat} (h : start ≤ stop) (hstop : stop ≤ s.memory.length) :
    s.showMemory start (some stop) = .ok ((List.range' start (stop - start)).map s.lineAt) := by
  have hcount : ((some (stop : Int)).getD s.memory.length - start).toNat = stop - start := by
    rw [Option.getD_some]
    omega
  rw [showMemory, hcount, cells_eq (by omega)]

theorem showMemory_all (s : Snapshot τ) :
    s.showMemory 0 none = .ok ((List.range' 0 s.memory.length).map s.lineAt) :=
  showMemory_eq (Nat.zero_le _) (Nat.le_refl _)

theorem exists_showMemory {stop : Int} (h : stop ≤ s.memory.length) :
    ∃ lines, s.showMemory 0 (some stop) = .ok lines := by
  have hcount : 0 + (stop - 0).toNat ≤ s.memory.length := by omega
  exact ⟨_, cells_eq hcount⟩

theorem stateLine_eq (flags : List String) (a b c pc sp : String) :
    stateLine flags a b c pc sp =
      "A=0x" ++ a ++ " B=0x" ++ b ++ " C=0x" ++ c ++ " PC=0x" ++ pc ++ " SP=0x" ++ sp ++ " " ++
        " ".intercalate ((Flag.all.zip flags).map fun x => x.1.label ++ "=" ++ x.2) := rfl

structure Printable (s : Snapshot τ) : Prop where
  flags_length : s.flags.length = 4
  flags_writable : ∀ i ∈ s.flags, isWritable i = true

theorem Printable.state_eq (h : s.Printable) : s.state =
    .ok (stateLine (s.flags.map decimal.write) (hex.write s.a) (hex.write s.b) (hex.write s.c)
      (address.write s.pc) (address.write s.sp)) := by
  have hwrite (i : Int) (hi : i ∈ s.flags) : writeDecimal i = .ok (decimal.write i) := by
    rw [writeDecimal, if_pos (h.flags_writable i hi)]
  have hflags : (Flag.all.mapM fun f => do writeDecimal (← s.flag f)) =
      .ok (s.flags.map decimal.write) := by
    obtain ⟨carry, negative, equal, error, hfour⟩ := List.length_eq_four.mp h.flags_length
    simp only [hfour, List.forall_mem_cons] at hwrite
    obtain ⟨hcarry, hnegative, hequal, herror, -⟩ := hwrite
    simp [Flag.all, flag, Flag.place, hfour, hcarry, hnegative, hequal, herror, bind, Except.bind,
      pure, Except.pure]
  rw [state, hflags]
  rfl

end Snapshot

namespace Machine
open Numeral
variable {m : Machine}

private theorem writable_of_bit {i : Int} (h : i = 0 ∨ i = 1) : isWritable i = true :=
  isWritable_of_lt (by omega)

private theorem writable_of_nibble {i : Int} (h : 0 ≤ i ∧ i < 16) : isWritable i = true :=
  isWritable_of_lt (by omega)

theorem InRange.instructionAt_pc (h : m.InRange) :
    Disassembly.instructionAt m.memory m.pc = .ok m.current := by
  obtain ⟨k, hpc⟩ := Int.eq_ofNat_of_zero_le h.pc_cell.1
  have hlt : k < m.memory.length := by
    have := h.memory_length
    have := h.pc_cell.2
    omega
  have hcurrent : m.current = Disassembly.pairAt m.memory k := by
    rw [current, Disassembly.pairAt, Machine.cell, Machine.cell,
      Int.emod_eq_of_lt h.pc_cell.1 h.pc_cell.2, hpc, ← h.memory_length, Nat.mod_eq_of_lt hlt]
    norm_cast
  rw [hpc, hcurrent]
  exact Disassembly.instructionAt_of_lt hlt

theorem InRange.state_eq (h : m.InRange) : m.snapshot.state =
    .ok (Snapshot.stateLine (m.flags.map decimal.write) (hex.write m.a) (hex.write m.b)
      (hex.write m.c) (address.write m.pc) (address.write m.sp)) :=
  Snapshot.Printable.state_eq ⟨h.flags_length, fun i hi => writable_of_bit (h.flags_bit i hi)⟩

theorem InRange.exists_state (h : m.InRange) : ∃ line, m.snapshot.state = .ok line :=
  ⟨_, h.state_eq⟩

theorem InRange.writable (h : m.InRange) (hp : isWritable m.capacity = true)
    (hc : isWritable m.cycles = true) : Store.Writable m.snapshot where
  registers := by
    have hcell {i : Int} (hi : 0 ≤ i ∧ i < m.capacity) : isWritable i = true :=
      isWritable_of_le (by omega) hp
    simp only [List.forall_mem_cons]
    exact ⟨writable_of_nibble h.a_nibble, writable_of_nibble h.b_nibble,
      writable_of_nibble h.c_nibble, hcell h.pc_cell, hcell h.sp_cell, hc, List.forall_mem_nil _⟩
  flags _ hi := writable_of_bit (h.flags_bit _ hi)
  memory _ hi := writable_of_nibble (h.memory_nibble _ hi)

end Machine
end FourBit
