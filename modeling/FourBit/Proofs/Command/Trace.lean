import FourBit.Command.Report
import FourBit.Proofs.Machine.Display
import FourBit.Proofs.Runner.Record

/-! Lines of a trace.
Each line tells where the program counter is and which instruction is next. The next step fetches
just that instruction from just there, and says so in its record, whatever the steps before it have
made of memory. -/
namespace FourBit
open Numeral

/-- The program counter on a line of a trace: the text from the first P, without `PC=0x`, up to a
blank. -/
def pcShown (line : String) : String :=
  .ofList (((line.toList.dropWhile (· != 'P')).drop 5).takeWhile (· != ' '))

/-- The next instruction on a line of a trace: the text behind the first colon and a blank, up to
the two blanks and the mark that announce a fault, if there is one. -/
def nextShown (line : String) : String :=
  let cs := (line.toList.dropWhile (· != ':')).drop 2
  .ofList (if '!' ∈ cs then (cs.takeWhile (· != '!')).dropLast.dropLast else cs)

private theorem cut_append {c : Char} {cs rest : List Char} (h : ∀ d ∈ cs, (d != c) = true) :
    (cs ++ c :: rest).takeWhile (· != c) = cs ∧
      (cs ++ c :: rest).dropWhile (· != c) = c :: rest := by
  refine span_append h fun d hd => ?_
  obtain rfl := Option.some.inj hd
  exact bne_self_eq_false c

private theorem forall_mem_intercalate {p : Char → Prop} {sep : List Char}
    {parts : List (List Char)} (hsep : ∀ c ∈ sep, p c)
    (h : ∀ part ∈ parts, ∀ c ∈ part, p c) : ∀ c ∈ sep.intercalate parts, p c := by
  induction parts with
  | nil => exact List.forall_mem_nil _
  | cons part parts ih =>
    obtain ⟨hpart, hparts⟩ := List.forall_mem_cons.mp h
    cases parts with
    | nil => simpa [List.intercalate] using hpart
    | cons next parts =>
      have hmore : sep.intercalate (part :: next :: parts) =
          part ++ (sep ++ sep.intercalate (next :: parts)) := by
        simp [List.intercalate]
      rw [hmore]
      exact List.forall_mem_append.mpr ⟨hpart, List.forall_mem_append.mpr ⟨hsep, ih hparts⟩⟩

private theorem mnemonic_plain (i : Instruction) : '!' ∉ i.mnemonic.toList := by
  have hhex (n : Int) : '!' ∉ hex.chars n := fun hc =>
    Format.forall_mem_chars (f := hex) (p := (· ≠ '!')) (by decide) (by decide)
      (List.forall_mem_nil _) (by decide) (by decide) n '!' hc rfl
  have hsecondary (s : Secondary) : '!' ∉ s.mnemonic.toList := by cases s <;> decide
  have hprimary (p : Primary) (n : Int) : '!' ∉ (p.mnemonic s!"0x{hex.write n}").toList := by
    cases p <;> simp [Primary.mnemonic, toString, Format.write, hhex]
  have hinvalid : '!' ∉ (s!".INVALID 0x{hex.write i.opcode}, 0x{hex.write i.operand}").toList := by
    simp [toString, Format.write, hhex]
  rw [Instruction.mnemonic]
  split
  · cases i.secondary? with
    | none => exact hinvalid
    | some s => exact hsecondary s
  · split
    · exact hprimary _ _
    · exact hinvalid

namespace Machine
variable {m : Machine}

private def front (m : Machine) : List Char :=
  '[' :: (List.replicate (4 - (decimal.chars m.cycles).length) ' ' ++ (decimal.chars m.cycles ++
    ("] A=0x".toList ++ (hex.chars m.a ++ (" B=0x".toList ++ (hex.chars m.b ++ (" C=0x".toList ++
      (hex.chars m.c ++ [' ']))))))))

private def middle (m : Machine) : List Char :=
  "SP=0x".toList ++ (address.chars m.sp ++ (' ' :: ([' '].intercalate ((Flag.all.zip m.flags).map
    fun x => x.1.label.toList ++ '=' :: decimal.chars x.2) ++ "  next".toList)))

private def faultShown (m : Machine) : List Char :=
  m.lastFault.elim [] fun fault => ' ' :: ' ' :: '!' :: fault.name.toList

private theorem front_plain (m : Machine) :
    ∀ c ∈ m.front, (c != 'P' && c != ':') = true := by
  have hblank : ∀ c ∈ List.replicate (4 - (decimal.chars m.cycles).length) ' ',
      (c != 'P' && c != ':') = true := fun c hc => List.eq_of_mem_replicate hc ▸ rfl
  have hdecimal (i : Int) : ∀ c ∈ decimal.chars i, (c != 'P' && c != ':') = true :=
    forall_mem_decimal (by decide) (by decide) i
  have hhex (i : Int) : ∀ c ∈ hex.chars i, (c != 'P' && c != ':') = true :=
    Format.forall_mem_chars (f := hex) (by decide) (by decide) (List.forall_mem_nil _)
      (by decide) (by decide) i
  have htext {cs : List Char} (h : cs.all (fun c => c != 'P' && c != ':') = true) :
      ∀ c ∈ cs, (c != 'P' && c != ':') = true := List.all_eq_true.mp h
  simp only [front, List.forall_mem_cons, List.forall_mem_append]
  exact ⟨rfl, hblank, hdecimal _, htext (by decide), hhex _, htext (by decide), hhex _,
    htext (by decide), hhex _, rfl, List.forall_mem_nil _⟩

private theorem middle_plain (m : Machine) : ∀ c ∈ m.middle, (c != ':') = true := by
  have hdecimal (i : Int) : ∀ c ∈ decimal.chars i, (c != ':') = true :=
    forall_mem_decimal (by decide) (by decide) i
  have haddress (i : Int) : ∀ c ∈ address.chars i, (c != ':') = true :=
    Format.forall_mem_chars (f := address) (by decide) (by decide) (List.forall_mem_nil _)
      (by decide) (by decide) i
  have htext {cs : List Char} (h : cs.all (· != ':') = true) : ∀ c ∈ cs, (c != ':') = true :=
    List.all_eq_true.mp h
  have hlabel (f : Flag) : ∀ c ∈ f.label.toList, (c != ':') = true := by
    cases f <;> exact htext (by decide)
  simp only [middle, List.forall_mem_cons, List.forall_mem_append]
  refine ⟨htext (by decide), haddress _, rfl, ?_, htext (by decide)⟩
  refine forall_mem_intercalate (htext (by decide)) fun part hpart => ?_
  obtain ⟨⟨f, i⟩, -, rfl⟩ := List.mem_map.mp hpart
  exact List.forall_mem_append.mpr ⟨hlabel f, List.forall_mem_cons.mpr ⟨rfl, hdecimal i⟩⟩

private theorem InRange.traceLine_parts (h : m.InRange) (hw : isWritable m.cycles = true) :
    ∃ line, Command.Request.traceLine m.snapshot = .ok line ∧ line.toList = m.front ++
      'P' :: 'C' :: '=' :: '0' :: 'x' :: (address.chars m.pc ++ ' ' :: (m.middle ++
        ':' :: ' ' :: (m.current.mnemonic.toList ++ m.faultShown))) := by
  have hnext : Disassembly.instructionAt m.snapshot.memory m.snapshot.pc = .ok m.current :=
    h.instructionAt_pc
  have hcycles : m.snapshot.cycles = m.cycles := rfl
  have hfault : (m.snapshot.fault.elim "" fun fault => s!"  !{fault}").toList = m.faultShown := by
    cases hf : m.lastFault <;> simp [snapshot, faultShown, hf, toString]
  rw [Command.Request.traceLine, hnext, h.state_eq, hcycles, writeDecimal, if_pos hw]
  refine ⟨_, rfl, ?_⟩
  rw [String.toList_append, hfault]
  simp [front, middle, Snapshot.stateLine_eq, Format.write, toString, Function.comp_def,
    List.zip_map_right]

theorem InRange.exists_traceLine (h : m.InRange) (hw : isWritable m.cycles = true) :
    ∃ line, Command.Request.traceLine m.snapshot = .ok line := by
  obtain ⟨line, hline, -⟩ := h.traceLine_parts hw
  exact ⟨line, hline⟩

theorem writable_of_traceLine {s : Snapshot} {line : String}
    (h : Command.Request.traceLine s = .ok line) : isWritable s.cycles = true := by
  obtain ⟨_, -, hrest⟩ := ok_of_bind h
  obtain ⟨_, hcycles, -⟩ := ok_of_bind hrest
  cases hw : isWritable s.cycles with
  | true => rfl
  | false =>
    rw [writeDecimal, if_neg (Bool.eq_false_iff.mp hw)] at hcycles
    cases hcycles

private theorem before_fault (m : Machine) :
    let cs := m.current.mnemonic.toList ++ m.faultShown
    (if '!' ∈ cs then (cs.takeWhile (· != '!')).dropLast.dropLast else cs) =
      m.current.mnemonic.toList := by
  have hplain := mnemonic_plain m.current
  cases hf : m.lastFault with
  | none => simp [faultShown, hf, hplain]
  | some fault =>
    have hblanks : ∀ c ∈ m.current.mnemonic.toList ++ [' ', ' '], (c != '!') = true := by
      intro c hc
      rw [bne_iff_ne]
      rintro rfl
      simp [hplain] at hc
    have hshown : m.current.mnemonic.toList ++ m.faultShown =
        m.current.mnemonic.toList ++ [' ', ' '] ++ '!' :: fault.name.toList := by
      simp [faultShown, hf]
    have hcut := (@cut_append _ _ fault.name.toList hblanks).1
    simp only [hshown, hcut]
    simp

theorem InRange.shown (h : m.InRange) {line : String}
    (hline : Command.Request.traceLine m.snapshot = .ok line) :
    pcShown line = address.write m.pc ∧ nextShown line = m.current.mnemonic := by
  have hw : isWritable m.snapshot.cycles = true := writable_of_traceLine hline
  obtain ⟨shown, hshown, hchars⟩ := h.traceLine_parts hw
  obtain rfl : line = shown := Except.ok.inj (hline.symm.trans hshown)
  have haddress : ∀ c ∈ address.chars m.pc, (c != ' ' && c != ':') = true :=
    Format.forall_mem_chars (f := address) (by decide) (by decide) (List.forall_mem_nil _)
      (by decide) (by decide) m.pc
  simp only [Bool.and_eq_true] at haddress
  have hfront := m.front_plain
  simp only [Bool.and_eq_true] at hfront
  constructor
  · rw [pcShown, hchars, (cut_append fun c hc => (hfront c hc).1).2]
    exact congrArg String.ofList (cut_append fun c hc => (haddress c hc).1).1
  · have hbefore : ∀ c ∈ m.front ++ 'P' :: 'C' :: '=' :: '0' :: 'x' :: (address.chars m.pc ++
        ' ' :: m.middle), (c != ':') = true := by
      simp only [List.forall_mem_cons, List.forall_mem_append]
      exact ⟨fun c hc => (hfront c hc).2, rfl, rfl, rfl, rfl, rfl, fun c hc => (haddress c hc).2,
        rfl, m.middle_plain⟩
    have hparts : line.toList = (m.front ++ 'P' :: 'C' :: '=' :: '0' :: 'x' ::
        (address.chars m.pc ++ ' ' :: m.middle)) ++
          ':' :: ' ' :: (m.current.mnemonic.toList ++ m.faultShown) := by
      rw [hchars]
      simp
    have hnext : (line.toList.dropWhile (· != ':')).drop 2 =
        m.current.mnemonic.toList ++ m.faultShown := by
      rw [hparts, (cut_append hbefore).2]
      rfl
    rw [nextShown, hnext]
    exact (congrArg String.ofList m.before_fault).trans String.ofList_toList

example :
    let line := "[   1] A=0xD B=0x0 C=0x0 PC=0x01 SP=0x00 CAR=0 NEG=0 EQU=0 ERR=0  next: NOP"
    pcShown line = "01" ∧ nextShown line = "NOP" := by decide

theorem InRange.head_ofMemory (h : m.InRange) :
    (Disassembly.ofMemory m.memory m.pc none).instructions.head? = some (m.pc, m.current) := by
  have hlength := h.memory_length
  have hlt := h.pc_cell.2
  obtain ⟨count, hcount⟩ : ∃ count, Disassembly.countBetween m.pc m.memory.length = count + 1 :=
    Nat.exists_eq_succ_of_ne_zero (by rw [Disassembly.countBetween]; omega)
  rw [Disassembly.ofMemory, Option.getD_none, hcount, Disassembly.read, h.instructionAt_pc]
  rfl

end Machine

namespace Runner

/-- At the program counter, what a trace shows to be next, what a listing begins with, and what the
next step fetches are one instruction, which the record of the step names. So the line of a step in
a run announces the record of the step after it, with address and assembly form. -/
theorem trace_announces_steps (r : Runner) (hv : r.machine.variant.Sound)
    (h : r.machine.InRange) :
    ∃ i : Instruction,
      Disassembly.instructionAt r.machine.snapshot.memory r.machine.snapshot.pc = .ok i ∧
      (Disassembly.ofMemory r.machine.memory r.machine.pc none).instructions.head? =
        some (r.machine.pc, i) ∧
      (Machine.fetch r.machine).answer = .ok i ∧
    ∀ n : Nat, isWritable n = true →
      let outcome := run (some n) (some {}) r
      let records := outcome.events.filter (·.level = .debug)
      (∀ record, records[0]? = some record →
        record.message = s!"0x{address.write r.machine.pc}: {i.mnemonic}") ∧
      ∃ trace, outcome.answer = .ok trace ∧ trace.seen.length = n ∧ records.length = n ∧
        ∀ k s, trace.seen.reverse[k]? = some s →
          s.cycles = r.machine.cycles + (k + 1 : Nat) ∧
          (isWritable s.cycles = true → ∃ line, Command.Request.traceLine s = .ok line) ∧
          ∃ next : Instruction, Disassembly.instructionAt s.memory s.pc = .ok next ∧
            ∀ line record, Command.Request.traceLine s = .ok line →
              records[k + 1]? = some record →
                pcShown line = address.write s.pc ∧ nextShown line = next.mnemonic ∧
                record.message = s!"0x{pcShown line}: {nextShown line}" := by
  refine ⟨r.machine.current, h.instructionAt_pc, h.head_ofMemory, ?_, fun n hw => ?_⟩
  · rw [Machine.fetch_run h.memory_length h.pc_cell]
  · intro outcome records
    have hanswer := (run_quiet h hv (Int.natCast_nonneg n) hw true).1
    rw [if_pos rfl, if_pos rfl, Int.toNat_natCast] at hanswer
    have hrecords : records = r.machine.fetches n := run_debug h hv hw
    refine ⟨fun record hrecord => ?_, _, hanswer, ?_, ?_, fun k s hs => ?_⟩
    · rw [hrecords] at hrecord
      obtain rfl := Machine.eq_of_getElem?_fetches hrecord
      rfl
    · rw [List.length_reverse, length_sights]
    · rw [hrecords, Machine.length_fetches]
    · rw [List.reverse_reverse] at hs
      obtain rfl := eq_of_getElem?_sights hs
      have hk := (h.after hv (k + 1)).1
      refine ⟨h.after_cycles hv (k + 1), fun hwritable => hk.exists_traceLine hwritable,
        _, hk.instructionAt_pc, fun line record hline hrecord => ?_⟩
      rw [hrecords] at hrecord
      obtain rfl := Machine.eq_of_getElem?_fetches hrecord
      obtain ⟨hpc, hnext⟩ := hk.shown hline
      refine ⟨hpc, hnext, ?_⟩
      rw [hpc, hnext]
      rfl

/-- A step from the last cell that writes over an instruction: the store has its operand in the
first cell, and makes the second cell the opcode of what is next. -/
private def straddling : Runner :=
  ⟨{ Machine.fresh .nv32 with
    memory := 1 :: List.replicate 30 7 ++ [2]
    a := 13
    pc := 31 }, Clock.standard⟩

theorem trace_announces_steps_of_straddling :
    straddling.machine.variant.Sound ∧ straddling.machine.InRange ∧
      (Machine.fetch straddling.machine).answer = .ok ⟨2, 1⟩ ∧
      let outcome := run (some 2) (some {}) straddling
      ∃ trace s line record, outcome.answer = .ok trace ∧ trace.seen.reverse[0]? = some s ∧
        Command.Request.traceLine s = .ok line ∧
        (outcome.events.filter (·.level = .debug))[1]? = some record ∧
        record.message = s!"0x{pcShown line}: {nextShown line}" ∧
        ∃ first, (outcome.events.filter (·.level = .debug))[0]? = some first ∧
          first.message = "0x1f: STA [0x1]" := by
  have hv : straddling.machine.variant.Sound := Variant.builtin_sound .nv32 (by decide)
  have h : straddling.machine.InRange := { Machine.fresh_inRange hv with
    memory_length := by decide
    memory_nibble := by decide
    a_nibble := by decide
    pc_cell := by decide }
  obtain ⟨i, hi, -, hfetch, hrun⟩ := trace_announces_steps straddling hv h
  obtain rfl : i = ⟨2, 1⟩ := Except.ok.inj (hi.symm.trans (by decide))
  refine ⟨hv, h, hfetch, ?_⟩
  obtain ⟨hrecord, trace, hanswer, hseen, hrecords, hlines⟩ :=
    hrun 2 (isWritable_of_lt (by decide))
  have hfirst := List.getElem?_eq_getElem (l := trace.seen.reverse) (i := 0)
    (by rw [List.length_reverse, hseen]; decide)
  obtain ⟨hcycles, hline, _, -, hnext⟩ := hlines 0 _ hfirst
  obtain ⟨line, hline⟩ := hline (hcycles ▸ isWritable_of_lt (by decide))
  have hsecond := List.getElem?_eq_getElem (l := (run (some 2) (some {}) straddling).events.filter
    (·.level = .debug)) (i := 1) (hrecords ▸ (by decide))
  have hstep := List.getElem?_eq_getElem (l := (run (some 2) (some {}) straddling).events.filter
    (·.level = .debug)) (i := 0) (hrecords ▸ (by decide))
  exact ⟨trace, _, line, _, hanswer, hfirst, hline, hsecond, (hnext line _ hline hsecond).2.2,
    _, hstep, (hrecord _ hstep).trans (by decide)⟩

end Runner
end FourBit
