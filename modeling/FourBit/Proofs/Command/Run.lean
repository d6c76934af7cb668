import FourBit.Command.Report
import FourBit.Proofs.Clock.Rate
import FourBit.Proofs.Command.Arguments
import FourBit.Proofs.Command.Trace
import FourBit.Proofs.Machine.Session

/-! What the command makes of a program that can be read and fits.
It goes through all of its parts without an error: the listing, the clock, the run, and the lines
that tell of the run. What these lines say comes from the machine after the steps alone. -/
namespace FourBit.Command.Request
open Numeral Machine
variable {r : Request} {text : String} {ns : List Nibble}

def values (r : Request) : List (Register × Int) := r.assignments.map fun a => (a.register, a.value)

def ready (r : Request) (ns : List Nibble) : Machine :=
  (place ns (.fresh r.variant)).writeRegisters r.values

def final (r : Request) (ns : List Nibble) : Machine := (r.ready ns).after r.steps.toNat

def listingEnd (r : Request) (ns : List Nibble) : Int :=
  min (r.variant.programOrigin + ns.length + (ns.length % 2 : Nat)) r.variant.capacity

def asked (wanted : Bool) (lines : Except Error (List String)) : Except Error (List String) :=
  if wanted then lines else .ok []

/-- A report of a run, by its parts: the lines of the program, those of the steps, those that tell
of the end, and the text to be stored. -/
structure Reports (r : Request) (ns : List Nibble) (listed traced ending : List String)
    (document : String) (report : Report) : Prop where
  listed_eq : asked r.listing (listingLines (r.ready ns) ns.length) = .ok listed
  traced_eq : asked r.trace ((Runner.sights (r.ready ns) r.steps.toNat).mapM traceLine) = .ok traced
  ending_eq : closingLines (r.final ns).snapshot (r.final ns).origin (r.final ns).capacity
    r.steps.toNat = .ok ending
  document_eq : Store.writeRecord (r.final ns).snapshot.toValue = .ok document
  exit_code : report.exitCode = 0
  output : report.output = listed ++ (traced ++ ending) ++
    if r.output.isEmpty then [] else [s!"Writing snapshot to {r.output}"]
  stored : report.document = if r.output.isEmpty then none else some document

theorem load_ready (hparse : Program.parse text = .ok ns)
    (hn : ns.length ≤ r.variant.programSpace) :
    (load (.str text) (.fresh r.variant)).answer = .ok () ∧
      (load (.str text) (.fresh r.variant)).state.writeRegisters r.values = r.ready ns := by
  have hread : (readProgram (.str text) (fresh r.variant)).answer = .ok ns := by
    simp [readProgram, hparse]
  obtain ⟨hanswer, hstate⟩ := load_of_fits hread hn
  exact ⟨hanswer, by rw [hstate, ready]⟩

private theorem prepare_run (hparse : Program.parse text = .ok ns)
    (hn : ns.length ≤ r.variant.programSpace) :
    (r.prepare text (.fresh r.variant)).answer =
        asked r.listing (listingLines (r.ready ns) ns.length) ∧
      (r.prepare text (.fresh r.variant)).state = r.ready ns := by
  have hfits : ¬ (Machine.fresh r.variant).variant.programSpace < ns.length := Int.not_lt.mpr hn
  cases hl : r.listing with
  | true => simp [prepare, readProgram, hparse, loadNibbles, hfits, hl, asked, ready, values]
  | false => simp [prepare, readProgram, hparse, loadNibbles, hfits, hl, asked, ready, values]

private theorem exists_clock (hr : r.Proper) : ∃ clock, r.clock = .ok clock := by
  rw [clock]
  cases hrate : r.rate with
  | none => exact ⟨_, rfl⟩
  | some rate => exact Clock.ofRate_standard (hr.rate_pos rate hrate)

private theorem perform_of_run {lines : List String} {document : String}
    (hrun : (r.run text (.fresh r.variant)).answer = .ok lines ∧
      (r.run text (.fresh r.variant)).state = r.final ns)
    (hdocument : Store.writeRecord (r.final ns).snapshot.toValue = .ok document) :
    ∃ logged, r.perform text =
      .ok ⟨0, lines ++ (if r.output.isEmpty then [] else [s!"Writing snapshot to {r.output}"]),
        logged, if r.output.isEmpty then none else some document⟩ := by
  rw [perform]
  simp only [hrun.1, hrun.2, hdocument]
  cases r.output.isEmpty with
  | true => exact ⟨_, by rw [if_pos rfl, if_pos rfl, if_pos rfl, List.append_nil]⟩
  | false => exact ⟨_, rfl⟩

section
variable (hr : r.Proper) (hn : ns.length ≤ r.variant.programSpace)
include hr hn

theorem ready_inRange : (r.ready ns).InRange ∧ (r.ready ns).variant = r.variant := by
  have hv := Variant.builtin_sound _ hr.variant
  exact writeRegisters_inRange ((fresh_inRange hv).place hv hn) r.values

theorem ready_sound : (r.ready ns).variant.Sound := by
  rw [(ready_inRange hr hn).2]
  exact Variant.builtin_sound _ hr.variant

theorem final_inRange : (r.final ns).InRange ∧ (r.final ns).variant = r.variant := by
  obtain ⟨hrange, hvariant⟩ := ready_inRange hr hn
  obtain ⟨hfinal, hsame⟩ := hrange.after (ready_sound hr hn) r.steps.toNat
  exact ⟨hfinal, hsame.trans hvariant⟩

theorem exists_listing : ∃ block,
    Disassembly.listing (r.ready ns).memory r.variant.programOrigin (some (r.listingEnd ns)) =
      .ok block ∧
    listingLines (r.ready ns) ns.length = .ok (block ++ [""]) ∧
    Disassembly.Shows (r.ready ns).memory r.variant.programOrigin.toNat (r.listingEnd ns).toNat
      block := by
  obtain ⟨hrange, hvariant⟩ := ready_inRange hr hn
  have hlength := hrange.memory_length
  rw [capacity, hvariant] at hlength
  have horigin := (Variant.builtin_sound _ hr.variant).origin_nonneg
  have hlt := r.variant.origin_lt
  have hstart : ((r.variant.programOrigin.toNat : Nat) : Int) = r.variant.programOrigin :=
    Int.toNat_of_nonneg horigin
  have hend : r.variant.programOrigin ≤ r.listingEnd ns ∧ r.listingEnd ns ≤ r.variant.capacity := by
    rw [listingEnd]
    omega
  have hstop : ((r.listingEnd ns).toNat : Int) = r.listingEnd ns := Int.toNat_of_nonneg (by omega)
  obtain ⟨block, hblock, hshows⟩ := Disassembly.listing_shows hrange.memory_nibble
    (show r.variant.programOrigin.toNat ≤ (r.listingEnd ns).toNat by omega)
    (show (r.listingEnd ns).toNat ≤ (r.ready ns).memory.length by omega)
  rw [hstart, hstop] at hblock
  refine ⟨block, hblock, ?_, hshows⟩
  rw [listingLines, origin, capacity, hvariant]
  change (do return (← Disassembly.listing (r.ready ns).memory r.variant.programOrigin
    (some (r.listingEnd ns))) ++ [""]) = _
  rw [hblock]
  rfl

private theorem writable_cycles {k : Nat} (hk : k ≤ r.steps.toNat) :
    isWritable ((r.ready ns).after k).cycles = true := by
  have hready : (r.ready ns).cycles = 0 := (writeRegisters_others _ _).2.1
  rw [(ready_inRange hr hn).1.after_cycles (ready_sound hr hn), hready, Int.zero_add]
  exact isWritable_of_le (by omega) hr.steps_writable

private theorem exists_traced :
    ∃ traced, (Runner.sights (r.ready ns) r.steps.toNat).mapM traceLine = .ok traced := by
  have hrange := (ready_inRange hr hn).1
  have hv := ready_sound hr hn
  have hall : ∀ s ∈ Runner.sights (r.ready ns) r.steps.toNat, ∃ line, traceLine s = .ok line := by
    intro s hs
    obtain ⟨k, hk, rfl⟩ := List.mem_map.mp hs
    have hw := writable_cycles hr hn (List.mem_range.mp hk)
    exact (hrange.after hv (k + 1)).1.exists_traceLine hw
  obtain ⟨traced, htraced, -⟩ := exists_mapM hall
  exact ⟨traced, htraced⟩

theorem exists_ending : ∃ line dump, (r.final ns).snapshot.state = .ok line ∧
    (r.final ns).snapshot.showMemory 0
      (some (min (r.variant.programOrigin + 16) r.variant.capacity)) = .ok dump ∧
    closingLines (r.final ns).snapshot (r.final ns).origin (r.final ns).capacity r.steps.toNat =
      .ok (s!"Ran {r.steps.toNat} steps" :: line :: dump) := by
  obtain ⟨hrange, hvariant⟩ := final_inRange hr hn
  have hlength := hrange.memory_length
  rw [capacity, hvariant] at hlength
  obtain ⟨line, hline⟩ := hrange.exists_state
  have hstop : min (r.variant.programOrigin + 16) r.variant.capacity ≤
      (r.final ns).snapshot.memory.length :=
    Int.le_trans (Int.min_le_right _ _) (Int.le_of_eq hlength.symm)
  obtain ⟨dump, hdump⟩ := Snapshot.exists_showMemory hstop
  refine ⟨line, dump, hline, hdump, ?_⟩
  rw [closingLines, hline, origin, capacity, hvariant]
  change (do return s!"Ran {r.steps.toNat} steps" :: line :: (← (r.final ns).snapshot.showMemory 0
    (some (min (r.variant.programOrigin + 16) r.variant.capacity)))) = _
  rw [hdump]
  rfl

private theorem final_halt :
    { r.final ns with haltRequested := false } = r.final ns := by
  have hrange := (ready_inRange hr hn).1
  have hv := ready_sound hr hn
  have hhalt : (r.final ns).haltRequested = false :=
    (hrange.after_haltRequested hv _).trans (writeRegisters_others _ _).2.2
  rw [← hhalt]

private theorem drive_run {traced ending : List String}
    (htraced : asked r.trace ((Runner.sights (r.ready ns) r.steps.toNat).mapM traceLine) =
      .ok traced)
    (hending : closingLines (r.final ns).snapshot (r.final ns).origin (r.final ns).capacity
      r.steps.toNat = .ok ending) (clock : Clock Float) :
    ∃ events, r.drive ⟨r.ready ns, clock⟩ =
      ⟨.ok (traced ++ ending), ⟨r.final ns, clock⟩, events⟩ := by
  have hseen : List.mapM traceLine (if r.trace then
      (Runner.sights (r.ready ns) r.steps.toNat).reverse else []).reverse = .ok traced := by
    cases ht : r.trace with
    | true =>
      rw [if_pos rfl, List.reverse_reverse]
      rwa [ht] at htraced
    | false =>
      rw [if_neg Bool.false_ne_true]
      rwa [ht] at htraced
  have hmachine : { (r.ready ns).after r.steps.toNat with haltRequested := false } = r.final ns :=
    final_halt hr hn
  obtain ⟨hanswer, hstate⟩ := Runner.run_quiet (r := ⟨r.ready ns, clock⟩)
    (ready_inRange hr hn).1 (ready_sound hr hn) hr.steps_nonneg hr.steps_writable r.trace
  obtain ⟨events, houtcome⟩ := Outcome.exists_events hanswer hstate
  refine ⟨events, ?_⟩
  simp [drive, houtcome, hmachine, hseen, hending]

private theorem run_run (hparse : Program.parse text = .ok ns) {listed traced ending : List String}
    (hlisted : asked r.listing (listingLines (r.ready ns) ns.length) = .ok listed)
    (htraced : asked r.trace ((Runner.sights (r.ready ns) r.steps.toNat).mapM traceLine) =
      .ok traced)
    (hending : closingLines (r.final ns).snapshot (r.final ns).origin (r.final ns).capacity
      r.steps.toNat = .ok ending) :
    (r.run text (.fresh r.variant)).answer = .ok (listed ++ (traced ++ ending)) ∧
      (r.run text (.fresh r.variant)).state = r.final ns := by
  obtain ⟨clock, hclock⟩ := exists_clock hr
  obtain ⟨hprepared, hready⟩ := prepare_run hparse hn
  obtain ⟨events, hprepare⟩ := Outcome.exists_events (hprepared.trans hlisted) hready
  obtain ⟨more, hdrive⟩ := drive_run hr hn htraced hending clock
  simp [run, hprepare, hclock, Runner.withClock, hdrive]

theorem exists_document :
    ∃ document, Store.writeRecord (r.final ns).snapshot.toValue = .ok document := by
  obtain ⟨hfinal, hsame⟩ := final_inRange hr hn
  have hcapacity : isWritable (r.final ns).capacity = true := by
    rw [capacity, hsame]
    exact (by decide +kernel : ∀ v ∈ Variant.builtin, isWritable v.capacity = true) _ hr.variant
  have hcycles : isWritable (r.final ns).cycles = true := writable_cycles hr hn (Nat.le_refl _)
  obtain ⟨members, hwrite, -⟩ := Store.snapshot_restored (hfinal.writable hcapacity hcycles)
    (Store.legible_string _)
  exact ⟨_, hwrite⟩

theorem exists_report (hparse : Program.parse text = .ok ns) :
    ∃ listed traced ending document report, r.perform text = .ok report ∧
      r.Reports ns listed traced ending document report := by
  obtain ⟨listed, hlisted⟩ : ∃ listed,
      asked r.listing (listingLines (r.ready ns) ns.length) = .ok listed := by
    obtain ⟨block, -, hblock, -⟩ := exists_listing hr hn
    cases r.listing with
    | true => exact ⟨_, hblock⟩
    | false => exact ⟨[], rfl⟩
  obtain ⟨traced, htraced⟩ : ∃ traced,
      asked r.trace ((Runner.sights (r.ready ns) r.steps.toNat).mapM traceLine) = .ok traced := by
    cases r.trace with
    | true => exact exists_traced hr hn
    | false => exact ⟨[], rfl⟩
  obtain ⟨line, dump, -, -, hending⟩ := exists_ending hr hn
  obtain ⟨document, hdocument⟩ := exists_document hr hn
  have hrun := run_run hr hn hparse hlisted htraced hending
  obtain ⟨logged, hperform⟩ := perform_of_run hrun hdocument
  exact ⟨listed, traced, _, document, _, hperform, hlisted, htraced, hending, hdocument, rfl, rfl,
    rfl⟩

end
end FourBit.Command.Request
