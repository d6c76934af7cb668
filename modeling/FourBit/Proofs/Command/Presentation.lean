import FourBit.Proofs.Command.Run

/-! What does not matter to a run.
A request may ask for more to be shown or logged, and for a rate. The machine takes the same steps
all the same, and what is shown and stored of it at the end is the same. -/
namespace FourBit.Command.Request
open Machine
variable {r : Request} {text : String} {ns : List Nibble}

private theorem performed (hr : r.Proper) (hparse : Program.parse text = .ok ns)
    (hn : ns.length ≤ r.variant.programSpace) {line document : String} {dump : List String}
    (hline : (r.final ns).snapshot.state = .ok line)
    (hdump : (r.final ns).snapshot.showMemory 0
      (some (min (r.variant.programOrigin + 16) r.variant.capacity)) = .ok dump)
    (hdocument : Store.writeRecord (r.final ns).snapshot.toValue = .ok document) :
    ∃ report front, r.perform text = .ok report ∧ report.exitCode = 0 ∧
      report.output = front ++ (s!"Ran {r.steps.toNat} steps" :: line :: dump) ++
        (if r.output.isEmpty then [] else [s!"Writing snapshot to {r.output}"]) ∧
      report.document = (if r.output.isEmpty then none else some document) ∧
      (r.listing = false → r.trace = false → front = []) := by
  obtain ⟨listed, traced, ending, document', report, hperform, hreport⟩ :=
    exists_report hr hn hparse
  obtain ⟨line', dump', hline', hdump', hending⟩ := exists_ending hr hn
  obtain rfl := Except.ok.inj (hline.symm.trans hline')
  obtain rfl := Except.ok.inj (hdump.symm.trans hdump')
  obtain rfl := Except.ok.inj (hdocument.symm.trans hreport.document_eq)
  obtain rfl := Except.ok.inj (hending.symm.trans hreport.ending_eq)
  refine ⟨report, listed ++ traced, hperform, hreport.exit_code, ?_, hreport.stored, ?_⟩
  · rw [hreport.output, ← List.append_assoc listed traced]
  · intro hlisting htrace
    have hlisted := hreport.listed_eq
    have htraced := hreport.traced_eq
    rw [hlisting] at hlisted
    rw [htrace] at htraced
    rw [← Except.ok.inj hlisted, ← Except.ok.inj htraced]
    rfl

/-- Arguments that are not refused ask for a built-in machine, for a number of steps, and for a
positive rate if for any. For such a request and a program that can be read and fits, the command
ends with the exit code nought. What it shows at the end and what it stores are those of the machine
that has been loaded, has had its registers set in order, and has then taken the steps, all without
fail; and they are the same whether the program and the steps are listed, a bar is shown, every
instruction is logged, and whatever the rate. -/
theorem presentation_keeps_run :
    (∀ args r, ofArguments args = .ok r → r.Proper) ∧
    ∀ (r : Request) (text : String) (ns : List Nibble), r.Proper → Program.parse text = .ok ns →
      ns.length ≤ r.variant.programSpace →
      let loaded := load (.str text) (.fresh r.variant)
      let first := loaded.state.writeRegisters (r.assignments.map fun a => (a.register, a.value))
      let last := first.after r.steps.toNat
      loaded.answer = .ok () ∧ (∀ k, (step (first.after k)).answer = .ok ()) ∧
      ∃ line dump document, last.snapshot.state = .ok line ∧
        last.snapshot.showMemory 0
          (some (min (r.variant.programOrigin + 16) r.variant.capacity)) = .ok dump ∧
        Store.writeRecord last.snapshot.toValue = .ok document ∧
        ∀ (trace listing progress debug : Bool) (rate : Option Float),
          (∀ hz ∈ rate, ¬ hz ≤ 0) →
          let r' := { r with trace, listing, progress, debug, rate }
          ∃ report front,
            (∀ bytes, String.fromUTF8? ⟨bytes.toArray⟩ = some text →
              r'.answer (.ok bytes) = .ok report) ∧
            report.exitCode = 0 ∧
            report.output = front ++ (s!"Ran {r.steps.toNat} steps" :: line :: dump) ++
              (if r.output.isEmpty then [] else [s!"Writing snapshot to {r.output}"]) ∧
            report.document = (if r.output.isEmpty then none else some document) ∧
            (listing = false → trace = false → front = []) := by
  refine ⟨fun _ _ => proper_of_arguments, fun r text ns hr hparse hn => ?_⟩
  obtain ⟨hload, hready⟩ := load_ready hparse hn
  have hrange := (ready_inRange hr hn).1
  have hv := ready_sound hr hn
  obtain ⟨line, dump, hline, hdump, -⟩ := exists_ending hr hn
  obtain ⟨document, hdocument⟩ := exists_document hr hn
  intro loaded first last
  have hfirst : first = r.ready ns := hready
  have hlast : last = r.final ns := by rw [final, ← hready]; rfl
  refine ⟨hload, fun k => ?_, line, dump, document, ?_, ?_, ?_, ?_⟩
  · rw [hfirst]
    exact hrange.after_answer hv k
  · rw [hlast, hline]
  · rw [hlast, hdump]
  · rw [hlast, hdocument]
  · intro trace listing progress debug rate hrate r'
    have hr' : r'.Proper := ⟨hr.variant, hr.steps_nonneg, hr.steps_writable, hrate⟩
    obtain ⟨report, front, hperform, hreport⟩ :=
      @performed r' _ _ hr' hparse hn _ _ _ hline hdump hdocument
    refine ⟨report, front, fun bytes hbytes => ?_, hreport⟩
    rw [answer]
    simp only [hbytes]
    exact hperform

/-- Three steps of a small machine with a value in B, to be stored. -/
private def counting : Request :=
  { program := "p", variant := .nv32, steps := 3, output := "o", assignments := [⟨.b, 19⟩] }

private def countingArguments : List String :=
  ["p", "--variant", "nv32", "--steps", "3", "--output", "o", "--set", "B=19"]

private def countingText : String := "0xA\n5\n0\n5\n0\n3"

private def countingBytes : List UInt8 :=
  [0x30, 0x78, 0x41, 0xA, 0x35, 0xA, 0x30, 0xA, 0x35, 0xA, 0x30, 0xA, 0x33]

/-- Loads five, swaps it for the value in B, and calls: with everything shown at two steps in a
second, and with nothing shown. -/
theorem presentation_keeps_run_of_counting :
    ofArguments countingArguments = .ok counting ∧ counting.Proper ∧
      String.fromUTF8? ⟨countingBytes.toArray⟩ = some countingText ∧
      (∃ ns, Program.parse countingText = .ok ns ∧ ns.length ≤ counting.variant.programSpace ∧
        (counting.final ns).a = 3 ∧ (counting.final ns).b = 5) ∧
      (∀ hz ∈ some (2 : Float), ¬ hz ≤ 0) ∧
      ∃ line dump document report front report',
        { counting with trace := true, listing := true, debug := true, rate := some 2 }.answer
          (.ok countingBytes) = .ok report ∧
        counting.answer (.ok countingBytes) = .ok report' ∧
        report.output =
          front ++ ("Ran 3 steps" :: line :: dump) ++ ["Writing snapshot to o"] ∧
        report'.output = ("Ran 3 steps" :: line :: dump) ++ ["Writing snapshot to o"] ∧
        report.document = some document ∧ report'.document = some document := by
  have harguments : ofArguments countingArguments = .ok counting := rfl
  have hr : counting.Proper := presentation_keeps_run.1 _ _ harguments
  have hparse : Program.parse countingText = .ok [10, 5, 0, 5, 0, 3] := rfl
  have hn : ([10, 5, 0, 5, 0, 3] : List Nibble).length ≤ counting.variant.programSpace := by decide
  have hbytes : String.fromUTF8? ⟨countingBytes.toArray⟩ = some countingText := rfl
  have hrate : ∀ hz ∈ some (2 : Float), ¬ hz ≤ 0 := by
    intro hz hhz
    obtain rfl := Option.some.inj hhz
    decide
  obtain ⟨-, -, line, dump, document, -, -, -, hall⟩ :=
    presentation_keeps_run.2 counting _ _ hr hparse hn
  obtain ⟨report, front, hanswer, -, houtput, hdocument, -⟩ :=
    hall true true false true (some 2) hrate
  obtain ⟨report', front', hanswer', -, houtput', hdocument', hnone⟩ :=
    hall false false false false none (fun _ => nofun)
  rw [hnone rfl rfl] at houtput'
  exact ⟨harguments, hr, hbytes, ⟨_, hparse, hn, by decide +kernel, by decide +kernel⟩, hrate,
    line, dump, document, report, front, report', hanswer _ hbytes, hanswer' _ hbytes, houtput,
    houtput', hdocument, hdocument'⟩

end FourBit.Command.Request
