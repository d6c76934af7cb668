import FourBit.Command.Report
import FourBit.Proofs.Machine.Registers
import FourBit.Proofs.Numeral.Literal

/-! Assignments that are read back, and those that are refused.
An assignment may be written with the name of its register in letters of either case, with any
literal of its value, and with blanks around both. It is read as that register and that value, and
setting the register leaves of the value what there is room for. A text that is not read is refused
for its value, and arguments with such a text are refused as a whole. -/
namespace FourBit
open Numeral Text

namespace Text
variable {c : Char} {cs inner outer : List Char}

def Padded (inner outer : List Char) : Prop :=
  ∃ front back, (∀ c ∈ front, isBlank c = true) ∧ (∀ c ∈ back, isBlank c = true) ∧
    outer = front ++ (inner ++ back)

theorem Padded.trim_eq (h : Padded inner outer) (hinner : ∀ c ∈ inner, isBlank c = false) :
    trim outer = inner := by
  obtain ⟨front, back, hfront, hback, rfl⟩ := h
  exact trimBy_between hfront hinner hback

theorem Padded.forall_mem {p : Char → Prop} (h : Padded inner outer) (hinner : ∀ c ∈ inner, p c)
    (hblank : ∀ c, isBlank c = true → p c) : ∀ c ∈ outer, p c := by
  obtain ⟨front, back, hfront, hback, rfl⟩ := h
  exact List.forall_mem_append.mpr ⟨fun c hc => hblank c (hfront c hc),
    List.forall_mem_append.mpr ⟨hinner, fun c hc => hblank c (hback c hc)⟩⟩

theorem toNat_lt_of_toUpper (h : c.toUpper.toNat < 128) : c.toNat < 128 := by
  by_cases hc : 'a'.val ≤ c.val ∧ c.val ≤ 'z'.val
  · have hle : c.toNat ≤ 122 := hc.2
    omega
  · have hsame : c.toUpper = c := dif_neg hc
    rwa [hsame] at h

theorem upper_ofList (h : ∀ c ∈ cs, capital c = [c.toUpper]) :
    upper (.ofList cs) = .ofList (cs.map Char.toUpper) := by
  rw [upper, String.toList_ofList, List.flatMap_congr h, List.map_eq_flatMap]

end Text

namespace Register
variable {r : Register} {name : List Char}

/-- The letters of a name in either case have capitals of one letter, and none of them is a blank or
an equals sign. -/
theorem plain_of_name (h : name.map Char.toUpper = r.name.toList) : ∀ c ∈ name,
    capital c = [c.toUpper] ∧ isBlank c = false ∧ (c != '=') = true := by
  have hascii : r.name.toList.all (·.toNat < 128) = true := by cases r <;> decide
  have htable : ∀ n < 128, (Char.ofNat n).toUpper ∈ r.name.toList →
      capital (Char.ofNat n) = [(Char.ofNat n).toUpper] ∧
        isBlank (Char.ofNat n) = false ∧ (Char.ofNat n != '=') = true := by
    cases r <;> decide +kernel
  intro c hc
  have hletter : c.toUpper ∈ r.name.toList := h ▸ List.mem_map_of_mem hc
  have hsmall := of_decide_eq_true (List.all_eq_true.mp hascii c.toUpper hletter)
  have hplain := htable c.toNat (toNat_lt_of_toUpper hsmall)
  rw [Char.ofNat_toNat] at hplain
  exact hplain hletter

theorem ofName_of_toUpper (h : name.map Char.toUpper = r.name.toList) :
    ofName (.ofList name) = .ok r := by
  have hupper : upper (.ofList name) = r.name := by
    rw [upper_ofList fun c hc => (plain_of_name h c hc).1, h, String.ofList_toList]
  rw [ofName]
  simp only [hupper]
  cases r <;> rfl

end Register

namespace Command
namespace Assignment
variable {text : String} {a : Assignment} {e : Error}

/-- The texts of an assignment: the name of its register in letters of either case and a literal of
its value, each with blanks around it. -/
inductive Writes (a : Assignment) : String → Prop where
  | intro {name value left right : List Char}
    (hname : name.map Char.toUpper = a.register.name.toList) (hleft : Padded name left)
    (hvalue : Renders value a.value) (hright : Padded value right) :
    a.Writes (.ofList (left ++ '=' :: right))

theorem parse_of_writes (h : a.Writes text)
    (hv : (Nat.toDigits 10 a.value.natAbs).length ≤ maxDigits) : parse text = .ok a := by
  cases h with
  | @intro name value left right hname hleft hvalue hright =>
    have hplain := Register.plain_of_name hname
    have hequals : ∀ c ∈ left, (c != '=') = true := by
      refine hleft.forall_mem (fun c hc => (hplain c hc).2.2) fun c hc => ?_
      rw [bne_iff_ne]
      rintro rfl
      cases hc
    have hsolid : ∀ c ∈ value, (!isBlank c) = true :=
      hvalue.forall_mem (by decide) (by decide) (by decide)
    simp only [Bool.not_eq_true'] at hsolid
    obtain ⟨hfront, hback⟩ := @span_append _ _ ('=' :: right) hequals (by simp)
    rw [parse, String.toList_ofList, hfront, hback]
    simp only [hleft.trim_eq fun c hc => (hplain c hc).2.1, hright.trim_eq hsolid,
      Register.ofName_of_toUpper hname, readValue, readInteger_of_renders hvalue hv]
    rfl

private theorem kind_of_ofName {name : String} (h : Register.ofName name = .error e) :
    e.kind = .value := by
  simp only [Register.ofName] at h
  split at h
  · cases h
  · cases h
    rfl

private theorem kind_of_readValue {value : List Char} (h : readValue value = .error e) :
    e.kind = .value := by
  rw [readValue] at h
  split at h
  · cases h
  · cases h
    rfl
  · cases h
    rfl

theorem kind_of_parse (h : parse text = .error e) : e.kind = .value := by
  rw [parse] at h
  split at h
  · cases h
    rfl
  · rcases error_of_bind h with hname | ⟨r, -, h⟩
    · exact kind_of_ofName hname
    · rcases error_of_bind h with hvalue | ⟨v, -, h⟩
      · exact kind_of_readValue hvalue
      · cases h

end Assignment

structure Draft.Usable (d : Draft) : Prop where
  program : d.hasProgram = true
  extras : d.extras = []
  steps_given : .steps ∉ d.blank
  steps_nonneg : 0 ≤ d.request.steps
  rate_given : .rate ∉ d.blank
  rate_pos : ∀ rate ∈ d.request.rate, ¬ rate ≤ 0

namespace Request
variable {d : Draft} {text : String} {e : Error}

private theorem needed_of_given {s : Switch} (h : s ∉ d.blank) : needed s d = .ok () :=
  if_neg (by simpa using h)

private theorem assignment_of_read {a : Assignment} (h : Assignment.parse text = .ok a) :
    assignment (some text) = .ok a := by
  simp only [assignment, h]

private theorem assignment_of_unread (h : Assignment.parse text = .error e) :
    assignment (some text) = .error (.refused e.message) := by
  simp only [assignment, h]
  rfl

private theorem mapM_assignment {before : List String} {rest : List (Option String)}
    (hbefore : ∀ t ∈ before, ∃ a, Assignment.parse t = .ok a)
    (h : Assignment.parse text = .error e) :
    (before.map some ++ some text :: rest).mapM assignment = .error (.refused e.message) := by
  induction before with
  | nil =>
    rw [List.map_nil, List.nil_append, List.mapM_cons, assignment_of_unread h]
    rfl
  | cons t before ih =>
    obtain ⟨⟨a, ha⟩, hrest⟩ := List.forall_mem_cons.mp hbefore
    rw [List.map_cons, List.cons_append, List.mapM_cons, assignment_of_read ha, ih hrest]
    rfl

private theorem ofDraft_of_usable (h : d.Usable) {stop : Stop}
    (hassigned : d.assigned.reverse.mapM assignment = .error stop) : ofDraft d = .error stop := by
  have hrate : d.request.rate.any (· ≤ 0) = false := by
    rw [Option.any_eq_false]
    exact fun rate hr => decide_eq_false (h.rate_pos rate hr)
  simp only [ofDraft, h.program, h.extras, needed_of_given h.steps_given,
    needed_of_given h.rate_given, Int.not_lt.mpr h.steps_nonneg, hrate, hassigned, Bool.not_true,
    Bool.false_eq_true, List.isEmpty_nil, if_false]
  rfl

/-- An assignment is read as what it is written for, in whatever way it is written, and what is read
of the register that has been set to it is its value, as far as there is room. Any text is read as
an assignment or is refused for its value. The first text among the assignments in the arguments
that is refused, once nothing in front of them is wrong, ends the command as one that is called
wrongly. -/
theorem assignments_read_back :
    (∀ (text : String) (a : Assignment), a.Writes text →
      (Nat.toDigits 10 a.value.natAbs).length ≤ maxDigits →
      Assignment.parse text = .ok a ∧
        ∀ m : Machine, (m.writeRegister a.register a.value).readRegister a.register =
          a.value % m.span a.register) ∧
    (∀ text : String, (∃ a, Assignment.parse text = .ok a) ∨
      ∃ e, Assignment.parse text = .error e ∧ e.kind = .value) ∧
    ∀ (args : List String) (items : List Item) (d : Draft), classifyAll args = .ok items →
      Draft.addItems {} items = .ok d → d.Usable →
      ∀ (before : List String) (text : String) (rest : List (Option String)) (e : Error),
        d.assigned.reverse = before.map some ++ some text :: rest →
        (∀ t ∈ before, ∃ a, Assignment.parse t = .ok a) → Assignment.parse text = .error e →
        ofArguments args = .error (.refused e.message) ∧
          ∃ report, (Stop.refused e.message).report = .ok report ∧ report.exitCode = 2 := by
  refine ⟨fun text a h hv => ⟨?_, fun m => ?_⟩, fun text => ?_, ?_⟩
  · exact Assignment.parse_of_writes h hv
  · exact m.readRegister_writeRegister a.register a.value
  · cases h : Assignment.parse text with
    | ok a => exact .inl ⟨a, rfl⟩
    | error e => exact .inr ⟨e, rfl, Assignment.kind_of_parse h⟩
  · intro args items d hitems hd husable before text rest e hassigned hbefore h
    have hfailed : ofDraft d = .error (.refused e.message) :=
      ofDraft_of_usable husable (hassigned ▸ mapM_assignment hbefore h)
    refine ⟨?_, _, rfl, rfl⟩
    rw [ofArguments, hitems]
    change (Draft.addItems {} items >>= ofDraft) = _
    rw [hd]
    exact hfailed

private def given : List String := ["p", "--set", "B=3", "--set=A=zz"]

private def taken : Draft where
  request := { program := "p" }
  hasProgram := true
  assigned := [some "A=zz", some "B=3"]

/-- A pointer set to a negative value wraps around memory, and a value that is no literal is refused
behind an assignment that can be read. -/
theorem assignments_read_back_of_mixed :
    Assignment.Writes ⟨.pc, -95⟩ "\u2003pC\u00A0=\t-0X5_f\u3000" ∧
      (Nat.toDigits 10 (-95 : Int).natAbs).length ≤ maxDigits ∧
      Assignment.parse "\u2003pC\u00A0=\t-0X5_f\u3000" = .ok ⟨.pc, -95⟩ ∧
      ((Machine.fresh .nv32).writeRegister .pc (-95)).readRegister .pc = 1 ∧ taken.Usable ∧
      ∃ e, Assignment.parse "A=zz" = .error e ∧ e.kind = .value ∧
        ofArguments given = .error (.refused e.message) ∧
        ∃ report, (Stop.refused e.message).report = .ok report ∧ report.exitCode = 2 := by
  obtain ⟨hread, hrefused, hended⟩ := assignments_read_back
  have hlength := length_toDigits_le (isWritable_of_lt (by decide : (-95 : Int).natAbs < 100))
  have hblank {c : Char} (h : isBlank c = true) : ∀ d ∈ [c], isBlank d = true :=
    List.forall_mem_singleton.mpr h
  have hwrites : Assignment.Writes ⟨.pc, -95⟩ "\u2003pC\u00A0=\t-0X5_f\u3000" :=
    @Assignment.Writes.intro _ ['p', 'C'] _ _ _ (by decide)
      ⟨['\u2003'], ['\u00A0'], hblank rfl, hblank rfl, rfl⟩
      (@Renders.intro ['-'] ['0', 'X'] ['5', '_', 'f'] [5, 15] _ .hexadecimal .minus (by decide)
        (.gap (by decide) (.last (by decide))) nofun)
      ⟨['\t'], ['\u3000'], hblank rfl, hblank rfl, rfl⟩
  obtain ⟨hparse, hset⟩ := hread _ _ hwrites hlength
  have husable : taken.Usable := ⟨rfl, rfl, by decide, by decide, by decide, fun _ => nofun⟩
  have hbefore : ∀ t ∈ ["B=3"], ∃ a, Assignment.parse t = .ok a :=
    List.forall_mem_singleton.mpr ⟨⟨.b, 3⟩, rfl⟩
  have hbad : Assignment.parse "A=zz" = .error (.badLiteral 0 "zz") := rfl
  obtain ⟨e, he, hkind⟩ : ∃ e, Assignment.parse "A=zz" = .error e ∧ e.kind = .value :=
    (hrefused "A=zz").resolve_left fun ⟨_, hok⟩ => absurd (hbad.symm.trans hok) nofun
  exact ⟨hwrites, hlength, hparse, hset (.fresh .nv32), husable, e, he, hkind,
    hended given _ taken rfl rfl husable ["B=3"] "A=zz" [] e rfl hbefore he⟩

end Request
end Command
end FourBit
