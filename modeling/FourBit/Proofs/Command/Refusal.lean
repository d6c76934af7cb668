import FourBit.Command.Report
import FourBit.Proofs.Program.Rendering

/-! How a text that is no program is refused.
It is refused at a line, and the command says so and ends with the exit code one. The limit on
decimal digits is the exception: if the first line that says no nibble says a literal beyond it,
this is an error of another kind, and the command ends without a report. -/
namespace FourBit
open Numeral Text

namespace Program

/-- The first line of a text that says no nibble says a literal beyond the limit. -/
def OffendsByLength (text : String) : Prop :=
  ∃ k token l, FirstOffence Accepted (lines text.toList) k token ∧ Spells (bare token) l ∧
    l.Oversized

private theorem parse_cases (text : String) :
    (∃ ns, parse text = .ok ns) ∨
    (∃ line token reason, parse text = .error (.badLine line token reason)) ∨
    ∃ digits, parse text = .error (.tooManyDigits digits) := by
  cases he : parse text with
  | ok ns => exact .inl ⟨ns, rfl⟩
  | error e =>
    obtain ⟨_, _, -, ⟨reason, -, rfl⟩ | ⟨l, -, -, rfl⟩⟩ := parse_error_cases he
    · exact .inr (.inl ⟨_, _, reason, rfl⟩)
    · exact .inr (.inr ⟨l.decimalDigits, rfl⟩)

private theorem offendsByLength_iff {text : String} :
    OffendsByLength text ↔ ∃ digits, parse text = .error (.tooManyDigits digits) := by
  constructor
  · rintro ⟨k, token, l, hfirst, h, hl⟩
    have hfeed := feed_notMem_of_mem_contents hfirst.mem_contents
    exact ⟨l.decimalDigits,
      parse_eq_error_iff.mpr ⟨k, token, hfirst, nibble_of_oversized hfeed h hl _⟩⟩
  · rintro ⟨digits, he⟩
    obtain ⟨k, token, hfirst, ⟨_, -, hbad⟩ | ⟨l, h, hl, -⟩⟩ := parse_error_cases he
    · cases hbad
    · exact ⟨k, token, l, hfirst, h, hl⟩

private theorem read_or_refused_iff {text : String} :
    ((∃ ns, parse text = .ok ns) ∨
      ∃ line token reason, parse text = .error (.badLine line token reason)) ↔
        ¬ OffendsByLength text := by
  rw [offendsByLength_iff]
  rcases parse_cases text with ⟨ns, h⟩ | ⟨line, token, reason, h⟩ | ⟨digits, h⟩
  · exact iff_of_true (.inl ⟨ns, h⟩) fun ⟨_, he⟩ => absurd (h.symm.trans he) nofun
  · exact iff_of_true (.inr ⟨line, token, reason, h⟩) fun ⟨_, he⟩ =>
      absurd (h.symm.trans he) nofun
  · refine iff_of_false ?_ fun hshort => hshort ⟨digits, h⟩
    rintro (⟨_, he⟩ | ⟨_, _, _, he⟩) <;> exact absurd (h.symm.trans he) nofun

private theorem parse_of_oversized {token : List Char} {l : Literal} (h : Spells token l)
    (hl : l.Oversized) : parse (.ofList token) = .error (.tooManyDigits l.decimalDigits) := by
  obtain ⟨hline, hcontent⟩ := h.lines_eq
  have hfeed : '\n' ∉ token := hcontent ▸ @feed_notMem_content token token (by simp [hline])
  have hn := nibble_of_oversized hfeed (h.bare_eq.symm ▸ h) hl 1
  rw [parse, String.toList_ofList, hline]
  exact nibbles_refused (hcontent.symm ▸ h.ne_nil) (hcontent.symm ▸ hn)

end Program

namespace Command.Request
open Program
variable {text : String}

private theorem run_of_unread (r : Request) {e : Error} (h : parse text = .error e) (m : Machine) :
    (r.run text m).answer = .error e := by
  simp [run, prepare, Machine.readProgram, h]

private theorem run_of_overfull (r : Request) {ns : List Nibble} (h : parse text = .ok ns)
    {m : Machine} (hspace : m.variant.programSpace < ns.length) :
    (r.run text m).answer = .error (.overfull ns.length m.variant.programSpace) := by
  simp [run, prepare, Machine.readProgram, h, Machine.loadNibbles, hspace]

private theorem perform_of_failed {r : Request} {e : Error}
    (h : (r.run text (.fresh r.variant)).answer = .error e) :
    if e.kind = .program ∨ e.kind = .capacity then
      ∃ report, r.perform text = .ok report ∧ report.exitCode = 1
    else r.perform text = .error (.failed e) := by
  rw [perform]
  simp only [h, Bool.or_eq_true, decide_eq_true_eq]
  split
  · exact ⟨_, rfl, rfl⟩
  · rfl

private theorem perform_reports_iff {r : Request}
    (hbad : ∀ ns, parse text = .ok ns → r.variant.programSpace < ns.length) :
    (∃ report, r.perform text = .ok report ∧ report.exitCode = 1) ↔ ¬ OffendsByLength text := by
  rcases parse_cases text with ⟨ns, h⟩ | ⟨line, token, reason, h⟩ | ⟨digits, h⟩
  · have hreported := perform_of_failed (run_of_overfull r h (hbad ns h))
    rw [if_pos (.inr rfl)] at hreported
    exact iff_of_true hreported (read_or_refused_iff.mp (.inl ⟨ns, h⟩))
  · have hreported := perform_of_failed (run_of_unread r h _)
    rw [if_pos (.inl rfl)] at hreported
    exact iff_of_true hreported (read_or_refused_iff.mp (.inr ⟨line, token, reason, h⟩))
  · have hfailed := perform_of_failed (run_of_unread r h _)
    rw [if_neg (by rintro (hkind | hkind) <;> cases hkind)] at hfailed
    exact iff_of_false (fun ⟨_, hreport, _⟩ => absurd (hreport.symm.trans hfailed) nofun)
      fun hshort => hshort (offendsByLength_iff.mpr ⟨digits, h⟩)

/-- A text is a program or is refused at one of its lines, but for one that offends by length. With
this exception, the command ends with the exit code one whenever it is given a text that is no
program, or a program that does not fit. -/
theorem bad_program_reported_iff (text : String) :
    (((∃ ns, parse text = .ok ns) ∨
      ∃ line token reason, parse text = .error (.badLine line token reason)) ↔
        ¬ OffendsByLength text) ∧
    ∀ (r : Request) (bytes : List UInt8), String.fromUTF8? ⟨bytes.toArray⟩ = some text →
      (∀ ns, parse text = .ok ns → r.variant.programSpace < ns.length) →
      ((∃ report, r.answer (.ok bytes) = .ok report ∧ report.exitCode = 1) ↔
        ¬ OffendsByLength text) := by
  refine ⟨read_or_refused_iff, fun r bytes htext hbad => ?_⟩
  rw [answer]
  simp only [htext]
  exact perform_reports_iff hbad

private def plain : Request := { program := "p" }

theorem bad_program_reported_of_sign :
    String.fromUTF8? ⟨[0x31, 0x0A, 0x2D, 0x31].toArray⟩ = some "1\n-1" ∧
    parse "1\n-1" = .error (.badLine 2 "-1" .notLiteral) ∧ ¬ OffendsByLength "1\n-1" ∧
    ∃ report, plain.answer (.ok [0x31, 0x0A, 0x2D, 0x31]) = .ok report ∧ report.exitCode = 1 := by
  have htext : String.fromUTF8? ⟨[0x31, 0x0A, 0x2D, 0x31].toArray⟩ = some "1\n-1" := rfl
  have hrefused : parse "1\n-1" = .error (.badLine 2 "-1" .notLiteral) := rfl
  have hshort := (bad_program_reported_iff "1\n-1").1.mp (.inr ⟨_, _, _, hrefused⟩)
  refine ⟨htext, hrefused, hshort, ?_⟩
  exact ((bad_program_reported_iff "1\n-1").2 plain _ htext fun ns hns =>
    absurd (hrefused.symm.trans hns) nofun).mpr hshort

private def zeros (n : Nat) : List Char := List.replicate n '0'

private def power (n : Nat) : List Char := ['0', 'x'] ++ '1' :: zeros n

private theorem zeros_digits (base : Base) (n : Nat) :
    List.Forall₂ (IsDigit base.size) (zeros n) (List.replicate n 0) := by
  induction n with
  | zero => exact .nil
  | succ n ih => exact .cons ⟨by cases base <;> decide, .inl rfl⟩ ih

private theorem spells_zeros {n : Nat} (h : n ≠ 0) :
    Spells (zeros n) ⟨.decimal, List.replicate n 0⟩ :=
  @Spells.intro .decimal [] _ _ (by decide) (zeros_digits .decimal n) (by simpa using h)

private theorem spells_power (n : Nat) :
    Spells (power n) ⟨.hexadecimal, 1 :: List.replicate n 0⟩ :=
  @Spells.intro .hexadecimal ['0', 'x'] _ _ (by decide)
    (.cons ⟨by decide, .inl rfl⟩ (zeros_digits .hexadecimal n)) (List.cons_ne_nil _ _)

private theorem denotes_zeros {n : Nat} (h : n ≠ 0) : Denotes (zeros n) 0 := by
  refine ⟨_, spells_zeros h, ?_⟩
  rw [Literal.value, List.reverse_replicate, Nat.ofDigits_replicate_zero]

private theorem parse_zeros {n : Nat} (h : maxDigits < n) :
    parse (.ofList (zeros n)) = .error (.tooManyDigits n) := by
  have hdigits : Literal.decimalDigits ⟨.decimal, List.replicate n 0⟩ = n := by
    rw [Literal.decimalDigits, if_pos rfl, List.length_replicate]
  have hspells := spells_zeros (Nat.ne_zero_of_lt h)
  rw [parse_of_oversized hspells (by rwa [Literal.Oversized, hdigits]), hdigits]

private theorem power_oversized {n : Nat} (h : 3600 ≤ n) :
    Literal.Oversized ⟨.hexadecimal, 1 :: List.replicate n 0⟩ := by
  have hvalue : Literal.value ⟨.hexadecimal, 1 :: List.replicate n 0⟩ = 16 ^ n := by
    simp [Literal.value, Nat.ofDigits_append, Base.size]
  have hbase : Base.hexadecimal ≠ .decimal := by decide
  -- Thirty-six hexadecimal digits behind a one are more than forty-three decimal ones.
  obtain ⟨k, hk, hn, hlimit⟩ : ∃ k, 0 < 43 * k ∧ 36 * k ≤ n ∧ maxDigits = 43 * k :=
    ⟨100, by decide, h, rfl⟩
  have hle : 10 ^ (43 * k) ≤ 16 ^ n := calc
    10 ^ (43 * k) = (10 ^ 43) ^ k := Nat.pow_mul 10 43 k
    _ ≤ (16 ^ 36) ^ k := Nat.pow_le_pow_left (by decide) k
    _ = 16 ^ (36 * k) := (Nat.pow_mul 16 36 k).symm
    _ ≤ 16 ^ n := Nat.pow_le_pow_right (by decide) hn
  rw [Literal.Oversized, Literal.decimalDigits, if_neg hbase, hvalue, ← Nat.not_le, hlimit,
    Nat.length_toDigits_le_iff (by decide) hk]
  exact Nat.not_lt.mpr hle

/-- Nought with too many zeros is neither read nor refused as a program, and the command ends
without a report; and a hexadecimal literal with too great a value is no better. -/
theorem long_literals_unreported :
    Denotes (zeros 4301) 0 ∧ parse (.ofList (zeros 4301)) = .error (.tooManyDigits 4301) ∧
    (Error.tooManyDigits 4301).kind = .value ∧
    plain.perform (.ofList (zeros 4301)) = .error (.failed (.tooManyDigits 4301)) ∧
    ∃ digits, parse (.ofList (power 3600)) = .error (.tooManyDigits digits) := by
  have hlong := parse_zeros (n := 4301) (by decide)
  have hfailed := perform_of_failed (run_of_unread plain hlong _)
  rw [if_neg (by rintro (hkind | hkind) <;> cases hkind)] at hfailed
  exact ⟨denotes_zeros (by decide), hlong, rfl, hfailed, _,
    parse_of_oversized (spells_power 3600) (power_oversized (Nat.le_refl _))⟩

end Command.Request
end FourBit
