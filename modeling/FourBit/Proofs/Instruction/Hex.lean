import FourBit.Instruction.Hex
import FourBit.Proofs.Program.Literal

/-! Instructions as text, written and read.
The two digits of an instruction may be written in many ways, and all of them are read back as its
two nibbles. Nothing but two digits is read, and writing what was read gives those two digits in
their plain form. -/
namespace FourBit.Instruction
open Numeral

/-- A character that stands for a hexadecimal digit: one of ASCII with its letter in either case, or
a decimal digit of any script. -/
def StandsFor (c : Char) (d : Nat) : Prop := Program.IsDigit 16 c d ∨ decimalDigit? c = some d

instance (c : Char) (d : Nat) : Decidable (StandsFor c d) :=
  inferInstanceAs (Decidable (Program.IsDigit 16 c d ∨ decimalDigit? c = some d))

def capitalDigit (c : Char) : Char := (plainDigit c).toUpper

/-- A text without its spaces, and then without the mark in front if it has one. -/
def bare (s : String) : List Char :=
  let cs := s.toList.filter (· != ' ')
  if cs.take 2 ∈ Program.Base.hexadecimal.marks then cs.drop 2 else cs

/-- A text and the same text with spaces put in anywhere. -/
inductive Spaced : List Char → List Char → Prop where
  | done : Spaced [] []
  | keep {cs ds : List Char} (c : Char) (h : Spaced cs ds) : Spaced (c :: cs) (c :: ds)
  | space {cs ds : List Char} (h : Spaced cs ds) : Spaced cs (' ' :: ds)

def Recased : List Char → List Char → Prop :=
  List.Forall₂ fun c d => d = c.toLower ∨ d = c.toUpper

/-- The texts of an instruction: its digits with letters in either case, perhaps behind a mark, and
with spaces anywhere. -/
def Spells (s : String) (i : Instruction) : Prop :=
  ∃ mark ∈ [] :: Program.Base.hexadecimal.marks, ∃ digits,
    Recased i.toHex.toList digits ∧ Spaced (mark ++ digits) s.toList

section Digits
variable {c : Char} {d : Nat}

theorem decimalDigit?_lt (h : decimalDigit? c = some d) : d < 10 := by
  obtain ⟨first, hfirst, rfl⟩ := Option.map_eq_some_iff.mp h
  have hrange := List.find?_some hfirst
  simp only [Bool.and_eq_true, decide_eq_true_eq] at hrange
  omega

private theorem letter_cases (h : digit?.letter? c = some d) (hd : d < 16) :
    c = d.digitChar ∨ c = d.digitChar.toUpper := by
  have hsmall : ∀ n < 6, Char.ofNat (97 + n) = (n + 10).digitChar := by decide
  have hcapital : ∀ n < 6, Char.ofNat (65 + n) = (n + 10).digitChar.toUpper := by decide
  unfold digit?.letter? at h
  split at h
  · rename_i hc
    have hle : 97 ≤ c.toNat := (by simpa using hc : 'a' ≤ c ∧ c ≤ 'z').1
    have hvalue : c.toNat - 97 + 10 = d := Option.some.inj h
    left
    rw [← hvalue, ← hsmall _ (by omega), Nat.add_sub_cancel' hle, Char.ofNat_toNat]
  · split at h
    · rename_i hc
      have hle : 65 ≤ c.toNat := (by simpa using hc : 'A' ≤ c ∧ c ≤ 'Z').1
      have hvalue : c.toNat - 65 + 10 = d := Option.some.inj h
      right
      rw [← hvalue, ← hcapital _ (by omega), Nat.add_sub_cancel' hle, Char.ofNat_toNat]
    · cases h

theorem digit?_eq_some_iff_standsFor : digit? 16 c = some d ↔ StandsFor c d := by
  constructor
  · intro h
    rw [digit?, Option.filter_eq_some_iff, decide_eq_true_eq] at h
    obtain ⟨h, hd⟩ := h
    cases hdecimal : decimalDigit? c with
    | some e =>
      rw [hdecimal] at h
      exact .inr (hdecimal.trans h)
    | none =>
      rw [hdecimal] at h
      exact .inl ⟨hd, letter_cases h hd⟩
  · rintro (hdigit | hdecimal)
    · exact @Program.digit?_of_isDigit .hexadecimal _ _ hdigit
    · have hlt := decimalDigit?_lt hdecimal
      rw [digit?, hdecimal, Option.filter_eq_some_iff, decide_eq_true_eq]
      exact ⟨rfl, by omega⟩

theorem StandsFor.lt (h : StandsFor c d) : d < 16 := by
  rcases h with h | h
  · exact h.1
  · exact Nat.lt_of_lt_of_le (decimalDigit?_lt h) (by decide)

theorem StandsFor.capitalDigit_eq (h : StandsFor c d) : capitalDigit c = nibbleDigit d := by
  have hplain : ∀ d < 16, capitalDigit d.digitChar = nibbleDigit d ∧
      capitalDigit d.digitChar.toUpper = nibbleDigit d := by decide
  rcases h with ⟨hd, rfl | rfl⟩ | h
  · exact (hplain d hd).1
  · exact (hplain d hd).2
  · rw [capitalDigit, plainDigit, h]
    rfl

theorem digitValue_eq_ok_iff : digitValue c = .ok d ↔ StandsFor c d := by
  rw [← digit?_eq_some_iff_standsFor, digitValue]
  cases digit? 16 c <;> simp

end Digits

section Text
variable {s : String} {cs ds : List Char} {i : Instruction}

theorem hexDigits_eq_bare (s : String) : hexDigits s = bare s := by
  rw [hexDigits, bare]
  split
  · rename_i heq
    simp [heq, Program.Base.marks]
  · rename_i heq
    simp [heq, Program.Base.marks]
  · rename_i hsmall hcapital
    rw [if_neg]
    intro hmark
    rcases hcs : s.toList.filter (· != ' ') with _ | ⟨a, _ | ⟨b, rest⟩⟩
    · simp [hcs, Program.Base.marks] at hmark
    · simp [hcs, Program.Base.marks] at hmark
    · rcases (by simpa [hcs, Program.Base.marks] using hmark :
        a = '0' ∧ b = 'x' ∨ a = '0' ∧ b = 'X') with ⟨rfl, rfl⟩ | ⟨rfl, rfl⟩
      · exact hsmall rest hcs
      · exact hcapital rest hcs

theorem ofHex_of_digits {c d : Char} {x y : Nat} (h : bare s = [c, d]) (hx : StandsFor c x)
    (hy : StandsFor d y) : ofHex s = .ok ⟨x, y⟩ := by
  have hopcode : ((x : Int) % 16) = x := Int.emod_eq_of_lt (by omega) (by have := hx.lt; omega)
  have hoperand : ((y : Int) % 16) = y := Int.emod_eq_of_lt (by omega) (by have := hy.lt; omega)
  rw [ofHex, hexDigits_eq_bare, h]
  simp only [digitValue_eq_ok_iff.mpr hx, digitValue_eq_ok_iff.mpr hy]
  change Except.ok (Instruction.mk ((x : Int) % 16) ((y : Int) % 16)) = _
  rw [hopcode, hoperand]

theorem exists_digits_of_ofHex (h : ofHex s = .ok i) :
    ∃ c d x y, bare s = [c, d] ∧ StandsFor c x ∧ StandsFor d y ∧ i = ⟨x, y⟩ := by
  have hread := h
  rw [ofHex, hexDigits_eq_bare] at hread
  split at hread
  · rename_i c d hcd
    obtain ⟨x, hx, hread⟩ := ok_of_bind hread
    obtain ⟨y, hy, -⟩ := ok_of_bind hread
    have hx := digitValue_eq_ok_iff.mp hx
    have hy := digitValue_eq_ok_iff.mp hy
    exact ⟨c, d, x, y, hcd, hx, hy, Except.ok.inj (h.symm.trans (ofHex_of_digits hcd hx hy))⟩
  · cases hread

private theorem kind_of_digitValue {c : Char} {e : Error} (h : digitValue c = .error e) :
    e.kind = .value := by
  unfold digitValue at h
  split at h
  · cases h
  · cases h
    rfl

theorem kind_of_ofHex {e : Error} (h : ofHex s = .error e) : e.kind = .value := by
  rw [ofHex] at h
  split at h
  · rcases error_of_bind h with hc | ⟨x, -, h⟩
    · exact kind_of_digitValue hc
    · rcases error_of_bind h with hd | ⟨y, -, h⟩
      · exact kind_of_digitValue hd
      · cases h
  · cases h
    rfl

theorem Spaced.filter_eq (h : Spaced cs ds) : ds.filter (· != ' ') = cs.filter (· != ' ') := by
  induction h with
  | done => rfl
  | keep c _ ih => simp [List.filter_cons, ih]
  | space _ ih => simpa using ih

theorem lowNibble_cast (n : Int) : (lowNibble n : Int) = n % 16 :=
  Int.toNat_of_nonneg (Int.emod_nonneg n (by decide))

theorem Spells.exists_digits (h : Spells s i) : ∃ c d, bare s = [c, d] ∧
    StandsFor c (lowNibble i.opcode) ∧ StandsFor d (lowNibble i.operand) := by
  have hlower : ∀ n < 16, StandsFor (nibbleDigit n).toLower n ∧
      ((nibbleDigit n).toLower != ' ' && (nibbleDigit n).toLower != 'x' &&
        (nibbleDigit n).toLower != 'X') = true := by decide
  have hupper : ∀ n < 16, StandsFor (nibbleDigit n).toUpper n ∧
      ((nibbleDigit n).toUpper != ' ' && (nibbleDigit n).toUpper != 'x' &&
        (nibbleDigit n).toUpper != 'X') = true := by decide
  have hdigit {n : Int} {c : Char} (hc : c = (nibbleDigit (lowNibble n)).toLower ∨
      c = (nibbleDigit (lowNibble n)).toUpper) :
      StandsFor c (lowNibble n) ∧ (c != ' ' && c != 'x' && c != 'X') = true := by
    have hn : lowNibble n < 16 := by
      unfold lowNibble
      omega
    rcases hc with rfl | rfl
    · exact hlower _ hn
    · exact hupper _ hn
  obtain ⟨mark, hmark, digits, hdigits, hspaced⟩ := h
  rw [toHex, String.toList_ofList] at hdigits
  obtain ⟨c, rest, hc, hrest, rfl⟩ := List.forall₂_cons_left_iff.mp hdigits
  obtain ⟨d, rest, hd, hnone, rfl⟩ := List.forall₂_cons_left_iff.mp hrest
  obtain rfl := List.forall₂_nil_left_iff.mp hnone
  obtain ⟨hc, hcplain⟩ := hdigit hc
  obtain ⟨hd, hdplain⟩ := hdigit hd
  have hfilter := hspaced.filter_eq
  simp only [Bool.and_eq_true, bne_iff_ne] at hcplain hdplain
  refine ⟨c, d, ?_, hc, hd⟩
  simp only [Program.Base.marks, List.mem_cons, List.not_mem_nil, or_false] at hmark
  rcases hmark with rfl | rfl | rfl <;>
    simp [bare, hfilter, hcplain, hdplain, Program.Base.marks]

end Text

/-- All texts of an instruction are read as its two nibbles. A text is read just if it has two
digits when spaces and a mark are taken off, and is refused for its value otherwise; what is read is
two nibbles, and it is written as those digits in their plain form. -/
theorem hex_inverse :
    (∀ (i : Instruction) (s : String), Spells s i →
      ofHex s = .ok ⟨i.opcode % 16, i.operand % 16⟩) ∧
    ∀ s : String,
      ((∃ i, ofHex s = .ok i) ↔
        ∃ c d, bare s = [c, d] ∧ (∃ x, StandsFor c x) ∧ ∃ y, StandsFor d y) ∧
      (∀ e, ofHex s = .error e → e.kind = .value) ∧
      ∀ i, ofHex s = .ok i →
        (0 ≤ i.opcode ∧ i.opcode < 16) ∧ (0 ≤ i.operand ∧ i.operand < 16) ∧
          ∃ c d, bare s = [c, d] ∧ i.toHex.toList = [capitalDigit c, capitalDigit d] := by
  refine ⟨fun i s h => ?_, fun s => ⟨⟨?_, ?_⟩, fun e => kind_of_ofHex, fun i h => ?_⟩⟩
  · obtain ⟨c, d, hbare, hc, hd⟩ := h.exists_digits
    rw [ofHex_of_digits hbare hc hd, lowNibble_cast, lowNibble_cast]
  · rintro ⟨i, h⟩
    obtain ⟨c, d, x, y, hbare, hx, hy, -⟩ := exists_digits_of_ofHex h
    exact ⟨c, d, hbare, ⟨x, hx⟩, ⟨y, hy⟩⟩
  · rintro ⟨c, d, hbare, ⟨x, hx⟩, ⟨y, hy⟩⟩
    exact ⟨_, ofHex_of_digits hbare hx hy⟩
  · obtain ⟨c, d, x, y, hbare, hx, hy, rfl⟩ := exists_digits_of_ofHex h
    have hxlt := hx.lt
    have hylt := hy.lt
    have hnibbles : nibbles ⟨x, y⟩ = (x, y) := by
      simp only [nibbles, lowNibble, Prod.mk.injEq]
      omega
    refine ⟨by simp only; omega, by simp only; omega, c, d, hbare, ?_⟩
    rw [toHex, hnibbles, hx.capitalDigit_eq, hy.capitalDigit_eq, String.toList_ofList]

theorem hex_inverse_of_spaced :
    Spells " 0X a 5" ⟨-86, 437⟩ ∧ ofHex " 0X a 5" = .ok ⟨10, 5⟩ ∧
      ofHex "0x\u0663 b" = .ok ⟨3, 11⟩ ∧ (Instruction.mk 3 11).toHex.toList = ['3', 'B'] ∧
      (∃ e, ofHex "0x" = .error e ∧ e.kind = .value) := by
  obtain ⟨hspelled, hread⟩ := hex_inverse
  have hspells : Spells " 0X a 5" ⟨-86, 437⟩ := by
    refine ⟨['0', 'X'], by decide, ['a', '5'], .cons (by decide) (.cons (by decide) .nil), ?_⟩
    exact .space (.keep _ (.keep _ (.space (.keep _ (.space (.keep _ .done))))))
  obtain ⟨hsome, -, hshown⟩ := hread "0x\u0663 b"
  obtain ⟨i, hi⟩ := hsome.mpr ⟨'\u0663', 'b', by decide, ⟨3, by decide⟩, ⟨11, by decide⟩⟩
  obtain rfl : i = ⟨3, 11⟩ := Except.ok.inj (hi.symm.trans (by decide))
  obtain ⟨-, -, c, d, hbare, hchars⟩ := hshown _ hi
  obtain ⟨rfl, rfl⟩ : c = '\u0663' ∧ d = 'b' := by
    simpa using hbare.symm.trans (by decide : bare "0x\u0663 b" = ['\u0663', 'b'])
  refine ⟨hspells, hspelled _ _ hspells, hi, hchars.trans (by decide), ?_⟩
  obtain ⟨hnone, hkind, -⟩ := hread "0x"
  cases he : ofHex "0x" with
  | error e => exact ⟨e, rfl, hkind e he⟩
  | ok i =>
    obtain ⟨c, d, hbare, -⟩ := hnone.mp ⟨i, he⟩
    cases hbare

end FourBit.Instruction
