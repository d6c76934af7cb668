import FourBit.Proofs.Machine.Load
import FourBit.Proofs.Numeral.Decimal
import FourBit.Proofs.Program.Rendering

/-! Programs of integers, as numbers and as text.
A list of integers can be given as it is, or written down with each integer in decimal on a line of
its own. What is a nibble is told by two rules that are apart, one for numbers and one for
literals, and they agree on which integer is the first that is none. -/
namespace FourBit
open Numeral Text

namespace Program

def ended (vs : List Int) : String := .ofList (vs.flatMap fun v => decimal.chars v ++ ['\n'])

def joined (vs : List Int) : String := .ofList (['\n'].intercalate (vs.map decimal.chars))

structure FirstUnfit (vs : List Int) (k : Nat) (v : Int) : Prop where
  stands : vs[k]? = some v
  unfit : ¬ (0 ≤ v ∧ v < 16)
  front : ∀ u ∈ vs.take k, 0 ≤ u ∧ u < 16

/-- Why an integer that is no nibble is refused in a text: with a sign it is no literal at all. -/
def spelledRefusal (v : Int) : Refusal := if v < 0 then .notLiteral else .tooLarge v

private theorem decimal_plain (v : Int) : ∀ c ∈ decimal.chars v,
    (isBlank c = false ∧ c ∉ commentStarts) ∧ isBreak c = false ∧ c ≠ '\n' ∧ (c != '_') = true :=
  forall_mem_decimal (by decide) (by decide) v

theorem content_decimal (v : Int) : content (decimal.chars v) = decimal.chars v := by
  have hline := @content_line [] (decimal.chars v) [] [] (fun _ => nofun)
    (fun c hc => (decimal_plain v c hc).1) (fun _ => nofun) .none
  rwa [List.append_nil, List.append_nil] at hline

private theorem decimal_unbroken (v : Int) : ∀ c ∈ decimal.chars v, isBreak c = false :=
  fun c hc => (decimal_plain v c hc).2.1

theorem lines_ended (vs : List Int) : lines (ended vs).toList = vs.map decimal.chars := by
  rw [ended, String.toList_ofList]
  induction vs with
  | nil => rfl
  | cons v vs ih =>
    have hfeed : lines ('\n' :: vs.flatMap fun v => decimal.chars v ++ ['\n']) =
        [] :: vs.map decimal.chars := by
      rw [lines_break (c := '\n') rfl nofun, ih]
    rw [List.flatMap_cons, List.append_assoc, List.singleton_append,
      lines_line (decimal_unbroken v) hfeed]
    rfl

theorem lines_joined (vs : List Int) : lines (joined vs).toList = vs.map decimal.chars := by
  rw [joined, String.toList_ofList]
  induction vs with
  | nil => rfl
  | cons v vs ih =>
    cases vs with
    | nil =>
      have hone : ['\n'].intercalate ([v].map decimal.chars) = decimal.chars v := by
        simp [List.intercalate]
      rw [hone, lines_of_no_break (decimal_unbroken v) (decimal_ne_nil v)]
      rfl
    | cons w vs =>
      have hmore : ['\n'].intercalate ((v :: w :: vs).map decimal.chars) =
          decimal.chars v ++ '\n' :: ['\n'].intercalate ((w :: vs).map decimal.chars) := by
        simp [List.intercalate]
      have hfeed : lines ('\n' :: ['\n'].intercalate ((w :: vs).map decimal.chars)) =
          [] :: (w :: vs).map decimal.chars := by
        rw [lines_break (c := '\n') rfl nofun, ih]
      rw [hmore, lines_line (decimal_unbroken v) hfeed]
      rfl

private theorem spells_toDigits (n : Nat) :
    ∃ l, Spells (Nat.toDigits 10 n) l ∧ l.value = n ∧
      l.decimalDigits = (Nat.toDigits 10 n).length := by
  obtain ⟨ds, hds, hall, hvalue⟩ := exists_digits (by decide : 1 < 10) n
  have hforall : List.Forall₂ (IsDigit 10) (ds.map Nat.digitChar) ds := by
    rw [List.forall₂_map_left_iff, List.forall₂_same]
    exact fun d hd => ⟨hall d hd, .inl rfl⟩
  have hne : ds ≠ [] := by
    rintro rfl
    exact Nat.toDigits_ne_nil hds
  refine ⟨⟨.decimal, ds⟩, ?_, ?_, ?_⟩
  · rw [hds]
    exact @Spells.intro .decimal [] _ _ List.mem_cons_self hforall hne
  · rw [Literal.value, ← hvalue, ofDigits_eq]
    rfl
  · rw [Literal.decimalDigits, if_pos rfl, hds, List.length_map]

theorem nibble_decimal {v : Int} (hw : isWritable v = true) (line : Int) :
    (∀ n : Nibble, v = n.val → nibble (decimal.chars v) line = .ok n) ∧
      (¬ (0 ≤ v ∧ v < 16) → nibble (decimal.chars v) line =
        .error (.badLine line (decimal.write v) (spelledRefusal v))) := by
  have hfeed : '\n' ∉ decimal.chars v := fun h => (decimal_plain v _ h).2.2.1 rfl
  have hbare : bare (decimal.chars v) = decimal.chars v :=
    List.filter_eq_self.mpr fun c hc => (decimal_plain v c hc).2.2.2
  by_cases hv : v < 0
  · have hsign : ∀ l, ¬ Spells (bare (decimal.chars v)) l := by
      intro l h
      have hminus := h.forall_mem (p := (· != '-')) (by decide) (by decide) '-' (by
        rw [hbare, decimal_chars, if_pos hv]
        exact List.mem_cons_self)
      cases hminus
    refine ⟨fun n hn => by omega, fun _ => ?_⟩
    rw [nibble_of_not_spells hfeed hsign, spelledRefusal, if_pos hv]
    rfl
  · obtain ⟨l, h, hvalue, hlength⟩ := spells_toDigits v.natAbs
    have hchars : decimal.chars v = Nat.toDigits 10 v.natAbs := by
      rw [decimal_chars, if_neg hv, List.nil_append]
    have hshort : ¬ l.Oversized := by
      rw [Literal.Oversized, hlength]
      exact Nat.not_lt.mpr (length_toDigits_le hw)
    have habs : (v.natAbs : Int) = v := by omega
    rw [← hchars, ← hbare] at h
    rw [nibble_of_spells hfeed h hshort, spelledRefusal, if_neg hv]
    simp only [hvalue, habs]
    refine ⟨fun n hn => ?_, fun hunfit => ?_⟩
    · rw [dif_pos (by omega)]
      exact congrArg Except.ok (Fin.ext (by simp only; omega))
    · rw [dif_neg (by omega)]
      rfl

theorem checkNibble_int {v : Int} (hw : isWritable v = true) (position : Int) :
    (∀ n : Nibble, v = n.val → checkNibble position (.int v) = .ok n) ∧
      (¬ (0 ≤ v ∧ v < 16) → checkNibble position (.int v) =
        .error (.badLine position (decimal.write v) (.tooLarge v))) := by
  rw [checkNibble]
  refine ⟨fun n hn => ?_, fun hunfit => ?_⟩
  · rw [dif_pos (by omega)]
    exact congrArg Except.ok (Fin.ext (by simp only; omega))
  · rw [dif_neg hunfit, writeDecimal, if_pos hw]
    rfl

private theorem read_alike (line : Int) {vs : List Int} (hvs : ∀ v ∈ vs, isWritable v = true) :
    (∃ ns : List Nibble, vs = ns.map (fun n => (n.val : Int)) ∧
      checkNibbles line (vs.map .int) = .ok ns ∧ nibbles line (vs.map decimal.chars) = .ok ns) ∨
    ∃ (k : Nat) (v : Int), FirstUnfit vs k v ∧
      checkNibbles line (vs.map .int) =
        .error (.badLine (line + k) (decimal.write v) (.tooLarge v)) ∧
      nibbles line (vs.map decimal.chars) =
        .error (.badLine (line + k) (decimal.write v) (spelledRefusal v)) := by
  induction vs generalizing line with
  | nil => exact .inl ⟨[], rfl, rfl, rfl⟩
  | cons v vs ih =>
    obtain ⟨hw, hrest⟩ := List.forall_mem_cons.mp hvs
    have hcheck := checkNibble_int hw line
    have hnibble := nibble_decimal hw line
    have hne : content (decimal.chars v) ≠ [] := by
      rw [content_decimal]
      exact decimal_ne_nil v
    rw [List.map_cons, List.map_cons, checkNibbles]
    by_cases hv : 0 ≤ v ∧ v < 16
    · obtain ⟨n, hn⟩ : ∃ n : Nibble, v = n.val := ⟨⟨v.toNat, by omega⟩, by simp only; omega⟩
      rw [hcheck.1 n hn, nibbles_read hne (by rw [content_decimal, hnibble.1 n hn])]
      rcases ih (line + 1) hrest with ⟨ns, hns, hnumbers, hlines⟩ | ⟨k, u, hu, hnumbers, hlines⟩
      · refine .inl ⟨n :: ns, ?_, ?_, ?_⟩
        · rw [List.map_cons, ← hns, hn]
        · rw [hnumbers]
          rfl
        · rw [hlines]
          rfl
      · have hplace : line + 1 + k = line + (k + 1 : Nat) := by omega
        rw [hplace] at hnumbers hlines
        refine .inr ⟨k + 1, u, ⟨hu.stands, hu.unfit, ?_⟩, ?_, ?_⟩
        · exact List.forall_mem_cons.mpr ⟨hv, hu.front⟩
        · rw [hnumbers]
          rfl
        · rw [hlines]
          rfl
    · refine .inr ⟨0, v, ⟨rfl, hv, List.forall_mem_nil _⟩, ?_, ?_⟩
      · rw [hcheck.2 hv, Int.natCast_zero, Int.add_zero]
        rfl
      · rw [nibbles_refused hne (by rw [content_decimal, hnibble.2 hv]), Int.natCast_zero,
          Int.add_zero]

end Program

namespace Machine
open Program

inductive LoadedAlike (m : Machine) (vs : List Int) (numbers text : Outcome Machine Unit) : Prop
    where
  | received {ns : List Nibble} (nibbles : vs = ns.map fun n => (n.val : Int))
    (fits : ns.length ≤ m.variant.programSpace)
    (as_numbers : numbers.answer = .ok () ∧ numbers.state = place ns m)
    (as_text : text.answer = .ok () ∧ text.state = place ns m)
  | overfull {ns : List Nibble} (nibbles : vs = ns.map fun n => (n.val : Int))
    (long : m.variant.programSpace < ns.length)
    (as_numbers : numbers.answer = .error (.overfull vs.length m.variant.programSpace) ∧
      numbers.state = m)
    (as_text : text.answer = .error (.overfull vs.length m.variant.programSpace) ∧ text.state = m)
  /-- The first that is no nibble is blamed by its place, counted from one, and by its text. -/
  | refused {k : Nat} {v : Int} (first : FirstUnfit vs k v)
    (as_numbers : numbers.answer = .error (.badLine (k + 1) (decimal.write v) (.tooLarge v)) ∧
      numbers.state = m)
    (as_text : text.answer = .error (.badLine (k + 1) (decimal.write v) (spelledRefusal v)) ∧
      text.state = m)

private theorem readProgram_integers (vs : List Int) (m : Machine) :
    (readProgram (.list (vs.map .int)) m).answer = checkNibbles 1 (vs.map .int) := rfl

private theorem readProgram_text (text : String) (m : Machine) :
    (readProgram (.str text) m).answer = parse text := by
  cases h : parse text <;> simp [readProgram, h]

private theorem load_of_unread {program : Value} {m : Machine} {e : Error}
    (h : (readProgram program m).answer = .error e) :
    (load program m).answer = .error e ∧ (load program m).state = m := by
  have heq := load_eq program m
  rw [h] at heq
  exact Prod.mk.inj heq

/-- It makes no difference whether a list of integers is loaded as numbers or as a text with each
of them in decimal on its own line, whatever ends the lines: the same machine results, or the same
number of nibbles does not fit in the same room, or the same integer is refused at the same place
with the same text. The reasons for this differ only where the integer is negative, which a text
cannot say. -/
theorem load_numbers_text_alike (m : Machine) (vs : List Int)
    (hvs : ∀ v ∈ vs, isWritable v = true) :
    (∀ text ∈ [ended vs, joined vs], lines text.toList = vs.map decimal.chars) ∧
    ∀ text : String, lines text.toList = vs.map decimal.chars →
      m.LoadedAlike vs (load (.list (vs.map .int)) m) (load (.str text) m) := by
  refine ⟨?_, fun text htext => ?_⟩
  · exact List.forall_mem_cons.mpr
      ⟨lines_ended vs, List.forall_mem_singleton.mpr (lines_joined vs)⟩
  have hnumbers := readProgram_integers vs m
  have hlines : (readProgram (.str text) m).answer = nibbles 1 (vs.map decimal.chars) := by
    rw [readProgram_text, parse, htext]
  rcases read_alike 1 hvs with ⟨ns, hns, hcheck, hread⟩ | ⟨k, v, hfirst, hcheck, hread⟩
  · rw [hcheck] at hnumbers
    rw [hread] at hlines
    by_cases hfits : ns.length ≤ m.variant.programSpace
    · exact .received hns hfits (load_of_fits hnumbers hfits) (load_of_fits hlines hfits)
    · have hlong := Int.not_le.mp hfits
      have hlength : ns.length = vs.length := by rw [hns, List.length_map]
      have hover := load_of_overfull hnumbers hlong
      have hover' := load_of_overfull hlines hlong
      rw [hlength] at hover hover'
      exact .overfull hns hlong hover hover'
  · rw [hcheck, Int.add_comm] at hnumbers
    rw [hread, Int.add_comm] at hlines
    exact .refused hfirst (load_of_unread hnumbers) (load_of_unread hlines)

private def accepted : List Int := [7, 0, 15]

private def signed : List Int := [7, -3, 99]

/-- Nibbles are loaded on both ways; of other integers the second is refused with its text, for
reasons of their own. -/
theorem load_numbers_text_alike_of_sign :
    ((∀ v ∈ accepted, isWritable v = true) ∧
      lines "7\n0\r15\n".toList = accepted.map decimal.chars ∧
      ∀ program ∈ [.list (accepted.map .int), .str "7\n0\r15\n"],
        (load program (fresh .nv32)).answer = .ok () ∧
        (load program (fresh .nv32)).state = place [7, 0, 15] (fresh .nv32)) ∧
    (∀ v ∈ signed, isWritable v = true) ∧
      lines "7\n-3\r\n99".toList = signed.map decimal.chars ∧
      (load (.list (signed.map .int)) (fresh .nv32)).answer =
        .error (.badLine 2 "-3" (.tooLarge (-3))) ∧
      (load (.str "7\n-3\r\n99") (fresh .nv32)).answer = .error (.badLine 2 "-3" .notLiteral) ∧
      (load (.str "7\n-3\r\n99") (fresh .nv32)).state = fresh .nv32 := by
  have hwritable {vs : List Int} (h : ∀ v ∈ vs, v.natAbs < 100) : ∀ v ∈ vs, isWritable v = true :=
    fun v hv => isWritable_of_lt (h v hv)
  have haccepted : ∀ v ∈ accepted, isWritable v = true := hwritable (by decide)
  have hvs : ∀ v ∈ signed, isWritable v = true := hwritable (by decide)
  have hshort : lines "7\n0\r15\n".toList = accepted.map decimal.chars := by decide
  have htext : lines "7\n-3\r\n99".toList = signed.map decimal.chars := by decide
  have hseven := (checkNibble_int (hvs 7 (by decide)) 1).1 7 rfl
  have hminus := (checkNibble_int (hvs (-3) (by decide)) (1 + 1)).2 (by decide)
  have hcheck : checkNibbles 1 (signed.map .int) = .error (.badLine 2 "-3" (.tooLarge (-3))) := by
    rw [signed, List.map_cons, List.map_cons, checkNibbles, checkNibbles, hseven, hminus]
    rfl
  have hnumbers := (load_of_unread ((readProgram_integers signed (fresh .nv32)).trans hcheck)).1
  refine ⟨⟨haccepted, hshort, ?_⟩, hvs, htext, hnumbers, ?_⟩
  · rw [List.forall_mem_cons, List.forall_mem_singleton]
    cases (load_numbers_text_alike (fresh .nv32) accepted haccepted).2 _ hshort with
    | @received ns hns _ hok hok' =>
      have hinjective : Function.Injective fun n : Nibble => (n.val : Int) :=
        fun n k h => Fin.ext (Int.ofNat.inj h)
      obtain rfl : ns = [7, 0, 15] :=
        hinjective.list_map (hns.symm.trans (by decide : accepted = _))
      exact ⟨hok, hok'⟩
    | @overfull ns hns hlong _ _ =>
      have hlength := congrArg List.length hns
      rw [List.length_map] at hlength
      rw [← hlength] at hlong
      exact absurd hlong (by decide)
    | @refused k v hfirst _ _ =>
      have hfit : ∀ v ∈ accepted, 0 ≤ v ∧ v < 16 := by decide
      exact absurd (hfit v (List.mem_of_getElem? hfirst.stands)) hfirst.unfit
  · cases (load_numbers_text_alike (fresh .nv32) signed hvs).2 _ htext with
    | received _ _ hok _ => cases hok.1.symm.trans hnumbers
    | overfull _ _ hover _ => cases hover.1.symm.trans hnumbers
    | @refused k v _ hbad hline =>
      obtain ⟨hplace, htoken, hvalue⟩ :=
        Error.badLine.inj (Except.error.inj (hbad.1.symm.trans hnumbers))
      obtain rfl : v = -3 := Refusal.tooLarge.inj hvalue
      rw [hplace, htoken] at hline
      exact hline

end Machine
end FourBit
