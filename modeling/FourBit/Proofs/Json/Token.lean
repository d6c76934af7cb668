import FourBit.Json.Token
import FourBit.Json.Writer
import FourBit.Proofs.Numeral.Decimal
import FourBit.Proofs.Text.CodePoint

/-! Tokens of written text.
What is written for an integer or a text begins with the token of it: escapes are taken for the
units they were made from, and the units of a code point are put together again. A pair of
surrogates in the text itself cannot be told from the units of one code point. -/
namespace FourBit.Json.Token
open Numeral CodeText

variable {τ : Type}

private theorem unit?_digits : ∀ p < 16, (Nat.digitChar p).toNat < 0x80 ∧
    digit? 16 (Nat.digitChar p) = some p := by decide

private theorem unit?_hexadecimal {n : Nat} (h : n < 0x10000) :
    ∃ a b c d, Text.hexadecimal 4 n = [a, b, c, d] ∧ unit? a b c d = some n := by
  obtain ⟨ds, hds, hall, hvalue⟩ := exists_digits (by decide : 1 < 16) n
  have hlength : ds.length ≤ 4 := by
    have hle := (Nat.length_toDigits_le_iff (k := 4) (by decide : 1 < 16) (by decide)).mpr h
    rwa [hds, List.length_map] at hle
  obtain ⟨es, hes⟩ : ∃ es, es = List.replicate (4 - ds.length) 0 ++ ds := ⟨_, rfl⟩
  have hchars : Text.hexadecimal 4 n = es.map Nat.digitChar := by
    rw [Text.hexadecimal, hds, List.length_map, hes, List.map_append, List.map_replicate]
    rfl
  have hvalue' : ofDigits 16 es = n := by rw [hes, ofDigits_zeros, hvalue]
  have hfour : es.length = 4 := by
    rw [hes, List.length_append, List.length_replicate]
    omega
  have hsmall : ∀ p ∈ es, p < 16 := by
    intro p hp
    rcases List.mem_append.mp (hes ▸ hp) with hp | hp
    · rw [List.eq_of_mem_replicate hp]
      decide
    · exact hall p hp
  obtain ⟨p, q, r, s, rfl⟩ : ∃ p q r s, es = [p, q, r, s] := by
    match es, hfour with
    | [p, q, r, s], _ => exact ⟨p, q, r, s, rfl⟩
  obtain ⟨hp, hp'⟩ := unit?_digits p (hsmall p (by simp))
  obtain ⟨hq, hq'⟩ := unit?_digits q (hsmall q (by simp))
  obtain ⟨hr, hr'⟩ := unit?_digits r (hsmall r (by simp))
  obtain ⟨hs, hs'⟩ := unit?_digits s (hsmall s (by simp))
  refine ⟨_, _, _, _, hchars, ?_⟩
  rw [← hvalue']
  simp [unit?, hp, hp', hq, hq', hr, hr', hs, hs']

private theorem stringUnits_unit {n : Nat} (h : n < 0x10000) (tail : List Char) :
    stringUnits (escapeUnit n ++ tail) = (stringUnits tail).map fun (us, r) => (n :: us, r) := by
  obtain ⟨a, b, c, d, hchars, hunit⟩ := unit?_hexadecimal h
  rw [escapeUnit, hchars]
  simp only [List.cons_append, List.nil_append, stringUnits, hunit]

private theorem stringUnits_plain {c : Char} (hquote : c ≠ '"') (hslash : c ≠ '\\')
    (h : 0x20 ≤ c.toNat) (tail : List Char) :
    stringUnits (c :: tail) = (stringUnits tail).map fun (us, r) => (c.toNat :: us, r) := by
  rw [stringUnits.eq_def]
  split
  · rename_i heq
    cases heq
  · rename_i heq
    exact absurd (List.cons.inj heq).1 hquote
  · rename_i heq
    exact absurd (List.cons.inj heq).1 hslash
  · rename_i heq
    exact absurd (List.cons.inj heq).1 hslash
  · rename_i heq
    obtain ⟨rfl, rfl⟩ := List.cons.inj heq
    simp [hslash, Nat.not_lt.mpr h]

private theorem stringUnits_units {n : Nat} (h : n < 0x110000) (tail : List Char) :
    stringUnits ((units n).flatMap escapeUnit ++ tail) =
      (stringUnits tail).map fun (us, r) => (units n ++ us, r) := by
  unfold units
  split
  · rename_i hn
    rw [List.flatMap_singleton, stringUnits_unit hn]
    rfl
  · rename_i hn
    rw [List.flatMap_cons, List.flatMap_singleton, List.append_assoc,
      stringUnits_unit (by omega), stringUnits_unit (by omega), Option.map_map]
    rfl

private theorem stringUnits_char (c : Char) (tail : List Char) :
    stringUnits (escapeChar c ++ tail) =
      (stringUnits tail).map fun (us, r) => (units c.toNat ++ us, r) := by
  have hsmall {c : Char} (h : c.toNat < 0x10000) : units c.toNat = [c.toNat] := if_pos h
  unfold escapeChar
  split
  · rename_i hc
    rcases (by simpa using hc : c = '"' ∨ c = '\\') with rfl | rfl <;> rfl
  iterate 5
    split
    · rename_i hc
      rw [hc]
      rfl
  split
  · rename_i hc hn hr ht hb hf hp
    simp only [Bool.or_eq_true, decide_eq_true_eq, not_or, Bool.and_eq_true] at hc hp
    rw [hsmall (by omega)]
    exact stringUnits_plain hc.1 hc.2 hp.1 tail
  · refine stringUnits_units ?_ tail
    have hbounded := (CodePoint.ofChar c).bounded
    rwa [CodePoint.value_ofChar] at hbounded

private theorem stringUnits_point (p : CodePoint) (tail : List Char) :
    stringUnits (escapePoint p ++ tail) =
      (stringUnits tail).map fun (us, r) => (units p.value ++ us, r) := by
  cases hp : p.isSurrogate with
  | true =>
    have hlt : p.value < 0x10000 := by
      have hrange := p.isSurrogate_iff.mp hp
      omega
    rw [escapePoint, if_pos hp, stringUnits_unit hlt, units, if_pos hlt]
    rfl
  | false =>
    rw [escapePoint, hp, if_neg Bool.false_ne_true, stringUnits_char, CodePoint.toNat_toChar hp]

private theorem stringUnits_text (ps : List CodePoint) (tail : List Char) :
    stringUnits (ps.flatMap escapePoint ++ '"' :: tail) =
      some (ps.flatMap (fun p => units p.value), tail) := by
  induction ps with
  | nil => rfl
  | cons p ps ih =>
    rw [List.flatMap_cons, List.append_assoc, stringUnits_point, ih]
    rfl

private theorem joinUnits_units (p : CodePoint) {us : List Nat}
    (h : ∀ u ∈ us.head?, p.isHigh = true → ¬ (0xDC00 ≤ u ∧ u < 0xE000)) :
    joinUnits (units p.value ++ us) = p :: joinUnits us := by
  have hbounded := p.bounded
  unfold units
  split
  · cases us with
    | nil => rw [List.append_nil, joinUnits, joinUnits, CodePoint.ofNat_value]
    | cons low us =>
      have hpair : pair? p.value low = none := by
        rw [pair?, if_neg]
        have hlow := h low rfl
        simp only [CodePoint.isHigh, Bool.and_eq_true, decide_eq_true_eq] at hlow ⊢
        omega
      rw [List.singleton_append, joinUnits]
      simp only [hpair, CodePoint.ofNat_value]
  · have hpair : pair? (0xD800 + (p.value - 0x10000) / 0x400)
        (0xDC00 + (p.value - 0x10000) % 0x400) = some p := by
      have hvalue : 0x10000 + (0xD800 + (p.value - 0x10000) / 0x400 - 0xD800) * 0x400 +
          (0xDC00 + (p.value - 0x10000) % 0x400 - 0xDC00) = p.value := by omega
      rw [pair?, if_pos, hvalue, CodePoint.ofNat_value]
      simp only [Bool.and_eq_true, decide_eq_true_eq]
      omega
    rw [List.cons_append, List.singleton_append, joinUnits]
    simp only [hpair]

private theorem head_units {q : CodePoint} {ps : List CodePoint} {u : Nat}
    (hu : u ∈ ((q :: ps).flatMap fun p => units p.value).head?) (hlow : 0xDC00 ≤ u ∧ u < 0xE000) :
    q.isLow = true := by
  have hbounded := q.bounded
  rw [List.flatMap_cons, units] at hu
  split at hu
  · obtain rfl : q.value = u := Option.some.inj hu
    simpa [CodePoint.isLow] using hlow
  · obtain rfl : 0xD800 + (q.value - 0x10000) / 0x400 = u := Option.some.inj hu
    omega

private theorem joinUnits_text {ps : List CodePoint}
    (h : ps.IsChain fun p q => ¬ (p.isHigh = true ∧ q.isLow = true)) :
    joinUnits (ps.flatMap fun p => units p.value) = ps := by
  induction ps with
  | nil => rfl
  | cons p ps ih =>
    obtain ⟨hnext, hrest⟩ := List.isChain_cons.mp h
    rw [List.flatMap_cons, joinUnits_units, ih hrest]
    intro u hu hhigh hlow
    cases ps with
    | nil => cases hu
    | cons q ps => exact hnext q rfl ⟨hhigh, head_units hu hlow⟩

theorem next?_string [CodeText τ] {s : τ} (h : Unpaired s) (tail : List Char) :
    next? (writeString s ++ tail) = some (.str s, tail) := by
  have hunits := stringUnits_text (points s) tail
  rw [writeString, List.cons_append, List.cons_append, List.append_assoc, List.singleton_append]
  change (stringUnits _).map _ = _
  rw [hunits, Option.map_some]
  simp only [joinUnits_text h, ofPoints_points]

/-- What may follow a value: the end, or what goes on with the container it stands in. -/
def Ends (rest : List Char) : Prop := ∀ c ∈ rest.head?, c = ',' ∨ c = ']' ∨ c = '\x7d'

theorem ends_nil : Ends [] := fun c hc => by cases hc

private theorem isDigit_digits (n : Nat) : ∀ c ∈ Nat.toDigits 10 n, isDigit c = true :=
  forall_mem_toDigits (by decide) (by decide) n

private theorem digitsThen_append {n : Nat} {rest : List Char} (h : Ends rest) :
    digitsThen (Nat.toDigits 10 n ++ rest) = (Nat.toDigits 10 n, rest) := by
  have hrest : ∀ c ∈ rest.head?, isDigit c = false := by
    intro c hc
    obtain rfl | rfl | rfl := h c hc <;> decide
  obtain ⟨htake, hdrop⟩ := span_append (isDigit_digits n) hrest
  rw [digitsThen, htake, hdrop]

private theorem wholePart_append (n : Nat) {rest : List Char} (h : Ends rest) :
    wholePart (Nat.toDigits 10 n ++ rest) = (Nat.toDigits 10 n, rest) := by
  rw [wholePart.eq_def]
  split
  · rename_i tail heq
    have hn : n = 0 := by
      refine Classical.byContradiction fun hn => head_toDigits_ne hn ?_
      have hhead := congrArg List.head? heq
      rwa [List.head?_append, List.head?_eq_some_head Nat.toDigits_ne_nil, Option.some_or,
        ← List.head?_eq_some_head Nat.toDigits_ne_nil] at hhead
    rw [hn, Nat.toDigits_zero] at heq ⊢
    obtain rfl : rest = tail := (List.cons.inj heq).2
    rfl
  · exact digitsThen_append h

private theorem fraction_ends {rest : List Char} (h : Ends rest) : fraction rest = ([], rest) := by
  rw [fraction.eq_def]
  split
  · exact absurd (h '.' rfl) (by decide)
  · rfl

private theorem power_ends {rest : List Char} (h : Ends rest) : power rest = (none, rest) := by
  cases rest with
  | nil => rfl
  | cons c rest => obtain rfl | rfl | rfl := h c rfl <;> rfl

private theorem number?_digits (negative : Bool) {n : Nat} {rest : List Char} (h : Ends rest)
    (hn : (Nat.toDigits 10 n).length ≤ maxDigits) :
    @number? τ negative (Nat.toDigits 10 n ++ rest) =
      some (.int (if negative then -(n : Int) else n), rest) := by
  simp [number?, wholePart_append n h, fraction_ends h, power_ends h, ofDigits_toDigits,
    Nat.not_lt.mpr hn]

variable [CodeText τ]

private theorem next?_digit {d : Nat} (hd : d < 10) (tail : List Char) :
    @next? τ _ (Nat.digitChar d :: tail) = number? false (Nat.digitChar d :: tail) ∧
      @next? τ _ ('-' :: Nat.digitChar d :: tail) = number? true (Nat.digitChar d :: tail) := by
  have hcases : d = 0 ∨ d = 1 ∨ d = 2 ∨ d = 3 ∨ d = 4 ∨ d = 5 ∨ d = 6 ∨ d = 7 ∨ d = 8 ∨ d = 9 := by
    omega
  rcases hcases with rfl | rfl | rfl | rfl | rfl | rfl | rfl | rfl | rfl | rfl <;>
    exact ⟨rfl, rfl⟩

theorem next?_int {i : Int} (hi : isWritable i = true) {rest : List Char} (h : Ends rest) :
    @next? τ _ (decimal.chars i ++ rest) = some (.int i, rest) := by
  have hlength := length_toDigits_le hi
  obtain ⟨ds, hds, hall, -⟩ := exists_digits (by decide : 1 < 10) i.natAbs
  obtain ⟨d, ds, rfl⟩ : ∃ d ds', ds = d :: ds' := by
    cases ds with
    | nil => exact absurd hds Nat.toDigits_ne_nil
    | cons d ds => exact ⟨d, ds, rfl⟩
  obtain ⟨hplus, hminus⟩ :=
    @next?_digit τ _ d (hall d List.mem_cons_self) (ds.map Nat.digitChar ++ rest)
  rw [← List.cons_append, ← List.map_cons, ← hds] at hplus hminus
  rw [decimal_chars]
  by_cases hneg : i < 0
  · rw [if_pos hneg, List.append_assoc, List.singleton_append, hminus,
      number?_digits true h hlength, if_pos rfl, show -(i.natAbs : Int) = i by omega]
  · rw [if_neg hneg, List.nil_append, hplus, number?_digits false h hlength,
      if_neg Bool.false_ne_true, show (i.natAbs : Int) = i by omega]

theorem decimal_head (i : Int) : ∃ c cs, decimal.chars i = c :: cs ∧ isSpace c = false := by
  have hspace : ∀ c ∈ Nat.toDigits 10 i.natAbs, isSpace c = false :=
    forall_mem_toDigits (by decide) (by decide) _
  rw [decimal_chars]
  by_cases hneg : i < 0
  · rw [if_pos hneg]
    exact ⟨'-', _, rfl, by decide⟩
  · rw [if_neg hneg]
    cases hds : Nat.toDigits 10 i.natAbs with
    | nil => exact absurd hds Nat.toDigits_ne_nil
    | cons c cs => exact ⟨c, cs, rfl, hspace c (hds ▸ List.mem_cons_self)⟩

end FourBit.Json.Token
