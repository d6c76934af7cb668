import FourBit.Numeral.Literal
import FourBit.Proofs.Text.Lines

/-! Decimal text that is read back.
The digits that write a number are digits of its value, the first of them no zero unless it is the
only one; reading them gives the number again. -/
namespace FourBit.Numeral

theorem exists_digits {base : Nat} (hb : 1 < base) (n : Nat) :
    ∃ ds, Nat.toDigits base n = ds.map Nat.digitChar ∧ (∀ d ∈ ds, d < base) ∧
      ofDigits base ds = n := by
  induction n using Nat.strongRecOn with
  | ind n ih =>
    rcases Nat.lt_or_ge n base with hlt | hge
    · refine ⟨[n], Nat.toDigits_of_lt_base hlt, ?_, ?_⟩
      · intro d hd
        rwa [List.mem_singleton.mp hd]
      · rw [ofDigits, List.foldl_cons, List.foldl_nil, Nat.zero_mul, Nat.zero_add]
    · obtain ⟨ds, hds, hall, hvalue⟩ := ih (n / base) (Nat.div_lt_self (by omega) hb)
      refine ⟨ds ++ [n % base], ?_, ?_, ?_⟩
      · rw [Nat.toDigits_of_base_le hb hge, hds, List.map_append]
        rfl
      · intro d hd
        rcases List.mem_append.mp hd with hd | hd
        · exact hall d hd
        · rw [List.mem_singleton.mp hd]
          exact Nat.mod_lt n (by omega)
      · rw [ofDigits, List.foldl_append, ← ofDigits, hvalue]
        exact Nat.div_add_mod' n base

theorem digit?_digitChar : ∀ d < 10, digit? 10 (Nat.digitChar d) = some d := by decide

theorem filterMap_digits {base : Nat} {letter : Nat → Char}
    (hread : ∀ d < base, digit? base (letter d) = some d) {ds : List Nat} (h : ∀ d ∈ ds, d < base) :
    (ds.map letter).filterMap (digit? base) = ds := by
  induction ds with
  | nil => rfl
  | cons d ds ih =>
    rw [List.map_cons, List.filterMap_cons_some (hread d (h d List.mem_cons_self)),
      ih fun d' hd => h d' (List.mem_cons_of_mem d hd)]

theorem ofDigits_zeros (base k : Nat) (ds : List Nat) :
    ofDigits base (List.replicate k 0 ++ ds) = ofDigits base ds := by
  induction k with
  | zero => rfl
  | succ k ih => simpa [ofDigits, List.replicate_succ] using ih

theorem ofDigits_toDigits (n : Nat) :
    ofDigits 10 ((Nat.toDigits 10 n).filterMap (digit? 10)) = n := by
  obtain ⟨ds, hds, hall, hvalue⟩ := exists_digits (by decide : 1 < 10) n
  rw [hds, filterMap_digits digit?_digitChar hall, hvalue]

theorem forall_mem_toDigits {base : Nat} (hb : 1 < base) {p : Char → Prop}
    (h : ∀ d < base, p (Nat.digitChar d)) (n : Nat) : ∀ c ∈ Nat.toDigits base n, p c := by
  obtain ⟨ds, hds, hall, -⟩ := exists_digits hb n
  intro c hc
  rw [hds] at hc
  obtain ⟨d, hd, rfl⟩ := List.mem_map.mp hc
  exact h d (hall d hd)

theorem head_toDigits_ne {n : Nat} (hn : n ≠ 0) : (Nat.toDigits 10 n).head? ≠ some '0' := by
  induction n using Nat.strongRecOn with
  | ind n ih =>
    rcases Nat.lt_or_ge n 10 with hlt | hge
    · rw [Nat.toDigits_of_lt_base hlt, List.head?_cons]
      intro h
      exact hn (Nat.digitChar_eq_zero.mp (Option.some.inj h))
    · have hq := ih (n / 10) (by omega) (by omega)
      rw [List.head?_eq_some_head Nat.toDigits_ne_nil] at hq
      rw [Nat.toDigits_of_base_le (by decide) hge, List.head?_append,
        List.head?_eq_some_head Nat.toDigits_ne_nil, Option.some_or]
      exact hq

theorem length_toDigits_le {i : Int} (h : isWritable i = true) :
    (Nat.toDigits 10 i.natAbs).length ≤ maxDigits := by
  have hfew {n k : Nat} (hk : 0 < k) (hn : n < Nat.pow 10 k) : (Nat.toDigits 10 n).length ≤ k :=
    (Nat.length_toDigits_le_iff (by decide) hk).mpr hn
  exact hfew (by decide) (isWritable_iff.mp h)

theorem decimal_chars (i : Int) :
    decimal.chars i = (if i < 0 then ['-'] else []) ++ Nat.toDigits 10 i.natAbs := by
  simp [Format.chars, Format.head, Format.digits, decimal]

theorem Format.forall_mem_chars {f : Format} (hb : 1 < f.base) {p : Char → Prop} (hminus : p '-')
    (hmark : ∀ c ∈ f.mark, p c) (hzero : p '0')
    (h : ∀ d < f.base, p (if f.capitals then (Nat.digitChar d).toUpper else Nat.digitChar d))
    (i : Int) : ∀ c ∈ f.chars i, p c := by
  have hdigits := forall_mem_toDigits (p := fun c => p (if f.capitals then c.toUpper else c)) hb h
    i.natAbs
  intro c hc
  rw [Format.chars, List.append_assoc, List.mem_append, List.mem_append, Format.head,
    List.mem_append] at hc
  rcases hc with (hc | hc) | hc | hc
  · split at hc
    · exact List.mem_singleton.mp hc ▸ hminus
    · cases hc
  · exact hmark c hc
  · exact List.eq_of_mem_replicate hc ▸ hzero
  · obtain ⟨d, hd, rfl⟩ := List.mem_map.mp hc
    exact hdigits d hd

theorem forall_mem_decimal {p : Char → Prop} (hminus : p '-') (h : ∀ d < 10, p (Nat.digitChar d))
    (i : Int) : ∀ c ∈ decimal.chars i, p c :=
  Format.forall_mem_chars (f := decimal) (by decide) hminus (List.forall_mem_nil _)
    (h 0 (by decide)) h i

theorem decimal_ne_nil (i : Int) : decimal.chars i ≠ [] := by
  rw [decimal_chars]
  exact List.append_ne_nil_of_right_ne_nil _ Nat.toDigits_ne_nil

theorem span_append {p : Char → Bool} {cs rest : List Char} (h : ∀ c ∈ cs, p c = true)
    (hrest : ∀ c ∈ rest.head?, p c = false) :
    (cs ++ rest).takeWhile p = cs ∧ (cs ++ rest).dropWhile p = rest := by
  rw [List.takeWhile_append_of_pos h, List.dropWhile_append_of_pos h]
  cases rest with
  | nil => exact ⟨List.append_nil cs, rfl⟩
  | cons c rest =>
    have hc : ¬ p c = true := Bool.eq_false_iff.mp (hrest c rfl)
    rw [List.takeWhile_cons_of_neg hc, List.dropWhile_cons_of_neg hc]
    exact ⟨List.append_nil cs, rfl⟩

private theorem wellSeparated_of_plain {cs : List Char} (hne : cs ≠ []) (h : '_' ∉ cs) :
    wellSeparated cs = true := by
  induction cs with
  | nil => contradiction
  | cons c cs ih =>
    have hc : c ≠ '_' := fun hc => h (hc ▸ List.mem_cons_self)
    have hcs : '_' ∉ cs := fun hm => h (List.mem_cons_of_mem c hm)
    cases cs with
    | nil => simp [wellSeparated]
    | cons d cs =>
      have hd : d ≠ '_' := fun hd => hcs (hd ▸ List.mem_cons_self)
      have hrest := ih (List.cons_ne_nil d cs) hcs
      simpa [wellSeparated, hc, hd] using hrest

private theorem readDigits_toDigits {n : Nat} (h : (Nat.toDigits 10 n).length ≤ maxDigits) :
    readDigits 10 (Nat.toDigits 10 n) = .ok n := by
  have hrun : ∀ c ∈ Nat.toDigits 10 n, (c == '_' || (digit? 10 c).isSome) = true :=
    forall_mem_toDigits (by decide) (by decide) n
  have hlength : ((Nat.toDigits 10 n).filterMap (digit? 10)).length ≤ maxDigits :=
    Nat.le_trans (List.length_filterMap_le _ _) h
  have hsep := wellSeparated_of_plain Nat.toDigits_ne_nil (Nat.underscore_not_in_toDigits (n := n))
  obtain ⟨htake, hdrop⟩ := @span_append _ _ [] hrun (fun c hc => by cases hc)
  rw [List.append_nil] at htake hdrop
  simp [readDigits, htake, hdrop, hsep, Nat.not_lt.mpr hlength, ofDigits_toDigits]

/-- What may stand in front of a number for its sign, and the integer that both make. -/
inductive Signed (n : Nat) : List Char → Int → Prop where
  | bare : Signed n [] n
  | plus : Signed n ['+'] n
  | minus : Signed n ['-'] (-n)

theorem Signed.forall_mem {n : Nat} {sign : List Char} {v : Int} {p : Char → Prop}
    (h : Signed n sign v) (hplus : p '+') (hminus : p '-') : ∀ c ∈ sign, p c := by
  cases h with
  | bare => exact List.forall_mem_nil p
  | plus => exact List.forall_mem_singleton.mpr hplus
  | minus => exact List.forall_mem_singleton.mpr hminus

theorem Signed.readInteger_eq {radix : Radix} {n : Nat} {sign cs : List Char} {v : Int}
    (h : Signed n sign v)
    (hcs : ∀ c ∈ cs, isPadding c = false ∧ plainDigit c = c ∧ c ≠ '-' ∧ c ≠ '+')
    (hread : readMagnitude radix cs = .ok n) : readInteger radix (sign ++ cs) = .ok v := by
  have hsign : ∀ c ∈ sign, isPadding c = false ∧ plainDigit c = c :=
    h.forall_mem (by decide) (by decide)
  have hplain : ∀ c ∈ sign ++ cs, isPadding c = false ∧ plainDigit c = c :=
    List.forall_mem_append.mpr ⟨hsign, fun c hc => ⟨(hcs c hc).1, (hcs c hc).2.1⟩⟩
  have hmap : (sign ++ cs).map plainDigit = sign ++ cs :=
    (List.map_congr_left fun c hc => (hplain c hc).2).trans (List.map_id' _)
  rw [readInteger, Text.trimBy_eq_self fun c hc => (hplain c hc).1, hmap]
  cases h with
  | plus | minus =>
    simp only [List.singleton_append, hread]
    rfl
  | bare =>
    rw [List.nil_append]
    split
    · exact absurd rfl (hcs '-' List.mem_cons_self).2.2.1
    · exact absurd rfl (hcs '+' List.mem_cons_self).2.2.2
    · rw [hread]
      rfl

private theorem signed_natAbs (i : Int) : Signed i.natAbs (if i < 0 then ['-'] else []) i := by
  by_cases hi : i < 0
  · have hminus := @Signed.minus i.natAbs
    rw [if_pos hi]
    rwa [show -(i.natAbs : Int) = i by omega] at hminus
  · have hbare := @Signed.bare i.natAbs
    rw [if_neg hi]
    rwa [show (i.natAbs : Int) = i by omega] at hbare

theorem readInteger_decimal {i : Int} (h : isWritable i = true) :
    readInteger .decimal (decimal.chars i) = .ok i := by
  rw [decimal_chars]
  exact (signed_natAbs i).readInteger_eq (forall_mem_toDigits (by decide) (by decide) i.natAbs)
    (readDigits_toDigits (length_toDigits_le h))

theorem decimal_injective {i j : Int} (hi : isWritable i = true) (hj : isWritable j = true)
    (h : decimal.chars i = decimal.chars j) : i = j := by
  have hread := readInteger_decimal hi
  rw [h, readInteger_decimal hj] at hread
  exact (Except.ok.inj hread).symm

end FourBit.Numeral
