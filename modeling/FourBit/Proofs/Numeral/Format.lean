import FourBit.Proofs.Numeral.Decimal

/-! Integers that are told apart by their text.
Behind the sign and the mark stand zeros and digits, which together have the value of the integer
without its sign. So a format whose digits can be read writes different integers differently,
however wide it is. -/
namespace FourBit.Numeral.Format
variable {f : Format} {i j : Int}

def letter (f : Format) (d : Nat) : Char :=
  if f.capitals then d.digitChar.toUpper else d.digitChar

/-- A format with digits that can be read, and without a minus sign in its mark. -/
structure Readable (f : Format) : Prop where
  base_gt : 1 < f.base
  letters_read : ∀ d < f.base, digit? f.base (f.letter d) = some d
  mark_unsigned : '-' ∉ f.mark

def body (f : Format) (i : Int) : List Char :=
  List.replicate (f.width - (f.head i).length - (f.digits i).length) '0' ++ f.digits i

theorem chars_eq (f : Format) (i : Int) :
    f.chars i = (if i < 0 then ['-'] else []) ++ (f.mark ++ f.body i) := by
  simp [chars, head, body]

theorem Readable.body_eq (h : f.Readable) (i : Int) : ∃ ds, f.body i = ds.map f.letter ∧
    (∀ d ∈ ds, d < f.base) ∧ ofDigits f.base ds = i.natAbs := by
  obtain ⟨ds, hds, hall, hvalue⟩ := exists_digits h.base_gt i.natAbs
  have hzero : f.letter 0 = '0' := by
    unfold letter
    split <;> rfl
  have hdigits : f.digits i = ds.map f.letter := by
    rw [digits, hds, List.map_map]
    rfl
  refine ⟨List.replicate (f.width - (f.head i).length - (f.digits i).length) 0 ++ ds, ?_, ?_, ?_⟩
  · rw [body, List.map_append, List.map_replicate, hzero, hdigits]
  · intro d hd
    rcases List.mem_append.mp hd with hd | hd
    · rw [List.eq_of_mem_replicate hd]
      exact Nat.lt_trans Nat.one_pos h.base_gt
    · exact hall d hd
  · rw [ofDigits_zeros, hvalue]

theorem Readable.ofDigits_body (h : f.Readable) (i : Int) :
    ofDigits f.base ((f.body i).filterMap (digit? f.base)) = i.natAbs := by
  obtain ⟨ds, hbody, hall, hvalue⟩ := h.body_eq i
  rw [hbody, filterMap_digits h.letters_read hall, hvalue]

theorem Readable.minus_notMem_body (h : f.Readable) (i : Int) : '-' ∉ f.body i := by
  obtain ⟨ds, hbody, hall, -⟩ := h.body_eq i
  have hminus : digit? f.base '-' = none := by
    have hnone : (decimalDigit? '-' <|> digit?.letter? '-') = none := by decide
    rw [digit?, hnone]
    rfl
  intro hmem
  rw [hbody] at hmem
  obtain ⟨d, hd, hletter⟩ := List.mem_map.mp hmem
  have hread := h.letters_read d (hall d hd)
  rw [hletter, hminus] at hread
  cases hread

theorem Readable.minus_mem_iff (h : f.Readable) : '-' ∈ f.chars i ↔ i < 0 := by
  have hrest : '-' ∉ f.mark ++ f.body i := by
    simp [h.mark_unsigned, h.minus_notMem_body i]
  rw [chars_eq, List.mem_append, or_iff_left hrest]
  split <;> simp [*]

theorem Readable.chars_injective (h : f.Readable) (heq : f.chars i = f.chars j) : i = j := by
  have hsign : i < 0 ↔ j < 0 := by rw [← h.minus_mem_iff, ← h.minus_mem_iff, heq]
  have hbody : f.body i = f.body j := by
    rw [chars_eq, chars_eq] at heq
    simpa only [hsign, List.append_cancel_left_eq] using heq
  have habs : i.natAbs = j.natAbs := by rw [← h.ofDigits_body i, ← h.ofDigits_body j, hbody]
  omega

theorem decimal_readable : decimal.Readable := ⟨by decide, by decide, by decide⟩

theorem hex_readable : hex.Readable := ⟨by decide, by decide, by decide⟩

theorem address_readable : address.Readable := ⟨by decide, by decide, by decide⟩

theorem bits_readable : bits.Readable := ⟨by decide, by decide, by decide⟩

end FourBit.Numeral.Format
