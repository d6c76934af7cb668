import FourBit.Proofs.Numeral.Decimal
import FourBit.Proofs.Program.Literal
import Mathlib.Data.Nat.Digits.Lemmas

/-! Integer literals of every base, read back.
An integer has many literals: with or without a plus sign, to one of four bases, with the letters of
marks and digits in either case, and with underscores between digits. Each of them is read as that
integer, if its decimal digits are within the limit. -/
namespace FourBit.Numeral
open Program (Base IsDigit Literal Spells bare digit?_of_isDigit)

/-- Digits to a base, the most significant first, with one underscore at most between any two. -/
inductive Run (base : Nat) : List Char → List Nat → Prop where
  | last {c : Char} {d : Nat} (hc : IsDigit base c d) : Run base [c] [d]
  | next {c : Char} {d : Nat} {cs : List Char} {ds : List Nat} (hc : IsDigit base c d)
    (hrest : Run base cs ds) : Run base (c :: cs) (d :: ds)
  | gap {c : Char} {d : Nat} {cs : List Char} {ds : List Nat} (hc : IsDigit base c d)
    (hrest : Run base cs ds) : Run base (c :: '_' :: cs) (d :: ds)

/-- The literals of an integer. In decimal no zero stands in front of another digit. -/
inductive Renders : List Char → Int → Prop where
  | intro {sign mark run : List Char} {ds : List Nat} {v : Int} (base : Base)
    (hsign : Signed (Literal.value ⟨base, ds⟩) sign v) (hmark : mark ∈ base.marks)
    (hrun : Run base.size run ds) (hlead : base = .decimal → ds.head? = some 0 → ds = [0]) :
    Renders (sign ++ (mark ++ run)) v

section Digits
variable {base : Base} {c : Char} {d : Nat} {cs : List Char} {ds : List Nat}

theorem digit?_underscore (base : Nat) : digit? base '_' = none := by
  have hnone : (decimalDigit? '_' <|> digit?.letter? '_') = none := by decide
  rw [digit?, hnone]
  rfl

theorem ne_underscore_of_isDigit (h : IsDigit base.size c d) : c ≠ '_' := by
  rintro rfl
  cases (digit?_underscore base.size).symm.trans (digit?_of_isDigit h)

theorem Run.head_isDigit (h : Run base.size cs ds) :
    ∃ c d, cs.head? = some c ∧ ds.head? = some d ∧ IsDigit base.size c d := by
  cases h with
  | last hc | next hc _ | gap hc _ => exact ⟨_, _, rfl, rfl, hc⟩

theorem Run.wellSeparated_eq (h : Run base.size cs ds) : wellSeparated cs = true := by
  induction h with
  | last hc => simp [wellSeparated, ne_underscore_of_isDigit hc]
  | @next c _ cs _ hc hrest ih =>
    obtain ⟨c', _, hhead, -, hc'⟩ := hrest.head_isDigit
    obtain ⟨cs', rfl⟩ := List.head?_eq_some_iff.mp hhead
    simpa [wellSeparated, ne_underscore_of_isDigit hc, ne_underscore_of_isDigit hc'] using ih
  | gap hc _ ih => simpa [wellSeparated, ne_underscore_of_isDigit hc] using ih

theorem Run.filterMap_eq (h : Run base.size cs ds) : cs.filterMap (digit? base.size) = ds := by
  induction h with
  | last hc => rw [List.filterMap_cons_some (digit?_of_isDigit hc), List.filterMap_nil]
  | next hc _ ih => rw [List.filterMap_cons_some (digit?_of_isDigit hc), ih]
  | gap hc _ ih =>
    rw [List.filterMap_cons_some (digit?_of_isDigit hc),
      List.filterMap_cons_none (digit?_underscore base.size), ih]

theorem Run.inRun (h : Run base.size cs ds) :
    ∀ c ∈ cs, (c == '_' || (digit? base.size c).isSome) = true := by
  induction h with
  | last hc => simp [digit?_of_isDigit hc]
  | next hc _ ih => exact List.forall_mem_cons.mpr ⟨by simp [digit?_of_isDigit hc], ih⟩
  | gap hc _ ih =>
    exact List.forall_mem_cons.mpr
      ⟨by simp [digit?_of_isDigit hc], List.forall_mem_cons.mpr ⟨rfl, ih⟩⟩

theorem Run.spells {mark : List Char} (h : Run base.size cs ds) (hmark : mark ∈ base.marks) :
    Spells (bare (mark ++ cs)) ⟨base, ds⟩ := by
  have hplain (base : Base) : ∀ mark ∈ base.marks, bare mark = mark := by cases base <;> decide
  have hdigits : List.Forall₂ (IsDigit base.size) (bare cs) ds := by
    induction h with
    | last hc => simpa [bare, ne_underscore_of_isDigit hc] using hc
    | next hc _ ih => simpa [bare, ne_underscore_of_isDigit hc] using ⟨hc, ih⟩
    | gap hc _ ih => simpa [bare, ne_underscore_of_isDigit hc] using ⟨hc, ih⟩
  obtain ⟨_, d, -, hhead, -⟩ := h.head_isDigit
  have hbare : bare (mark ++ cs) = mark ++ bare cs := by
    rw [bare, List.filter_append, ← bare, ← bare, hplain base mark hmark]
  rw [hbare]
  refine .intro base hmark hdigits ?_
  rintro rfl
  cases hhead

theorem Run.forall_mem {p : Char → Bool} {mark : List Char} (h : Run base.size cs ds)
    (hmark : mark ∈ base.marks) (hunderscore : p '_' = true)
    (hmarks : ['0', 'x', 'X', 'b', 'B', 'o', 'O'].all p = true)
    (hchars : ∀ d < 16, p d.digitChar = true ∧ p d.digitChar.toUpper = true) :
    ∀ c ∈ mark ++ cs, p c = true := by
  intro c hc
  by_cases hu : c = '_'
  · exact hu ▸ hunderscore
  · exact (h.spells hmark).forall_mem hmarks hchars c (List.mem_filter.mpr ⟨hc, by simpa using hu⟩)

theorem Run.readDigits_eq (h : Run base.size cs ds)
    (hlimit : base = .decimal → ds.length ≤ maxDigits) :
    readDigits base.size cs = .ok (Literal.value ⟨base, ds⟩) := by
  have hfew : ¬ (base.size = 10 ∧ maxDigits < ds.length) := by
    rintro ⟨hten, hlong⟩
    exact Nat.not_lt.mpr (hlimit (Base.size_eq_ten_iff.mp hten)) hlong
  obtain ⟨htake, hdrop⟩ := @span_append _ _ [] h.inRun (fun c hc => by cases hc)
  rw [List.append_nil] at htake hdrop
  rw [Literal.value, ← Program.ofDigits_eq]
  simp [readDigits, htake, hdrop, h.wellSeparated_eq, h.filterMap_eq, hfew]

private theorem readMarked_of_mark {letter : Char} (h : Run base.size cs ds)
    (hletter : markedBase? letter = some base.size) :
    readMarked ('0' :: letter :: cs) = readDigits base.size cs := by
  obtain ⟨c, d, hhead, -, hc⟩ := h.head_isDigit
  obtain ⟨rest, rfl⟩ := List.head?_eq_some_iff.mp hhead
  rw [readMarked]
  simp only [hletter]
  split
  · rename_i heq
    exact absurd (List.cons.inj heq).1 (ne_underscore_of_isDigit hc)
  · rfl

private theorem markedBase?_of_inRun {c : Char} (h : (c == '_' || (digit? 10 c).isSome) = true) :
    markedBase? c = none := by
  have hletters : ['x', 'X', 'o', 'O', 'b', 'B'].all
      (fun letter => !(letter == '_' || (digit? 10 letter).isSome)) = true := by decide
  have hc (letter : Char) (hl : letter ∈ ['x', 'X', 'o', 'O', 'b', 'B']) : c ≠ letter := by
    rintro rfl
    have hnot := List.all_eq_true.mp hletters c hl
    rw [h] at hnot
    cases hnot
  simp [markedBase?, hc]

private theorem readMarked_of_decimal (h : Run 10 cs ds) : readMarked cs = readUnmarked cs := by
  rw [readMarked.eq_def]
  split
  · rename_i letter rest
    have hletter := @Run.inRun .decimal _ _ h letter (by simp)
    simp only [markedBase?_of_inRun hletter]
  · rfl

private theorem readUnmarked_of_run (h : Run 10 cs ds) (hlimit : ds.length ≤ maxDigits)
    (hlead : ds.head? = some 0 → ds = [0]) :
    readUnmarked cs = .ok (Literal.value ⟨.decimal, ds⟩) := by
  have hread := @Run.readDigits_eq .decimal _ _ h fun _ => hlimit
  have hzero : cs.head? = some '0' → Literal.value ⟨.decimal, ds⟩ = 0 := by
    intro hcs
    obtain ⟨c, d, hc, hd, hdigit⟩ := @Run.head_isDigit .decimal _ _ h
    obtain rfl := Option.some.inj (hc.symm.trans hcs)
    have hvalue := (@digit?_of_isDigit .decimal _ _ hdigit).symm.trans
      (by decide : digit? 10 '0' = some 0)
    rw [hlead (hd.trans hvalue)]
    rfl
  rw [readUnmarked]
  change (readDigits Base.decimal.size cs >>= _) = _
  rw [hread]
  by_cases hcs : cs.head? = some '0'
  · simp [bind, Except.bind, hzero hcs, pure, Except.pure]
  · simp [bind, Except.bind, hcs, pure, Except.pure]

theorem Run.readMarked_eq {mark : List Char} (h : Run base.size cs ds) (hmark : mark ∈ base.marks)
    (hlead : base = .decimal → ds.head? = some 0 → ds = [0])
    (hlimit : base = .decimal → ds.length ≤ maxDigits) :
    readMarked (mark ++ cs) = .ok (Literal.value ⟨base, ds⟩) := by
  cases base with
  | decimal =>
    obtain rfl := List.mem_singleton.mp hmark
    rw [List.nil_append, readMarked_of_decimal h]
    exact readUnmarked_of_run h (hlimit rfl) (hlead rfl)
  | _ =>
    rw [← h.readDigits_eq hlimit]
    obtain rfl | rfl := List.mem_pair.mp hmark <;> exact readMarked_of_mark h rfl

end Digits

section Integers
variable {ds : List Nat} {text : List Char} {v : Int}

theorem length_le_of_lead {k : Nat} (hk : 0 < k) (hlead : ds.head? = some 0 → ds = [0])
    (h : (Nat.toDigits 10 (Literal.value ⟨.decimal, ds⟩)).length ≤ k) : ds.length ≤ k := by
  cases ds with
  | nil => exact Nat.zero_le k
  | cons d ds =>
    by_cases hd : d = 0
    · rw [hlead (congrArg some hd)]
      exact hk
    · -- The first digit alone makes the value at least ten to the number of the others.
      have hlast : (d :: ds).reverse.getLast (by simp) ≠ 0 := by simpa using hd
      have hlow : 10 ^ (d :: ds).reverse.length ≤ 10 * Literal.value ⟨.decimal, d :: ds⟩ :=
        @Nat.pow_length_le_mul_ofDigits 8 _ (by simp) hlast
      have hhigh : Literal.value ⟨.decimal, d :: ds⟩ < 10 ^ k :=
        (Nat.length_toDigits_le_iff (by decide) hk).mp h
      have hpow : 10 ^ (d :: ds).reverse.length < 10 ^ (k + 1) := by
        rw [Nat.pow_succ]
        omega
      rw [List.length_reverse, Nat.pow_lt_pow_iff_right (by decide)] at hpow
      exact Nat.lt_succ_iff.mp hpow

theorem Signed.natAbs_eq {n : Nat} {sign : List Char} (h : Signed n sign v) : v.natAbs = n := by
  cases h with
  | bare | plus => exact Int.natAbs_natCast n
  | minus => exact Int.natAbs_neg n

theorem Renders.forall_mem {p : Char → Bool} (h : Renders text v)
    (hsigns : ['+', '-', '_'].all p = true)
    (hmarks : ['0', 'x', 'X', 'b', 'B', 'o', 'O'].all p = true)
    (hchars : ∀ d < 16, p d.digitChar = true ∧ p d.digitChar.toUpper = true) :
    ∀ c ∈ text, p c = true := by
  have hmem := List.all_eq_true.mp hsigns
  cases h with
  | intro base hsign hmark hrun _ =>
    exact List.forall_mem_append.mpr
      ⟨hsign.forall_mem (hmem '+' (by decide)) (hmem '-' (by decide)),
        hrun.forall_mem hmark (hmem '_' (by decide)) hmarks hchars⟩

theorem readInteger_of_renders (h : Renders text v)
    (hv : (Nat.toDigits 10 v.natAbs).length ≤ maxDigits) : readInteger .marked text = .ok v := by
  cases h with
  | @intro sign mark run ds _ base hsign hmark hrun hlead =>
    rw [hsign.natAbs_eq] at hv
    have hlimit : base = .decimal → ds.length ≤ maxDigits := by
      rintro rfl
      exact length_le_of_lead (by decide) (hlead rfl) hv
    have hplain := hrun.forall_mem (p := fun c => decide (isPadding c = false ∧ plainDigit c = c ∧
      c ≠ '-' ∧ c ≠ '+')) hmark (by decide) (by decide) (by decide)
    simp only [decide_eq_true_eq] at hplain
    exact hsign.readInteger_eq hplain (hrun.readMarked_eq hmark hlead hlimit)

end Integers
end FourBit.Numeral
