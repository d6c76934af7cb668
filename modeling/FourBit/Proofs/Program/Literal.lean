import FourBit.Program
import Mathlib.Data.List.Forall2
import Mathlib.Data.Nat.Digits.Defs

/-! Literals of a program, as they are spelled.
A literal is the mark of a base and digits to that base, with letters in either case; in decimal
there is no mark. A token is the literal that is left of it without its underscores. -/
namespace FourBit.Program
open Numeral

inductive Base where
  | hexadecimal
  | binary
  | octal
  | decimal
  deriving DecidableEq, Repr

namespace Base

def size : Base → Nat
  | hexadecimal => 16
  | binary => 2
  | octal => 8
  | decimal => 10

def marks : Base → List (List Char)
  | hexadecimal => [['0', 'x'], ['0', 'X']]
  | binary => [['0', 'b'], ['0', 'B']]
  | octal => [['0', 'o'], ['0', 'O']]
  | decimal => [[]]

theorem size_le (base : Base) : base.size ≤ 16 := by cases base <;> decide

theorem size_eq_ten_iff {base : Base} : base.size = 10 ↔ base = .decimal := by
  cases base <;> decide

end Base

/-- A number as it is written down: the digits to a base, the most significant first. -/
structure Literal where
  base : Base
  digits : List Nat

namespace Literal

def value (l : Literal) : Nat := Nat.ofDigits l.base.size l.digits.reverse

/-- The decimal digits that are needed to deal with a literal: its own if it is decimal, zeros in
front included, and else those that would show its value. -/
def decimalDigits (l : Literal) : Nat :=
  if l.base = .decimal then l.digits.length else (Nat.toDigits 10 l.value).length

def Oversized (l : Literal) : Prop := maxDigits < l.decimalDigits

end Literal

def IsDigit (base : Nat) (c : Char) (d : Nat) : Prop :=
  d < base ∧ (c = d.digitChar ∨ c = d.digitChar.toUpper)

instance (base : Nat) (c : Char) (d : Nat) : Decidable (IsDigit base c d) :=
  inferInstanceAs (Decidable (d < base ∧ (c = d.digitChar ∨ c = d.digitChar.toUpper)))

/-- The characters of a literal: a mark of its base, and its digits, which are one or more. -/
inductive Spells : List Char → Literal → Prop where
  | intro (base : Base) {mark cs : List Char} {ds : List Nat} (hmark : mark ∈ base.marks)
    (hdigits : List.Forall₂ (IsDigit base.size) cs ds) (hne : ds ≠ []) :
    Spells (mark ++ cs) ⟨base, ds⟩

def Denotes (cs : List Char) (n : Nat) : Prop := ∃ l, Spells cs l ∧ l.value = n

def bare (token : List Char) : List Char := token.filter (· != '_')

private theorem of_toLower_eq {c k : Char} (h : c.toLower = k) :
    c = k ∨ ∃ n < 26, c = Char.ofNat (65 + n) ∧ k = Char.ofNat (97 + n) := by
  have hsmall : ∀ n < 26, (Char.ofNat (65 + n)).toLower = Char.ofNat (97 + n) := by decide
  by_cases hc : 'A'.val ≤ c.val ∧ c.val ≤ 'Z'.val
  · right
    have hle : 65 ≤ c.toNat ∧ c.toNat ≤ 90 := hc
    have hcap : c = Char.ofNat (65 + (c.toNat - 65)) := by
      rw [show 65 + (c.toNat - 65) = c.toNat by omega, Char.ofNat_toNat]
    refine ⟨c.toNat - 65, by omega, hcap, ?_⟩
    rw [← h, hcap, hsmall _ (by omega), ← hcap]
  · left
    have hsame : c.toLower = c := dif_neg hc
    rwa [hsame] at h

private theorem toLower_eq_iff {c k : Char} (hk : ∀ n < 26, k ≠ Char.ofNat (97 + n))
    (hsame : k.toLower = k) : c.toLower = k ↔ c = k := by
  constructor
  · intro h
    rcases of_toLower_eq h with h | ⟨n, hn, -, h⟩
    · exact h
    · exact absurd h (hk n hn)
  · rintro rfl
    exact hsame

theorem plainLiteral_eq {token : List Char} (h : '\n' ∉ token) :
    plainLiteral token = (bare token).map Char.toLower := by
  have hmark (c : Char) : (c.toLower != '_') = (c != '_') := by
    rw [Bool.eq_iff_iff, bne_iff_ne, bne_iff_ne, ne_eq, ne_eq,
      toLower_eq_iff (by decide) (by decide)]
  have hfilter : (token.map Char.toLower).filter (· != '_') = (bare token).map Char.toLower := by
    rw [List.filter_map, bare]
    exact congrArg _ (List.filter_congr fun c _ => hmark c)
  have hlast : ((bare token).map Char.toLower).getLast? ≠ some '\n' := by
    intro hlast
    obtain ⟨c, hc, hfeed⟩ := List.mem_map.mp (List.mem_of_getLast? hlast)
    obtain rfl := (toLower_eq_iff (by decide) (by decide)).mp hfeed
    exact h (List.mem_of_mem_filter hc)
  rw [plainLiteral, hfilter]
  exact if_neg hlast

private theorem digit?_eq_some_iff {base : Nat} (hb : base ≤ 16) {c : Char} {d : Nat} :
    asciiDigit? base c = some d ↔ asciiDigit? 16 c = some d ∧ d < base := by
  unfold asciiDigit? digit?
  split
  · simp only [Option.filter_eq_some_iff, decide_eq_true_eq]
    constructor
    · rintro ⟨h, hd⟩
      exact ⟨⟨h, by omega⟩, hd⟩
    · rintro ⟨⟨h, -⟩, hd⟩
      exact ⟨h, hd⟩
  · simp

theorem asciiDigit?_toLower_iff (base : Base) {c : Char} {d : Nat} :
    asciiDigit? base.size c.toLower = some d ↔ IsDigit base.size c d := by
  have hread : ∀ d < 16, asciiDigit? 16 d.digitChar.toLower = some d ∧
      asciiDigit? 16 d.digitChar.toUpper.toLower = some d := by decide
  have htable : ∀ n < 128, ∀ d ∈ asciiDigit? 16 (Char.ofNat n).toLower,
      Char.ofNat n = d.digitChar ∨ Char.ofNat n = d.digitChar.toUpper := by decide +kernel
  rw [digit?_eq_some_iff base.size_le]
  constructor
  · rintro ⟨h, hd⟩
    refine ⟨hd, ?_⟩
    have hsmall : c.toNat < 128 := by
      rcases of_toLower_eq (rfl : c.toLower = c.toLower) with hc | ⟨n, hn, hc, -⟩
      · refine Nat.lt_of_not_le fun hle => ?_
        rw [← hc, asciiDigit?, if_neg (by omega)] at h
        cases h
      · have hcap : ∀ n < 26, (Char.ofNat (65 + n)).toNat < 128 := by decide
        exact hc ▸ hcap n hn
    have hc := htable c.toNat hsmall
    rw [Char.ofNat_toNat] at hc
    exact hc d h
  · rintro ⟨hd, hc⟩
    have hsixteen := hread d (Nat.lt_of_lt_of_le hd base.size_le)
    rcases hc with rfl | rfl
    · exact ⟨hsixteen.1, hd⟩
    · exact ⟨hsixteen.2, hd⟩

theorem digit?_of_isDigit {base : Base} {c : Char} {d : Nat} (h : IsDigit base.size c d) :
    digit? base.size c = some d := by
  have hread : ∀ d < 16, digit? 16 d.digitChar = some d ∧
      digit? 16 d.digitChar.toUpper = some d := by decide
  obtain ⟨hd, hc⟩ := h
  have hsixteen := hread d (Nat.lt_of_lt_of_le hd base.size_le)
  have hvalue : digit? 16 c = some d := by
    rcases hc with rfl | rfl
    · exact hsixteen.1
    · exact hsixteen.2
  rw [digit?, Option.filter_eq_some_iff] at hvalue ⊢
  exact ⟨hvalue.1, decide_eq_true hd⟩

private theorem mapM_eq_some_iff {α β : Type} {f : α → Option β} {xs : List α} {ys : List β} :
    xs.mapM f = some ys ↔ List.Forall₂ (fun x y => f x = some y) xs ys := by
  induction xs generalizing ys with
  | nil =>
    rw [List.mapM_nil, List.forall₂_nil_left_iff]
    exact ⟨fun h => (Option.some.inj h).symm, fun h => h ▸ rfl⟩
  | cons x xs ih =>
    rw [List.mapM_cons, List.forall₂_cons_left_iff]
    simp only [bind, Option.bind_eq_some_iff, ih, pure, Option.some.injEq]
    constructor
    · rintro ⟨y, hy, ys', hys, rfl⟩
      exact ⟨y, ys', hy, hys, rfl⟩
    · rintro ⟨y, ys', hy, hys, rfl⟩
      exact ⟨y, hy, ys', hys, rfl⟩

private theorem mapM_digits_iff (base : Base) {cs : List Char} {ds : List Nat} :
    (cs.map Char.toLower).mapM (asciiDigit? base.size) = some ds ↔
      List.Forall₂ (IsDigit base.size) cs ds := by
  rw [mapM_eq_some_iff, List.forall₂_map_left_iff]
  simp only [asciiDigit?_toLower_iff]

private theorem literalParts_decimal {cs : List Char} {ds : List Nat}
    (h : List.Forall₂ (IsDigit 10) cs ds) :
    literalParts (cs.map Char.toLower) = (10, cs.map Char.toLower) := by
  have hmark : ∀ d < 10, d.digitChar.toLower ∉ ['x', 'b', 'o'] ∧
      d.digitChar.toUpper.toLower ∉ ['x', 'b', 'o'] := by decide
  have hsecond (ds' : List Char) (c mark : Char) (hm : mark ∈ ['x', 'b', 'o'])
      (heq : cs.map Char.toLower = c :: mark :: ds') : False := by
    obtain ⟨_, rest, rfl, -, hrest⟩ := List.map_eq_cons_iff.mp heq
    obtain ⟨b, _, rfl, rfl, -⟩ := List.map_eq_cons_iff.mp hrest
    cases h with
    | cons _ h =>
      cases h with
      | @cons _ d _ _ hd _ =>
        obtain ⟨hlt, rfl | rfl⟩ := hd
        · exact (hmark d hlt).1 hm
        · exact (hmark d hlt).2 hm
  rw [literalParts.eq_def]
  split
  · rename_i heq
    exact (hsecond _ _ _ (by decide) heq).elim
  · rename_i heq
    exact (hsecond _ _ _ (by decide) heq).elim
  · rename_i heq
    exact (hsecond _ _ _ (by decide) heq).elim
  · rfl

private theorem literalParts_of_spells {cs : List Char} {l : Literal} (h : Spells cs l) :
    ∃ digits, literalParts (cs.map Char.toLower) = (l.base.size, digits) ∧
      digits.mapM (asciiDigit? l.base.size) = some l.digits := by
  cases h with
  | @intro base mark cs ds hmark hdigits hne =>
    refine ⟨cs.map Char.toLower, ?_, (mapM_digits_iff base).mpr hdigits⟩
    cases base with
    | decimal =>
      obtain rfl := List.mem_singleton.mp hmark
      exact literalParts_decimal hdigits
    | _ => obtain rfl | rfl := List.mem_pair.mp hmark <;> rfl

private theorem eq_or_eq_of_toLower {c small capital : Char} (h : c.toLower = small)
    (hcap : ∀ n < 26, small = Char.ofNat (97 + n) → Char.ofNat (65 + n) = capital) :
    c = small ∨ c = capital := by
  rcases of_toLower_eq h with hc | ⟨n, hn, hc, hsmall⟩
  · exact .inl hc
  · exact .inr (hc.trans (hcap n hn hsmall))

private theorem spells_of_marked (base : Base) {cs digits : List Char} {small capital : Char}
    {ds : List Nat} (hmarks : base.marks = [['0', small], ['0', capital]])
    (hcap : ∀ n < 26, small = Char.ofNat (97 + n) → Char.ofNat (65 + n) = capital)
    (hcs : cs.map Char.toLower = '0' :: small :: digits)
    (hdigits : digits.mapM (asciiDigit? base.size) = some ds) (hne : ds ≠ []) :
    Spells cs ⟨base, ds⟩ := by
  obtain ⟨zero, _, rfl, hzero, hrest⟩ := List.map_eq_cons_iff.mp hcs
  obtain ⟨mark, rest, rfl, hmark, rfl⟩ := List.map_eq_cons_iff.mp hrest
  obtain rfl := (toLower_eq_iff (by decide) (by decide)).mp hzero
  refine @Spells.intro base ['0', mark] _ _ ?_ ((mapM_digits_iff base).mp hdigits) hne
  rw [hmarks]
  rcases eq_or_eq_of_toLower hmark hcap with rfl | rfl <;> simp

private theorem spells_of_literalParts {cs digits : List Char} {size : Nat} {ds : List Nat}
    (hparts : literalParts (cs.map Char.toLower) = (size, digits))
    (hdigits : digits.mapM (asciiDigit? size) = some ds) (hne : ds ≠ []) : ∃ l, Spells cs l := by
  rw [literalParts.eq_def] at hparts
  split at hparts
  · rename_i heq
    obtain ⟨rfl, rfl⟩ := Prod.mk.inj hparts
    exact ⟨_, @spells_of_marked .hexadecimal _ _ 'x' 'X' _ rfl (by decide) heq hdigits hne⟩
  · rename_i heq
    obtain ⟨rfl, rfl⟩ := Prod.mk.inj hparts
    exact ⟨_, @spells_of_marked .binary _ _ 'b' 'B' _ rfl (by decide) heq hdigits hne⟩
  · rename_i heq
    obtain ⟨rfl, rfl⟩ := Prod.mk.inj hparts
    exact ⟨_, @spells_of_marked .octal _ _ 'o' 'O' _ rfl (by decide) heq hdigits hne⟩
  · obtain ⟨rfl, rfl⟩ := Prod.mk.inj hparts
    have hforall := (mapM_digits_iff .decimal).mp hdigits
    exact ⟨_, @Spells.intro .decimal [] _ _ List.mem_cons_self hforall hne⟩

theorem ofDigits_eq (base : Nat) (ds : List Nat) :
    ofDigits base ds = Nat.ofDigits base ds.reverse := by
  rw [Nat.ofDigits_eq_foldr, List.foldr_reverse, ofDigits]
  congr 1
  funext n d
  rw [Nat.mul_comm, Nat.add_comm]
  rfl

theorem Spells.digits_ne_nil {cs : List Char} {l : Literal} (h : Spells cs l) : l.digits ≠ [] := by
  cases h
  assumption

theorem Spells.digits_lt {cs : List Char} {l : Literal} (h : Spells cs l) :
    ∀ d ∈ l.digits, d < l.base.size := by
  cases h with
  | @intro base _ cs ds _ hdigits _ =>
    have hflip : List.Forall₂ (fun d c => d < base.size ∧ IsDigit base.size c d) ds cs :=
      List.Forall₂.flip (hdigits.imp fun _ _ hd => ⟨hd.1, hd⟩)
    exact ((List.forall₂_and_left _ _).mp hflip).1

private theorem literalValue?_of_spells {token : List Char} {l : Literal} (hfeed : '\n' ∉ token)
    (h : Spells (bare token) l) :
    literalValue? token =
      if l.base = .decimal ∧ maxDigits < l.digits.length then
        .error (.tooManyDigits l.digits.length)
      else .ok (some l.value) := by
  obtain ⟨digits, hparts, hdigits⟩ := literalParts_of_spells h
  obtain ⟨d, ds, hds⟩ := List.exists_cons_of_ne_nil h.digits_ne_nil
  rw [hds] at hdigits
  rw [literalValue?, plainLiteral_eq hfeed, hparts]
  simp only [hdigits, Bool.and_eq_true, decide_eq_true_eq, Base.size_eq_ten_iff, ofDigits_eq,
    Literal.value, hds]

private theorem literalValue?_of_not_spells {token : List Char} (hfeed : '\n' ∉ token)
    (h : ∀ l, ¬ Spells (bare token) l) : literalValue? token = .ok none := by
  rw [literalValue?, plainLiteral_eq hfeed]
  rcases hparts : literalParts ((bare token).map Char.toLower) with ⟨size, digits⟩
  cases hdigits : digits.mapM (asciiDigit? size) with
  | none => simp only [hdigits]
  | some ds =>
    cases ds with
    | nil => simp only [hdigits]
    | cons d ds =>
      obtain ⟨l, hspells⟩ := spells_of_literalParts hparts hdigits (List.cons_ne_nil d ds)
      exact absurd hspells (h l)

theorem Spells.length_digits_le {cs : List Char} {l : Literal} (h : Spells cs l) :
    l.digits.length ≤ cs.length := by
  cases h with
  | intro base _ hdigits _ =>
    rw [List.length_append, hdigits.length_eq]
    exact Nat.le_add_left _ _

theorem Spells.ne_nil {cs : List Char} {l : Literal} (h : Spells cs l) : cs ≠ [] := by
  rintro rfl
  exact h.digits_ne_nil (List.eq_nil_of_length_eq_zero (Nat.le_zero.mp h.length_digits_le))

theorem Spells.value_lt {cs : List Char} {l : Literal} (h : Spells cs l) :
    l.value < l.base.size ^ l.digits.length := by
  have hlt : l.value < l.base.size ^ l.digits.reverse.length :=
    Nat.ofDigits_lt_base_pow_length (by cases l.base <;> decide) fun d hd =>
      h.digits_lt d (List.mem_reverse.mp hd)
  rwa [List.length_reverse] at hlt

def Reads (token : List Char) (n : Nibble) : Prop :=
  ∃ l, Spells (bare token) l ∧ l.value = n ∧ ¬ l.Oversized

/-- Why a token says no nibble: it is no literal, or that of a greater number. -/
inductive Refused (token : List Char) : Refusal → Prop where
  | notLiteral (h : ∀ l, ¬ Spells (bare token) l) : Refused token .notLiteral
  | tooLarge {l : Literal} (h : Spells (bare token) l) (hl : 16 ≤ l.value) :
    Refused token (.tooLarge l.value)

theorem isWritable_iff_length {n : Nat} :
    isWritable n = true ↔ (Nat.toDigits 10 n).length ≤ maxDigits := by
  have hfew {k : Nat} (hk : 0 < k) : n < Nat.pow 10 k ↔ (Nat.toDigits 10 n).length ≤ k :=
    (Nat.length_toDigits_le_iff (by decide) hk).symm
  rw [isWritable_iff, Int.natAbs_natCast]
  exact hfew (by decide)

private theorem isWritable_of_lt_pow {n k : Nat} (h : n < 10 ^ k) (hk : k ≤ maxDigits) :
    isWritable n = true := by
  have hpow {m : Nat} (hm : k ≤ m) : 10 ^ k ≤ Nat.pow 10 m := Nat.pow_le_pow_right (by decide) hm
  exact isWritable_iff.mpr (Nat.lt_of_lt_of_le h (hpow hk))

theorem Spells.isWritable {cs : List Char} {l : Literal} (h : Spells cs l) (hl : ¬ l.Oversized) :
    isWritable l.value = true := by
  rw [Literal.Oversized, Nat.not_lt, Literal.decimalDigits] at hl
  split at hl
  · rename_i hbase
    have hlt := h.value_lt
    rw [hbase] at hlt
    exact isWritable_of_lt_pow hlt hl
  · exact isWritable_iff_length.mpr hl

theorem Spells.not_oversized {cs : List Char} {l : Literal} (h : Spells cs l)
    (hlength : cs.length ≤ 3000) : ¬ l.Oversized := by
  have hdigits := Nat.le_trans h.length_digits_le hlength
  rw [Literal.Oversized, Nat.not_lt, Literal.decimalDigits]
  split
  · exact Nat.le_trans hdigits (by decide)
  · -- Thirty hexadecimal digits are less than forty-three decimal ones.
    obtain ⟨k, hdigits, hlimit⟩ : ∃ k, l.digits.length ≤ 30 * k ∧ maxDigits = 43 * k :=
      ⟨100, hdigits, rfl⟩
    have hlt : l.value < 10 ^ (43 * k) := calc
      l.value < l.base.size ^ l.digits.length := h.value_lt
      _ ≤ 16 ^ l.digits.length := Nat.pow_le_pow_left l.base.size_le _
      _ ≤ 16 ^ (30 * k) := Nat.pow_le_pow_right (by decide) hdigits
      _ = (16 ^ 30) ^ k := Nat.pow_mul 16 30 k
      _ ≤ (10 ^ 43) ^ k := Nat.pow_le_pow_left (by decide) k
      _ = 10 ^ (43 * k) := (Nat.pow_mul 10 43 k).symm
    exact isWritable_iff_length.mp (isWritable_of_lt_pow hlt (Nat.le_of_eq hlimit.symm))

theorem Spells.forall_mem {p : Char → Bool} {cs : List Char} {l : Literal} (h : Spells cs l)
    (hmarks : ['0', 'x', 'X', 'b', 'B', 'o', 'O'].all p = true)
    (hchars : ∀ d < 16, p d.digitChar = true ∧ p d.digitChar.toUpper = true) :
    ∀ c ∈ cs, p c = true := by
  have hmark (base : Base) :
      ∀ mark ∈ base.marks, mark ⊆ ['0', 'x', 'X', 'b', 'B', 'o', 'O'] := by
    cases base <;> decide
  cases h with
  | @intro base mark _ _ hmem hdigits _ =>
    refine List.forall_mem_append.mpr
      ⟨fun c hc => List.all_eq_true.mp hmarks c (hmark base mark hmem hc), ?_⟩
    refine ((List.forall₂_and_left _ _).mp (hdigits.imp fun c d hc => ⟨?_, hc⟩)).1
    obtain ⟨hd, rfl | rfl⟩ := hc
    · exact (hchars d (Nat.lt_of_lt_of_le hd base.size_le)).1
    · exact (hchars d (Nat.lt_of_lt_of_le hd base.size_le)).2

theorem nibble_of_spells {token : List Char} {l : Literal} (hfeed : '\n' ∉ token)
    (h : Spells (bare token) l) (hl : ¬ l.Oversized) (line : Int) :
    nibble token line =
      if hv : l.value < 16 then .ok ⟨l.value, hv⟩
      else .error (.badLine line (.ofList token) (.tooLarge l.value)) := by
  have hread : literalValue? token = .ok (some l.value) := by
    rw [literalValue?_of_spells hfeed h, if_neg]
    rintro ⟨hbase, hlong⟩
    exact hl (by rwa [Literal.Oversized, Literal.decimalDigits, if_pos hbase])
  rw [nibble, hread]
  split
  · rename_i hv
    simp [bind, Except.bind, hv, pure, Except.pure]
  · rename_i hv
    simp [bind, Except.bind, hv, writeDecimal, h.isWritable hl]
    rfl

theorem nibble_of_oversized {token : List Char} {l : Literal} (hfeed : '\n' ∉ token)
    (h : Spells (bare token) l) (hl : l.Oversized) (line : Int) :
    nibble token line = .error (.tooManyDigits l.decimalDigits) := by
  rw [Literal.Oversized, Literal.decimalDigits] at hl
  rw [nibble, literalValue?_of_spells hfeed h, Literal.decimalDigits]
  split at hl
  · rename_i hbase
    rw [if_pos ⟨hbase, hl⟩, if_pos hbase]
    rfl
  · rename_i hbase
    have hlong : isWritable l.value = false := by
      rw [Bool.eq_false_iff, ne_eq, isWritable_iff_length]
      omega
    have hlarge : ¬ l.value < 16 := fun hv => by
      rw [isWritable_of_lt (by omega)] at hlong
      cases hlong
    rw [if_neg (fun hs => hbase hs.1), if_neg hbase]
    simp [bind, Except.bind, hlarge, writeDecimal, hlong]
    rfl

theorem nibble_of_not_spells {token : List Char} (hfeed : '\n' ∉ token)
    (h : ∀ l, ¬ Spells (bare token) l) (line : Int) :
    nibble token line = .error (.badLine line (.ofList token) .notLiteral) := by
  rw [nibble, literalValue?_of_not_spells hfeed h]
  rfl

theorem nibble_cases {token : List Char} (hfeed : '\n' ∉ token) (line : Int) :
    (∃ n, Reads token n ∧ nibble token line = .ok n) ∨
    (∃ reason, Refused token reason ∧
      nibble token line = .error (.badLine line (.ofList token) reason)) ∨
    ∃ l, Spells (bare token) l ∧ l.Oversized ∧
      nibble token line = .error (.tooManyDigits l.decimalDigits) := by
  by_cases hs : ∃ l, Spells (bare token) l
  · obtain ⟨l, h⟩ := hs
    by_cases hl : l.Oversized
    · exact .inr (.inr ⟨l, h, hl, nibble_of_oversized hfeed h hl line⟩)
    · have hread := nibble_of_spells hfeed h hl line
      by_cases hv : l.value < 16
      · rw [dif_pos hv] at hread
        exact .inl ⟨⟨l.value, hv⟩, ⟨l, h, rfl, hl⟩, hread⟩
      · rw [dif_neg hv] at hread
        exact .inr (.inl ⟨_, .tooLarge h (Nat.not_lt.mp hv), hread⟩)
  · have hs : ∀ l, ¬ Spells (bare token) l := fun l h => hs ⟨l, h⟩
    exact .inr (.inl ⟨_, .notLiteral hs, nibble_of_not_spells hfeed hs line⟩)

theorem nibble_eq_ok_iff {token : List Char} (hfeed : '\n' ∉ token) {line : Int} {n : Nibble} :
    nibble token line = .ok n ↔ Reads token n := by
  constructor
  · intro hn
    rcases nibble_cases hfeed line with ⟨n', hreads, hn'⟩ | ⟨_, -, he⟩ | ⟨_, -, -, he⟩
    · obtain rfl := Except.ok.inj (hn.symm.trans hn')
      exact hreads
    · exact absurd (hn.symm.trans he) nofun
    · exact absurd (hn.symm.trans he) nofun
  · rintro ⟨l, h, hvalue, hl⟩
    have hv : l.value < 16 := hvalue ▸ n.isLt
    rw [nibble_of_spells hfeed h hl, dif_pos hv]
    exact congrArg Except.ok (Fin.ext hvalue)

end FourBit.Program
