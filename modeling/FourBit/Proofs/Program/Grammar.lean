import FourBit.Proofs.Program.Literal
import FourBit.Proofs.Text.Lines

/-! Programs by their lines: a text is a program if each line that says something says a nibble.
Otherwise the first line that says something else decides what is wrong. A line of common length is
always short enough to be read, and then underscores are all that the grammar of literals leaves
out. -/
namespace FourBit.Program
open Numeral Text

def contents (ls : List (List Char)) : List (List Char) := (ls.map content).filter (· ≠ [])

/-- The first of the lines that says something else than what is accepted: how many lines are in
front of it, and what it says. -/
def FirstOffence (accepted : List Char → Prop) (ls : List (List Char)) (k : Nat)
    (token : List Char) : Prop :=
  ∃ front raw back, ls = front ++ raw :: back ∧ k = front.length ∧ token = content raw ∧
    token ≠ [] ∧ ¬ accepted token ∧
      ∀ earlier ∈ front, content earlier = [] ∨ accepted (content earlier)

section Offences
variable {accepted : List Char → Prop} {raw token : List Char} {ls : List (List Char)} {k : Nat}

private theorem not_firstOffence_nil : ¬ FirstOffence accepted [] k token := by
  rintro ⟨front, _, _, hls, -⟩
  exact absurd hls (by simp)

private theorem firstOffence_passed (h : content raw = [] ∨ accepted (content raw)) :
    FirstOffence accepted (raw :: ls) k token ↔
      ∃ k', k = k' + 1 ∧ FirstOffence accepted ls k' token := by
  constructor
  · rintro ⟨front, bad, back, hls, rfl, htoken, hne, hbad, hfront⟩
    cases front with
    | nil =>
      obtain ⟨rfl, rfl⟩ := List.cons.inj hls
      rcases h with h | h
      · exact absurd (htoken.trans h) hne
      · exact absurd (htoken ▸ h) hbad
    | cons first front =>
      obtain ⟨rfl, rfl⟩ := List.cons.inj hls
      exact ⟨front.length, rfl, front, bad, back, rfl, rfl, htoken, hne, hbad,
        fun earlier he => hfront earlier (List.mem_cons_of_mem raw he)⟩
  · rintro ⟨_, rfl, front, bad, back, rfl, rfl, htoken, hne, hbad, hfront⟩
    exact ⟨raw :: front, bad, back, rfl, rfl, htoken, hne, hbad,
      List.forall_mem_cons.mpr ⟨h, hfront⟩⟩

private theorem firstOffence_here (hne : content raw ≠ []) (h : ¬ accepted (content raw)) :
    FirstOffence accepted (raw :: ls) k token ↔ k = 0 ∧ token = content raw := by
  constructor
  · rintro ⟨front, bad, back, hls, rfl, htoken, -, -, hfront⟩
    cases front with
    | nil =>
      obtain ⟨rfl, rfl⟩ := List.cons.inj hls
      exact ⟨rfl, htoken⟩
    | cons first front =>
      obtain ⟨rfl, rfl⟩ := List.cons.inj hls
      exact ((hfront raw List.mem_cons_self).elim hne h).elim
  · rintro ⟨rfl, rfl⟩
    exact ⟨[], raw, ls, rfl, rfl, rfl, hne, h, fun _ => nofun⟩

end Offences

theorem contents_cons (raw : List Char) (ls : List (List Char)) :
    contents (raw :: ls) =
      if content raw = [] then contents ls else content raw :: contents ls := by
  rw [contents, List.map_cons, List.filter_cons]
  split <;> simp_all [contents]

theorem contents_append (ls ls' : List (List Char)) :
    contents (ls ++ ls') = contents ls ++ contents ls' := by
  rw [contents, List.map_append, List.filter_append]
  rfl

def Accepted (token : List Char) : Prop := ∃ n, Reads token n

section Lines
variable {ls : List (List Char)} {line : Int}

theorem nibbles_passed {raw : List Char} (h : content raw = []) :
    nibbles line (raw :: ls) = nibbles (line + 1) ls := by
  rw [nibbles, h]
  rfl

theorem nibbles_read {raw : List Char} {n : Nibble} (hne : content raw ≠ [])
    (h : nibble (content raw) line = .ok n) :
    nibbles line (raw :: ls) = (nibbles (line + 1) ls).map (n :: ·) := by
  rw [nibbles, if_neg (by simpa using hne), h]
  cases nibbles (line + 1) ls <;> rfl

theorem nibbles_refused {raw : List Char} {e : Error} (hne : content raw ≠ [])
    (h : nibble (content raw) line = .error e) : nibbles line (raw :: ls) = .error e := by
  rw [nibbles, if_neg (by simpa using hne), h]
  rfl

theorem nibbles_eq_ok_iff (hfeed : ∀ raw ∈ ls, '\n' ∉ content raw) {ns : List Nibble} :
    nibbles line ls = .ok ns ↔ List.Forall₂ Reads (contents ls) ns := by
  induction ls generalizing line ns with
  | nil =>
    rw [contents, List.map_nil, List.filter_nil, List.forall₂_nil_left_iff]
    exact ⟨fun h => (Except.ok.inj h).symm, fun h => h ▸ rfl⟩
  | cons raw ls ih =>
    obtain ⟨hraw, hls⟩ := List.forall_mem_cons.mp hfeed
    rw [contents_cons]
    by_cases hne : content raw = []
    · rw [if_pos hne, nibbles_passed hne, ih hls]
    · rw [if_neg hne, List.forall₂_cons_left_iff]
      constructor
      · intro h
        cases hn : nibble (content raw) line with
        | error e => exact absurd ((nibbles_refused hne hn).symm.trans h) nofun
        | ok n =>
          rw [nibbles_read hne hn] at h
          cases hrest : nibbles (line + 1) ls with
          | error e => rw [hrest] at h; cases h
          | ok rest =>
            rw [hrest] at h
            obtain rfl := Except.ok.inj h
            exact ⟨n, rest, (nibble_eq_ok_iff hraw).mp hn, (ih hls).mp hrest, rfl⟩
      · rintro ⟨n, rest, hn, hrest, rfl⟩
        rw [nibbles_read hne ((nibble_eq_ok_iff hraw).mpr hn), (ih hls).mpr hrest]
        rfl

theorem nibbles_eq_error_iff (hfeed : ∀ raw ∈ ls, '\n' ∉ content raw) {e : Error} :
    nibbles line ls = .error e ↔ ∃ (k : Nat) (token : List Char),
      FirstOffence Accepted ls k token ∧ nibble token (line + k) = .error e := by
  induction ls generalizing line with
  | nil => exact ⟨nofun, fun ⟨_, _, h, _⟩ => (not_firstOffence_nil h).elim⟩
  | cons raw ls ih =>
    obtain ⟨hraw, hls⟩ := List.forall_mem_cons.mp hfeed
    have hpassed (h : content raw = [] ∨ Accepted (content raw)) :
        nibbles (line + 1) ls = .error e ↔ ∃ (k : Nat) (token : List Char),
          FirstOffence Accepted (raw :: ls) k token ∧ nibble token (line + k) = .error e := by
      have hnumber (k : Nat) : line + 1 + k = line + (k + 1 : Nat) := by omega
      simp only [ih hls, firstOffence_passed h, hnumber]
      constructor
      · rintro ⟨k, token, hfirst, he⟩
        exact ⟨k + 1, token, ⟨k, rfl, hfirst⟩, he⟩
      · rintro ⟨_, token, ⟨k, rfl, hfirst⟩, he⟩
        exact ⟨k, token, hfirst, he⟩
    by_cases hne : content raw = []
    · rw [nibbles_passed hne]
      exact hpassed (.inl hne)
    · cases hn : nibble (content raw) line with
      | ok n =>
        have hmap : nibbles line (raw :: ls) = .error e ↔ nibbles (line + 1) ls = .error e := by
          rw [nibbles_read hne hn]
          cases nibbles (line + 1) ls with
          | error _ => exact Iff.rfl
          | ok _ => exact ⟨nofun, nofun⟩
        exact hmap.trans (hpassed (.inr ⟨n, (nibble_eq_ok_iff hraw).mp hn⟩))
      | error e' =>
        have hbad : ¬ Accepted (content raw) := by
          rintro ⟨n, hreads⟩
          exact absurd (((nibble_eq_ok_iff hraw).mpr hreads).symm.trans hn) nofun
        rw [nibbles_refused hne hn]
        simp only [firstOffence_here hne hbad]
        constructor
        · intro he
          refine ⟨0, _, ⟨rfl, rfl⟩, ?_⟩
          rw [Int.natCast_zero, Int.add_zero, hn, Except.error.inj he]
        · rintro ⟨_, _, ⟨rfl, rfl⟩, he⟩
          rw [Int.natCast_zero, Int.add_zero, hn] at he
          exact congrArg Except.error (Except.error.inj he)

end Lines

private theorem mem_of_mem_beforeComment {cs : List Char} {c : Char} (h : c ∈ beforeComment cs) :
    c ∈ cs := by
  induction cs with
  | nil => exact h
  | cons d cs ih =>
    rw [beforeComment] at h
    split at h
    · cases h
    · rcases List.mem_cons.mp h with rfl | h
      · exact List.mem_cons_self
      · exact List.mem_cons_of_mem d (ih h)

theorem mem_of_mem_content {line : List Char} {c : Char} (h : c ∈ content line) : c ∈ line :=
  mem_of_mem_beforeComment (mem_of_mem_trimBy h)

theorem feed_notMem_content {cs : List Char} :
    ∀ raw ∈ lines cs, '\n' ∉ content raw := by
  intro raw hraw hfeed
  have hbreak := isBreak_of_mem_lines hraw '\n' (mem_of_mem_content hfeed)
  cases hbreak

theorem parse_eq_ok_iff {text : String} {ns : List Nibble} :
    parse text = .ok ns ↔ List.Forall₂ Reads (contents (lines text.toList)) ns :=
  nibbles_eq_ok_iff feed_notMem_content

theorem parse_eq_error_iff {text : String} {e : Error} :
    parse text = .error e ↔ ∃ (k : Nat) (token : List Char),
      FirstOffence Accepted (lines text.toList) k token ∧ nibble token (k + 1) = .error e := by
  simp only [parse, nibbles_eq_error_iff feed_notMem_content, Int.add_comm 1]

theorem FirstOffence.mem_contents {accepted : List Char → Prop} {ls : List (List Char)} {k : Nat}
    {token : List Char} (h : FirstOffence accepted ls k token) : token ∈ contents ls := by
  obtain ⟨front, raw, back, rfl, -, rfl, hne, -⟩ := h
  refine List.mem_filter.mpr ⟨List.mem_map_of_mem ?_, by simpa using hne⟩
  exact List.mem_append_right front List.mem_cons_self

theorem feed_notMem_of_mem_contents {cs token : List Char}
    (h : token ∈ contents (lines cs)) : '\n' ∉ token := by
  obtain ⟨raw, hraw, rfl⟩ := List.mem_map.mp (List.mem_of_mem_filter h)
  exact feed_notMem_content raw hraw

/-- A text that is no program is refused at its first offence, or this is a literal beyond the
limit. -/
theorem parse_error_cases {text : String} {e : Error} (h : parse text = .error e) :
    ∃ (k : Nat) (token : List Char), FirstOffence Accepted (lines text.toList) k token ∧
      ((∃ reason, Refused token reason ∧ e = .badLine (k + 1) (.ofList token) reason) ∨
        ∃ l, Spells (bare token) l ∧ l.Oversized ∧ e = .tooManyDigits l.decimalDigits) := by
  obtain ⟨k, token, hfirst, hn⟩ := parse_eq_error_iff.mp h
  refine ⟨k, token, hfirst, ?_⟩
  rcases nibble_cases (feed_notMem_of_mem_contents hfirst.mem_contents) (k + 1) with
    ⟨n, -, hok⟩ | ⟨reason, hrefused, hbad⟩ | ⟨l, hl, hlong, hmany⟩
  · exact absurd (hok.symm.trans hn) nofun
  · exact .inl ⟨reason, hrefused, Except.error.inj (hn.symm.trans hbad)⟩
  · exact .inr ⟨l, hl, hlong, Except.error.inj (hn.symm.trans hmany)⟩

private theorem FirstOffence.congr {accepted accepted' : List Char → Prop} {ls : List (List Char)}
    {k : Nat} {token : List Char} (h : FirstOffence accepted ls k token)
    (hsame : ∀ token ∈ contents ls, accepted token ↔ accepted' token) :
    FirstOffence accepted' ls k token := by
  have htoken := hsame token h.mem_contents
  obtain ⟨front, raw, back, rfl, hk, hraw, hne, hbad, hfront⟩ := h
  refine ⟨front, raw, back, rfl, hk, hraw, hne, mt htoken.mpr hbad, fun earlier he => ?_⟩
  by_cases hnone : content earlier = []
  · exact .inl hnone
  · have hmem : content earlier ∈ contents (front ++ raw :: back) :=
      List.mem_filter.mpr ⟨List.mem_map_of_mem (List.mem_append_left _ he), by simpa using hnone⟩
    exact .inr ((hsame _ hmem).mp ((hfront earlier he).resolve_left hnone))

/-- A token that says a nibble, however long its literal is. -/
def SaysNibble (token : List Char) (n : Nibble) : Prop := Denotes (bare token) n

private theorem length_bare_le (token : List Char) : (bare token).length ≤ token.length :=
  List.length_filter_le _ token

private theorem reads_iff_of_short {token : List Char} (h : token.length ≤ 3000) {n : Nibble} :
    Reads token n ↔ SaysNibble token n := by
  constructor
  · rintro ⟨l, hl, hvalue, -⟩
    exact ⟨l, hl, hvalue⟩
  · rintro ⟨l, hl, hvalue⟩
    exact ⟨l, hl, hvalue, hl.not_oversized (Nat.le_trans (length_bare_le token) h)⟩

private theorem forall₂_congr_of_mem {α β : Type} {R S : α → β → Prop} {xs : List α} {ys : List β}
    (h : ∀ x ∈ xs, ∀ y, R x y ↔ S x y) : List.Forall₂ R xs ys ↔ List.Forall₂ S xs ys := by
  induction xs generalizing ys with
  | nil => rw [List.forall₂_nil_left_iff, List.forall₂_nil_left_iff]
  | cons x xs ih =>
    obtain ⟨hx, hxs⟩ := List.forall_mem_cons.mp h
    simp only [List.forall₂_cons_left_iff, hx, ih hxs]

/-- The grammar of programs, for lines that say something in at most three thousand characters. A
text is a program if and only if each such line, without its underscores, is the literal of a
nibble, and the nibbles in the order of their lines are the program. Any other text is refused for
the first line that is none, with its number and what it says, either as no literal or for its
value. -/
theorem parse_follows_grammar (text : String)
    (h : ∀ token ∈ contents (lines text.toList), token.length ≤ 3000) :
    (∀ ns, parse text = .ok ns ↔ List.Forall₂ SaysNibble (contents (lines text.toList)) ns) ∧
    ((∀ ns, parse text ≠ .ok ns) → ∃ (k : Nat) (token : List Char) (reason : Refusal),
      FirstOffence (fun token => ∃ n, SaysNibble token n) (lines text.toList) k token ∧
        Refused token reason ∧
          parse text = .error (.badLine (k + 1) (.ofList token) reason)) := by
  have hreads : ∀ token ∈ contents (lines text.toList), ∀ n, Reads token n ↔ SaysNibble token n :=
    fun token htoken _ => reads_iff_of_short (h token htoken)
  constructor
  · exact fun ns => parse_eq_ok_iff.trans (forall₂_congr_of_mem hreads)
  · intro hparse
    cases he : parse text with
    | ok ns => exact absurd he (hparse ns)
    | error e =>
      obtain ⟨k, token, hfirst, hwhy⟩ := parse_error_cases he
      have hfirst' := hfirst.congr fun token htoken => exists_congr (hreads token htoken)
      rcases hwhy with ⟨reason, hrefused, rfl⟩ | ⟨l, hl, hlong, -⟩
      · exact ⟨k, token, reason, hfirst', hrefused, rfl⟩
      · have hlength := Nat.le_trans (length_bare_le token) (h token hfirst.mem_contents)
        exact absurd hlong (hl.not_oversized hlength)

private def mixed : String := "0xA # ten\n\n0B11\r\n 0o7;\n009"

private def thirdLineBad : String := "1\n\nx"

/-- A program in all four bases, and a text with something else than a literal on its third line. -/
theorem parse_follows_grammar_of_mixed :
    (∀ token ∈ contents (lines mixed.toList), token.length ≤ 3000) ∧
    parse mixed = .ok [10, 3, 7, 9] ∧
    List.Forall₂ SaysNibble (contents (lines mixed.toList)) [10, 3, 7, 9] ∧
    (∀ token ∈ contents (lines thirdLineBad.toList), token.length ≤ 3000) ∧
    parse thirdLineBad = .error (.badLine 3 "x" .notLiteral) ∧
    FirstOffence (fun token => ∃ n, SaysNibble token n) (lines thirdLineBad.toList) 2 ['x'] := by
  have h : ∀ token ∈ contents (lines mixed.toList), token.length ≤ 3000 := by decide
  have hread : parse mixed = .ok [10, 3, 7, 9] := rfl
  have h' : ∀ token ∈ contents (lines thirdLineBad.toList), token.length ≤ 3000 := by decide
  have hrefused : parse thirdLineBad = .error (.badLine 3 "x" .notLiteral) := rfl
  refine ⟨h, hread, ((parse_follows_grammar _ h).1 _).mp hread, h', hrefused, ?_⟩
  obtain ⟨k, token, reason, hfirst, -, he⟩ := (parse_follows_grammar _ h').2 fun ns hns =>
    absurd (hrefused.symm.trans hns) nofun
  obtain ⟨hline, htext, -⟩ := Error.badLine.inj (Except.error.inj (hrefused.symm.trans he))
  obtain rfl : k = 2 := by omega
  obtain rfl : ['x'] = token := by
    rw [← String.toList_ofList (l := token), ← htext]
    rfl
  exact hfirst

/-- An underscore is in no literal, yet a line with one in it is read. -/
theorem underscored_line_read :
    contents (lines "1_0".toList) = ["1_0".toList] ∧ "1_0".toList.length ≤ 3000 ∧
      (∀ n, ¬ Denotes "1_0".toList n) ∧ parse "1_0" = .ok [10] := by
  refine ⟨by decide, by decide, ?_, rfl⟩
  rintro n ⟨l, hl, -⟩
  have hmark := hl.forall_mem (p := (· != '_')) (by decide) (by decide) '_' (by decide)
  cases hmark

end FourBit.Program
