import FourBit.Proofs.Program.Grammar

/-! Texts that render a program.
A nibble stands on a line as any literal of it, with blanks around it and a comment behind; there
may be lines without a nibble, and any breaks between lines. Each such text is read as its
program. -/
namespace FourBit.Program
open Numeral Text

def breaks : List Char :=
  ['\n', '\r', '\x0b', '\x0c', '\x1c', '\x1d', '\x1e', '\x85', '\u2028', '\u2029']

/-- What stands between two lines: a break, or the two that count as one. -/
inductive Break : List Char → Prop where
  | single {c : Char} (h : c ∈ breaks) : Break [c]
  | pair : Break ['\r', '\n']

def IsUnbroken (cs : List Char) : Prop := ∀ c ∈ cs, c ∉ breaks

def IsGap (cs : List Char) : Prop := ∀ c ∈ cs, isBlank c = true ∧ c ∉ breaks

instance (cs : List Char) : Decidable (IsUnbroken cs) := List.decidableBAll _ cs

instance (cs : List Char) : Decidable (IsGap cs) := List.decidableBAll _ cs

/-- The end of a line behind what it says: nothing, or a comment. -/
inductive Remark : List Char → Prop where
  | none : Remark []
  | comment {mark words : List Char} (hmark : mark ∈ [['#'], [';'], ['/', '/']])
    (hwords : IsUnbroken words) : Remark (mark ++ words)

/-- A line with a nibble, or without one. Decimal literals are within the limit. -/
inductive Line : List Char → Option Nibble → Prop where
  | blank {gap remark : List Char} (hgap : IsGap gap) (hremark : Remark remark) :
    Line (gap ++ remark) none
  | nibble {front token back remark : List Char} {l : Literal} {n : Nibble} (hfront : IsGap front)
    (h : Spells token l) (hvalue : l.value = n)
    (hlength : l.base = .decimal → l.digits.length ≤ maxDigits) (hback : IsGap back)
    (hremark : Remark remark) : Line (front ++ (token ++ (back ++ remark))) (some n)

/-- Lines with breaks between them, and the nibbles on them. -/
inductive Renders : List Char → List Nibble → Prop where
  | last {line : List Char} {said : Option Nibble} (h : Line line said) : Renders line said.toList
  | more {line ending rest : List Char} {said : Option Nibble} {ns : List Nibble}
    (h : Line line said) (hbreak : Break ending) (hrest : Renders rest ns) :
    Renders (line ++ (ending ++ rest)) (said.toList ++ ns)

private theorem isBreak_iff {c : Char} : isBreak c = true ↔ c ∈ breaks := by
  constructor
  · intro h
    have hcode (n : Nat) (hn : c.toNat = n) : c = Char.ofNat n := by rw [← hn, Char.ofNat_toNat]
    simp only [isBreak, Bool.or_eq_true, Bool.and_eq_true, decide_eq_true_eq, beq_iff_eq] at h
    have hcases : c.toNat = 0x0A ∨ c.toNat = 0x0B ∨ c.toNat = 0x0C ∨ c.toNat = 0x0D ∨
        c.toNat = 0x1C ∨ c.toNat = 0x1D ∨ c.toNat = 0x1E ∨ c.toNat = 0x85 ∨ c.toNat = 0x2028 ∨
          c.toNat = 0x2029 := by omega
    rcases hcases with h | h | h | h | h | h | h | h | h | h <;> rw [hcode _ h] <;> decide
  · exact List.all_eq_true.mp (show breaks.all isBreak = true from rfl) c

private theorem isBreak_eq_false {c : Char} (h : c ∉ breaks) : isBreak c = false :=
  Bool.eq_false_iff.mpr (mt isBreak_iff.mp h)

def commentStarts : List Char := ['#', ';', '/']

private theorem atComment_eq_false {c : Char} (h : c ∉ commentStarts) (cs : List Char) :
    atComment (c :: cs) = false := by
  rw [atComment.eq_def]
  split
  · rename_i heq
    exact absurd ((List.cons.inj heq).1 ▸ List.mem_cons_self) h
  · rename_i heq
    exact absurd ((List.cons.inj heq).1 ▸ by decide) h
  · rename_i heq
    exact absurd ((List.cons.inj heq).1 ▸ by decide) h
  · rfl

private theorem beforeComment_append {front : List Char} (h : ∀ c ∈ front, c ∉ commentStarts)
    (back : List Char) : beforeComment (front ++ back) = front ++ beforeComment back := by
  induction front with
  | nil => rfl
  | cons c front ih =>
    obtain ⟨hc, hfront⟩ := List.forall_mem_cons.mp h
    rw [List.cons_append, beforeComment, atComment_eq_false hc, ih hfront]
    rfl

private theorem beforeComment_of_atComment {c : Char} {cs : List Char}
    (h : atComment (c :: cs) = true) (hfeed : '\n' ∉ cs) : beforeComment (c :: cs) = [] := by
  have hinner : cs.dropLast.contains '\n' = false :=
    Bool.eq_false_iff.mpr fun h => hfeed ((List.dropLast_subset cs) (List.contains_iff_mem.mp h))
  rw [beforeComment, h, hinner]
  rfl

private theorem beforeComment_remark {cs : List Char} (h : Remark cs) : beforeComment cs = [] := by
  cases h with
  | none => rfl
  | @comment mark words hmark hwords =>
    have hfeed : '\n' ∉ words := fun h => hwords _ h (by decide)
    obtain rfl | rfl | rfl : mark = ['#'] ∨ mark = [';'] ∨ mark = ['/', '/'] := by simpa using hmark
    · exact beforeComment_of_atComment rfl hfeed
    · exact beforeComment_of_atComment rfl hfeed
    · exact beforeComment_of_atComment rfl (List.not_mem_cons_of_ne_of_not_mem (by decide) hfeed)

theorem content_line {front token back remark : List Char} (hfront : IsGap front)
    (htoken : ∀ c ∈ token, isBlank c = false ∧ c ∉ commentStarts) (hback : IsGap back)
    (hremark : Remark remark) : content (front ++ (token ++ (back ++ remark))) = token := by
  have hgap {gap : List Char} (hgap : IsGap gap) : ∀ c ∈ gap, c ∉ commentStarts := by
    intro c hc hstart
    have hnone := List.all_eq_true.mp (show commentStarts.all (!isBlank ·) = true from rfl) c hstart
    rw [(hgap c hc).1] at hnone
    cases hnone
  rw [content, beforeComment_append (hgap hfront), beforeComment_append fun c hc => (htoken c hc).2,
    beforeComment_append (hgap hback), beforeComment_remark hremark, List.append_nil]
  exact trimBy_between (fun c hc => (hfront c hc).1) (fun c hc => (htoken c hc).1)
    fun c hc => (hback c hc).1

/-- Neither a blank nor a break, neither an underscore nor the beginning of a comment. -/
private def isPlain (c : Char) : Bool :=
  !isBlank c && !commentStarts.contains c && (!breaks.contains c && c != '_')

private theorem Spells.plain_chars {token : List Char} {l : Literal} (h : Spells token l) :
    ∀ c ∈ token, (isBlank c = false ∧ c ∉ commentStarts) ∧ c ∉ breaks ∧ (c != '_') = true := by
  intro c hc
  have hplain := h.forall_mem (p := isPlain) (by decide) (by decide) c hc
  simpa [isPlain] using hplain

theorem Spells.bare_eq {token : List Char} {l : Literal} (h : Spells token l) :
    bare token = token := List.filter_eq_self.mpr fun c hc => (h.plain_chars c hc).2.2

private theorem reads_of_spells {token : List Char} {l : Literal} {n : Nibble} (h : Spells token l)
    (hvalue : l.value = n) (hlength : l.base = .decimal → l.digits.length ≤ maxDigits) :
    Reads token n := by
  refine ⟨l, h.bare_eq.symm ▸ h, hvalue, ?_⟩
  rw [Literal.Oversized, Nat.not_lt, Literal.decimalDigits]
  split
  · rename_i hbase
    exact hlength hbase
  · exact isWritable_iff_length.mp (isWritable_of_lt (by omega))

private theorem Remark.isUnbroken {cs : List Char} (h : Remark cs) : IsUnbroken cs := by
  cases h with
  | none => exact fun _ => nofun
  | @comment mark words hmark hwords =>
    have hmarks : ∀ mark ∈ [['#'], [';'], ['/', '/']], IsUnbroken mark := by decide
    exact List.forall_mem_append.mpr ⟨hmarks mark hmark, hwords⟩

private theorem Line.isUnbroken {line : List Char} {said : Option Nibble} (h : Line line said) :
    IsUnbroken line := by
  cases h with
  | blank hgap hremark =>
    exact List.forall_mem_append.mpr ⟨fun c hc => (hgap c hc).2, hremark.isUnbroken⟩
  | nibble hfront h _ _ hback hremark =>
    simp only [IsUnbroken, List.forall_mem_append]
    exact ⟨fun c hc => (hfront c hc).2, fun c hc => (h.plain_chars c hc).2.1,
      fun c hc => (hback c hc).2, hremark.isUnbroken⟩

private theorem Line.reads {line : List Char} {said : Option Nibble} (h : Line line said) :
    List.Forall₂ Reads (contents [line]) said.toList := by
  cases h with
  | @blank gap remark hgap hremark =>
    have hnone : content (gap ++ remark) = [] :=
      @content_line gap [] [] remark hgap (fun _ => nofun) (fun _ => nofun) hremark
    rw [contents_cons, if_pos hnone]
    exact .nil
  | nibble hfront h hvalue hlength hback hremark =>
    have hcontent := content_line hfront (fun c hc => (h.plain_chars c hc).1) hback hremark
    rw [contents_cons, hcontent, if_neg h.ne_nil]
    exact .cons (reads_of_spells h hvalue hlength) .nil

private theorem contents_line_append {line ending : List Char} (hline : IsUnbroken line)
    (hbreak : Break ending) (rest : List Char) :
    contents (lines (line ++ (ending ++ rest))) = contents [line] ++ contents (lines rest) := by
  have hplain : ∀ c ∈ line, isBreak c = false := fun c hc => isBreak_eq_false (hline c hc)
  have hlast {ls : List (List Char)} (h : lines (ending ++ rest) = [] :: ls) :
      contents (lines (line ++ (ending ++ rest))) = contents [line] ++ contents ls := by
    rw [lines_line hplain h, ← contents_append]
    rfl
  cases hbreak with
  | pair => exact hlast (lines_crlf rest)
  | @single c hc =>
    have hc := isBreak_iff.mpr hc
    by_cases hpair : c = '\r' ∧ rest.head? = some '\n'
    · -- The break and the one behind it count as one: there is an empty line less.
      obtain ⟨rfl, hhead⟩ := hpair
      obtain ⟨rest, rfl⟩ := List.head?_eq_some_iff.mp hhead
      rw [hlast (lines_crlf rest), lines_break (c := '\n') rfl nofun, contents_cons [],
        if_pos (show content [] = [] from rfl)]
    · exact hlast (lines_break hc fun hr hn => hpair ⟨hr, hn⟩)

theorem Spells.lines_eq {token : List Char} {l : Literal} (h : Spells token l) :
    lines token = [token] ∧ content token = token := by
  have hplain : ∀ c ∈ token, isBreak c = false := fun c hc =>
    isBreak_eq_false (h.plain_chars c hc).2.1
  have hcontent := @content_line [] token [] [] (fun _ => nofun)
    (fun c hc => (h.plain_chars c hc).1) (fun _ => nofun) .none
  rw [List.append_nil, List.append_nil] at hcontent
  exact ⟨lines_of_no_break hplain h.ne_nil, hcontent⟩

private theorem contents_lines {line : List Char} (hline : IsUnbroken line) :
    contents (lines line) = contents [line] := by
  by_cases hne : line = []
  · rw [hne]
    rfl
  · rw [lines_of_no_break (fun c hc => isBreak_eq_false (hline c hc)) hne]

private theorem Renders.reads {text : List Char} {ns : List Nibble} (h : Renders text ns) :
    List.Forall₂ Reads (contents (lines text)) ns := by
  induction h with
  | last h =>
    rw [contents_lines h.isUnbroken]
    exact h.reads
  | more h hbreak _ ih =>
    rw [contents_line_append h.isUnbroken hbreak]
    exact List.rel_append h.reads ih

theorem parse_rendering {text : String} {ns : List Nibble} (h : Renders text.toList ns) :
    parse text = .ok ns := parse_eq_ok_iff.mpr h.reads

private def rendered : String := "\t0X0a\u00a0# ten; // x\r\n;\n0b0011\u2028//\x0b 007\x850O17;/"

/-- A rendering in all four bases, with breaks of several kinds, blanks that are none, a mark of a
comment in a comment, and lines with a comment only. -/
theorem parse_rendering_of_six_lines :
    Renders rendered.toList [10, 3, 7, 15] ∧ parse rendered = .ok [10, 3, 7, 15] := by
  have hten : Spells "0X0a".toList ⟨.hexadecimal, [0, 10]⟩ :=
    @Spells.intro .hexadecimal ['0', 'X'] ['0', 'a'] _ (by decide) (by decide) (by decide)
  have hthree : Spells "0b0011".toList ⟨.binary, [0, 0, 1, 1]⟩ :=
    @Spells.intro .binary ['0', 'b'] "0011".toList _ (by decide) (by decide) (by decide)
  have hseven : Spells "007".toList ⟨.decimal, [0, 0, 7]⟩ :=
    @Spells.intro .decimal [] "007".toList _ (by decide) (by decide) (by decide)
  have hfifteen : Spells "0O17".toList ⟨.octal, [1, 7]⟩ :=
    @Spells.intro .octal ['0', 'O'] ['1', '7'] _ (by decide) (by decide) (by decide)
  have hfirst : Line "\t0X0a\u00a0# ten; // x".toList (some 10) :=
    @Line.nibble ['\t'] _ ['\u00a0'] _ _ _ (by decide) hten rfl nofun (by decide)
      (@Remark.comment ['#'] " ten; // x".toList (by decide) (by decide))
  have hthird : Line "0b0011".toList (some 3) :=
    @Line.nibble [] _ [] [] _ _ (by decide) hthree rfl nofun (by decide) .none
  have hfifth : Line " 007".toList (some 7) :=
    @Line.nibble [' '] _ [] [] _ _ (by decide) hseven rfl (fun _ => by decide) (by decide) .none
  have hlast : Line "0O17;/".toList (some 15) :=
    @Line.nibble [] _ [] _ _ _ (by decide) hfifteen rfl nofun (by decide)
      (@Remark.comment [';'] ['/'] (by decide) (by decide))
  have hremark (mark : List Char) (hmark : mark ∈ [['#'], [';'], ['/', '/']]) : Line mark none :=
    @Line.blank [] mark (by decide)
      (List.append_nil mark ▸ @Remark.comment mark [] hmark (by decide))
  have h : Renders rendered.toList [10, 3, 7, 15] :=
    .more hfirst .pair <| .more (hremark [';'] (by decide)) (.single (by decide)) <|
      .more hthird (.single (by decide)) <| .more (hremark ['/', '/'] (by decide))
        (.single (by decide)) <| .more hfifth (.single (by decide)) (.last hlast)
  exact ⟨h, parse_rendering h⟩

end FourBit.Program
