import FourBit.Text.Blank
import FourBit.Text.Lines

/-! Lines and blanks of a text that is put together.
A line ends at a break and nowhere else, so a text behind a break is divided as it would be alone.
Trimming takes the blanks off that stand at the ends. -/
namespace FourBit.Text

theorem lines_crlf (cs : List Char) : lines ('\r' :: '\n' :: cs) = [] :: lines cs := rfl

theorem lines_break {c : Char} {cs : List Char} (hc : isBreak c = true)
    (h : c = '\r' → cs.head? ≠ some '\n') : lines (c :: cs) = [] :: lines cs := by
  rw [lines, if_pos hc]
  rintro rest hreturn rfl
  exact h hreturn rfl

theorem lines_cons {c : Char} (hc : isBreak c = false) (cs : List Char) :
    lines (c :: cs) = consLine c (lines cs) := by
  rw [lines, if_neg (by rw [hc]; exact Bool.false_ne_true)]
  rintro _ rfl -
  cases hc

theorem lines_line {line rest : List Char} {ls : List (List Char)}
    (hline : ∀ c ∈ line, isBreak c = false) (hrest : lines rest = [] :: ls) :
    lines (line ++ rest) = line :: ls := by
  induction line with
  | nil => exact hrest
  | cons c line ih =>
    rw [List.cons_append, lines_cons (hline c List.mem_cons_self),
      ih fun d hd => hline d (List.mem_cons_of_mem c hd)]
    rfl

theorem lines_of_no_break {line : List Char} (hline : ∀ c ∈ line, isBreak c = false)
    (hne : line ≠ []) : lines line = [line] := by
  induction line with
  | nil => exact absurd rfl hne
  | cons c line ih =>
    rw [lines_cons (hline c List.mem_cons_self)]
    cases line with
    | nil => rfl
    | cons d line =>
      rw [ih (fun e he => hline e (List.mem_cons_of_mem c he)) (List.cons_ne_nil d line)]
      rfl

theorem isBreak_of_mem_lines {cs line : List Char} (h : line ∈ lines cs) :
    ∀ c ∈ line, isBreak c = false := by
  induction cs using lines.induct generalizing line with
  | case1 => cases h
  | case2 cs ih =>
    rw [lines_crlf] at h
    rcases List.mem_cons.mp h with rfl | h
    · exact fun _ => nofun
    · exact ih h
  | case3 c cs hcrlf hc ih =>
    rw [lines, if_pos hc] at h
    · rcases List.mem_cons.mp h with rfl | h
      · exact fun _ => nofun
      · exact ih h
    · exact hcrlf
  | case4 c cs _ hc ih =>
    have hc : isBreak c = false := Bool.eq_false_iff.mpr hc
    rw [lines_cons hc] at h
    cases hlines : lines cs with
    | nil =>
      rw [hlines] at h
      obtain rfl := List.mem_singleton.mp h
      exact List.forall_mem_singleton.mpr hc
    | cons first rest =>
      rw [hlines] at h ih
      rcases List.mem_cons.mp h with rfl | h
      · exact List.forall_mem_cons.mpr ⟨hc, ih List.mem_cons_self⟩
      · exact ih (List.mem_cons_of_mem first h)

theorem lines_ne_nil {cs : List Char} (h : cs ≠ []) : lines cs ≠ [] := by
  induction cs using lines.induct with
  | case1 => contradiction
  | case2 cs => exact List.cons_ne_nil _ _
  | case3 c cs hcrlf hc =>
    rw [lines, if_pos hc]
    · exact List.cons_ne_nil _ _
    · exact hcrlf
  | case4 c cs _ hc =>
    rw [lines_cons (Bool.eq_false_iff.mpr hc)]
    cases lines cs <;> exact List.cons_ne_nil _ _

private theorem consLine_append (c : Char) {ls : List (List Char)} (h : ls ≠ [])
    (ls' : List (List Char)) : consLine c (ls ++ ls') = consLine c ls ++ ls' := by
  cases ls with
  | nil => contradiction
  | cons first rest => rfl

theorem lines_append {p : List Char} (h : p.getLast? = some '\n') (t : List Char) :
    lines (p ++ t) = lines p ++ lines t := by
  induction p using lines.induct with
  | case1 => cases h
  | case2 cs ih =>
    rw [List.cons_append, List.cons_append, lines_crlf, lines_crlf, List.cons_append]
    cases cs with
    | nil => rfl
    | cons c cs => rw [ih (by simpa using h)]
  | case3 c cs hcrlf hc ih =>
    cases cs with
    | nil =>
      obtain rfl : c = '\n' := Option.some.inj h
      rfl
    | cons d cs =>
      have hnext (cs : List Char) : c = '\r' → (d :: cs).head? ≠ some '\n' := by
        intro hreturn hfeed
        obtain rfl := Option.some.inj hfeed
        exact hcrlf _ hreturn rfl
      rw [List.cons_append, List.cons_append, lines_break hc (hnext _), lines_break hc (hnext _),
        ← List.cons_append, ih (by simpa using h)]
      rfl
  | case4 c cs _ hc ih =>
    have hc : isBreak c = false := Bool.eq_false_iff.mpr hc
    cases cs with
    | nil =>
      obtain rfl : c = '\n' := Option.some.inj h
      cases hc
    | cons d cs =>
      rw [List.cons_append, lines_cons hc, lines_cons hc, ih (by simpa using h),
        consLine_append c (lines_ne_nil (List.cons_ne_nil d cs))]

private theorem dropWhile_eq_self {drops : Char → Bool} {cs : List Char}
    (h : ∀ c ∈ cs, drops c = false) : cs.dropWhile drops = cs := by
  cases cs with
  | nil => rfl
  | cons c cs => rw [List.dropWhile_cons_of_neg (by rw [h c List.mem_cons_self]; simp)]

theorem trimBy_between {drops : Char → Bool} {front cs back : List Char}
    (hfront : ∀ c ∈ front, drops c = true) (hcs : ∀ c ∈ cs, drops c = false)
    (hback : ∀ c ∈ back, drops c = true) : trimBy drops (front ++ (cs ++ back)) = cs := by
  rw [trimBy, List.dropWhile_append_of_pos hfront]
  cases cs with
  | nil =>
    rw [List.nil_append, ← List.append_nil back, List.dropWhile_append_of_pos hback]
    rfl
  | cons c cs =>
    have hreverse : ∀ d ∈ (c :: cs).reverse, drops d = false := fun d hd =>
      hcs d (List.mem_reverse.mp hd)
    rw [List.cons_append, List.dropWhile_cons_of_neg (by rw [hcs c List.mem_cons_self]; simp),
      ← List.cons_append, List.reverse_append,
      List.dropWhile_append_of_pos fun d hd => hback d (List.mem_reverse.mp hd),
      dropWhile_eq_self hreverse, List.reverse_reverse]

theorem trimBy_eq_self {drops : Char → Bool} {cs : List Char} (h : ∀ c ∈ cs, drops c = false) :
    trimBy drops cs = cs := by
  have hbetween := @trimBy_between drops [] cs [] (fun _ => nofun) h fun _ => nofun
  rwa [List.append_nil] at hbetween

theorem mem_of_mem_trimBy {drops : Char → Bool} {cs : List Char} {c : Char}
    (h : c ∈ trimBy drops cs) : c ∈ cs := by
  have hinner := (List.dropWhile_sublist drops).subset (List.mem_reverse.mp h)
  exact (List.dropWhile_sublist drops).subset (List.mem_reverse.mp hinner)

end FourBit.Text
