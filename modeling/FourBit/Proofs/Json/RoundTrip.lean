import FourBit.Json.Reader
import FourBit.Proofs.Json.Token

/-! Documents that are written and read again.
Reading a written document goes through the cursors of its containers; each part of the text takes
one cursor to the next, whatever stands behind it. -/
namespace FourBit.Json
open Numeral Token CodeText

variable {τ : Type}

/-- Documents without floats, integers of too many digits, and pairs of surrogates. -/
inductive Exact [CodeText τ] : Json τ → Prop where
  | null : Exact null
  | bool (b : Bool) : Exact (bool b)
  | int {i : Int} (h : isWritable i = true) : Exact (int i)
  | str {s : τ} (h : Unpaired s) : Exact (str s)
  | array {items : List (Json τ)} (h : ∀ j ∈ items, Exact j) : Exact (array items)
  | object {members : List (τ × Json τ)} (names : ∀ p ∈ members, Unpaired p.1)
    (h : ∀ p ∈ members, Exact p.2) : Exact (object members)

def ExactMember [CodeText τ] (p : τ × Json τ) : Prop := Unpaired p.1 ∧ p.2.Exact

theorem Exact.of_members [CodeText τ] {members : List (τ × Json τ)}
    (h : ∀ p ∈ members, ExactMember p) : Exact (Json.object members) :=
  .object (fun p hp => (h p hp).1) fun p hp => (h p hp).2

private def Opens (c : Cursor τ) (frames : List (Frame τ)) : Prop :=
  ∀ token, token ≠ .closeArray → c.step token = Cursor.begin frames token

private theorem opens_value (frames : List (Frame τ)) : Opens (.value frames) frames :=
  fun _ _ => rfl

private theorem opens_item (frames : List (Frame τ)) :
    Opens (.item frames) (.array [] :: frames) := by
  intro token h
  cases token with
  | closeArray => contradiction
  | _ => rfl

variable [CodeText τ]

/-- Reading a text from a cursor comes to reading the rest of it from another one. -/
def Reads (c : Cursor τ) (cs : List Char) (c' : Cursor τ) (rest : List Char) : Prop :=
  ∀ fuel, cs.length ≤ fuel → ∃ fuel', rest.length ≤ fuel' ∧
    readFrom c (scan fuel cs) = readFrom c' (scan fuel' rest)

variable {c c' c'' : Cursor τ} {cs rest rest' : List Char} {frames : List (Frame τ)}

private theorem Reads.trans (h : Reads c cs c' rest) (h' : Reads c' rest c'' rest') :
    Reads c cs c'' rest' := by
  intro fuel hfuel
  obtain ⟨fuel₁, hle₁, he₁⟩ := h fuel hfuel
  obtain ⟨fuel₂, hle₂, he₂⟩ := h' fuel₁ hle₁
  exact ⟨fuel₂, hle₂, he₁.trans he₂⟩

private theorem reads_space (c : Cursor τ) (cs : List Char) : Reads c (' ' :: cs) c cs := by
  intro fuel hfuel
  refine ⟨fuel, Nat.le_of_succ_le hfuel, ?_⟩
  cases fuel with
  | zero => cases hfuel
  | succ fuel => rfl

private theorem reads_token {token : Token τ} {x : Char} (hx : isSpace x = false)
    (hnext : next? (x :: cs) = some (token, rest)) (hle : rest.length ≤ cs.length)
    (hstep : c.step token = .ok c') : Reads c (x :: cs) c' rest := by
  intro fuel hfuel
  cases fuel with
  | zero => cases hfuel
  | succ fuel =>
    refine ⟨fuel, Nat.le_trans hle (Nat.le_of_succ_le_succ hfuel), ?_⟩
    have hdrop : (x :: cs).dropWhile isSpace = x :: cs :=
      List.dropWhile_cons_of_neg (Bool.eq_false_iff.mp hx)
    rw [scan, hdrop]
    simp only [hnext]
    rw [readFrom, hstep]

/-- Wherever a value may begin, the text of the document is read as the document. -/
private def Readable (j : Json τ) : Prop :=
  ∀ c frames rest, Opens c frames → Ends rest → Reads c (j.chars ++ rest) (.after j frames) rest

private theorem ends_cons {x : Char} (h : x = ',' ∨ x = ']' ∨ x = '\x7d') (rest : List Char) :
    Ends (x :: rest) := by
  intro y hy
  rwa [← Option.some.inj hy]

private theorem separated_cons (part next : List Char) (parts : List (List Char)) :
    separated (part :: next :: parts) = part ++ ',' :: ' ' :: separated (next :: parts) := rfl

private theorem reads_string {s : τ} (h : Unpaired s) (hstep : c.step (.str s) = .ok c')
    (rest : List Char) :
    Reads c (writeString s ++ rest) c' rest := by
  have hnext := next?_string h rest
  rw [writeString, List.cons_append, List.cons_append] at hnext ⊢
  refine reads_token (by decide) hnext ?_ hstep
  rw [List.length_append]
  exact Nat.le_add_left _ _

private theorem reads_items {j : Json τ} {items seen : List (Json τ)} (hj : Readable j)
    (h : ∀ k ∈ items, Readable k) (hc : Opens c (.array seen :: frames)) (tail : List Char) :
    Reads c (separated (itemChars (j :: items)) ++ ']' :: tail)
      (.after (.array (seen.reverse ++ j :: items)) frames) tail := by
  induction items generalizing j seen c with
  | nil =>
    have hclose : Reads (.after j (.array seen :: frames)) (']' :: tail)
        (.after (.array (j :: seen).reverse) frames) tail :=
      reads_token rfl rfl (Nat.le_refl _) rfl
    rw [List.reverse_cons] at hclose
    exact (hj c _ _ hc (ends_cons (.inr (.inl rfl)) tail)).trans hclose
  | cons k items ih =>
    have hrest := ih (h k List.mem_cons_self) (fun k' hk => h k' (List.mem_cons_of_mem k hk))
      (opens_value (.array (j :: seen) :: frames))
    have hcomma (cs : List Char) : Reads (.after j (.array seen :: frames)) (',' :: cs)
        (.value (.array (j :: seen) :: frames)) cs := reads_token rfl rfl (Nat.le_refl _) rfl
    rw [itemChars, itemChars, separated_cons, ← itemChars, List.append_assoc, List.cons_append,
      List.cons_append]
    rw [List.reverse_cons, List.append_assoc] at hrest
    exact (hj c _ _ hc (ends_cons (.inl rfl) _)).trans
      ((hcomma _).trans ((reads_space _ _).trans hrest))

private theorem reads_member {name : τ} {j : Json τ} {seen : List (τ × Json τ)}
    {first : Bool} (hname : Unpaired name) (hj : Readable j) (hrest : Ends rest) :
    Reads (.name seen frames first) (writeString name ++ ':' :: ' ' :: j.chars ++ rest)
      (.after j (.object seen name :: frames)) rest := by
  have hcolon (cs : List Char) : Reads (.colon seen name frames) (':' :: cs)
      (.value (.object seen name :: frames)) cs := reads_token rfl rfl (Nat.le_refl _) rfl
  rw [List.append_assoc, List.cons_append, List.cons_append]
  exact (reads_string hname rfl _).trans ((hcolon _).trans ((reads_space _ _).trans
    (hj _ _ _ (opens_value _) hrest)))

private theorem reads_members {name : τ} {j : Json τ} {members seen : List (τ × Json τ)}
    {first : Bool} (hname : Unpaired name) (hj : Readable j)
    (h : ∀ p ∈ members, Unpaired p.1 ∧ Readable p.2) (tail : List Char) :
    Reads (.name seen frames first)
      (separated (memberChars ((name, j) :: members)) ++ '\x7d' :: tail)
      (.after (.object (seen.reverse ++ (name, j) :: members)) frames) tail := by
  induction members generalizing name j seen first with
  | nil =>
    have hclose : Reads (.after j (.object seen name :: frames)) ('\x7d' :: tail)
        (.after (.object ((name, j) :: seen).reverse) frames) tail :=
      reads_token rfl rfl (Nat.le_refl _) rfl
    rw [List.reverse_cons] at hclose
    exact (reads_member hname hj (ends_cons (.inr (.inr rfl)) tail)).trans hclose
  | cons p members ih =>
    obtain ⟨name', k⟩ := p
    obtain ⟨hname', hk⟩ := h (name', k) List.mem_cons_self
    have hrest := @ih name' k ((name, j) :: seen) false hname' hk
      fun p hp => h p (List.mem_cons_of_mem _ hp)
    have hcomma (cs : List Char) : Reads (.after j (.object seen name :: frames)) (',' :: cs)
        (.name ((name, j) :: seen) frames false) cs := reads_token rfl rfl (Nat.le_refl _) rfl
    rw [memberChars, memberChars, separated_cons, ← memberChars, List.append_assoc,
      List.cons_append, List.cons_append]
    rw [List.reverse_cons, List.append_assoc] at hrest
    exact (reads_member hname hj (ends_cons (.inl rfl) _)).trans
      ((hcomma _).trans ((reads_space _ _).trans hrest))

private theorem readable_of_token {j : Json τ} (token : Token τ) (hne : token ≠ .closeArray)
    (hstep : ∀ frames, Cursor.begin frames token = .ok (.after j frames))
    (hcons : ∃ x cs, j.chars = x :: cs ∧ isSpace x = false)
    (hnext : ∀ rest, Ends rest → next? (j.chars ++ rest) = some (token, rest)) : Readable j := by
  intro c frames rest hc hrest
  obtain ⟨x, cs, hchars, hx⟩ := hcons
  have hn := hnext rest hrest
  rw [hchars, List.cons_append] at hn ⊢
  refine reads_token hx hn ?_ ((hc token hne).trans (hstep frames))
  rw [List.length_append]
  exact Nat.le_add_left _ _

private theorem readable_array {items : List (Json τ)} (h : ∀ j ∈ items, Readable j) :
    Readable (.array items) := by
  intro c frames rest hc hrest
  have hopen (cs : List Char) : Reads c ('[' :: cs) (.item frames) cs :=
    reads_token rfl rfl (Nat.le_refl _) (hc .openArray (by simp))
  cases items with
  | nil => exact (hopen _).trans (reads_token rfl rfl (Nat.le_refl _) rfl)
  | cons j items =>
    have hitems := reads_items (h j List.mem_cons_self)
      (fun k hk => h k (List.mem_cons_of_mem j hk)) (opens_item frames) rest
    rw [chars, List.cons_append, List.cons_append, List.append_assoc, List.singleton_append]
    exact (hopen _).trans hitems

private theorem readable_object {members : List (τ × Json τ)}
    (h : ∀ p ∈ members, Unpaired p.1 ∧ Readable p.2) : Readable (.object members) := by
  intro c frames rest hc hrest
  have hopen (cs : List Char) : Reads c ('\x7b' :: cs) (.name [] frames true) cs :=
    reads_token rfl rfl (Nat.le_refl _) (hc .openObject (by simp))
  cases members with
  | nil => exact (hopen _).trans (reads_token rfl rfl (Nat.le_refl _) rfl)
  | cons p members =>
    obtain ⟨hname, hp⟩ := h p List.mem_cons_self
    have hmembers := @reads_members τ _ frames p.1 p.2 members [] true hname hp
      (fun q hq => h q (List.mem_cons_of_mem p hq)) rest
    rw [chars, List.cons_append, List.cons_append, List.append_assoc, List.singleton_append]
    exact (hopen _).trans hmembers

private theorem Exact.readable {j : Json τ} (h : Exact j) : Readable j := by
  induction h with
  | null =>
    exact readable_of_token .null (by simp) (fun _ => rfl) ⟨_, _, rfl, rfl⟩ fun _ _ => rfl
  | bool b =>
    cases b <;> exact readable_of_token (.bool _) (by simp) (fun _ => rfl) ⟨_, _, rfl, rfl⟩
      fun _ _ => rfl
  | int h =>
    exact readable_of_token (.int _) (by simp) (fun _ => rfl) (decimal_head _)
      fun _ hrest => next?_int h hrest
  | str h =>
    exact readable_of_token (.str _) (by simp) (fun _ => rfl) ⟨_, _, rfl, rfl⟩
      fun rest _ => next?_string h rest
  | array _ ih => exact readable_array ih
  | object names _ ih => exact readable_object fun p hp => ⟨names p hp, ih p hp⟩

theorem read_write {j : Json τ} (h : Exact j) : read j.write = .ok j := by
  obtain ⟨fuel, -, hread⟩ := h.readable (.value []) [] [] (opens_value []) ends_nil
    (j.chars ++ []).length (Nat.le_refl _)
  rw [read, write, String.toList_ofList, tokens]
  rw [List.append_nil] at hread
  rw [hread]
  cases fuel <;> rfl

theorem write_injective {j k : Json τ} (hj : Exact j) (hk : Exact k) (h : j.write = k.write) :
    j = k := by
  have hread := read_write hj
  rw [h, read_write hk] at hread
  exact (Except.ok.inj hread).symm

end FourBit.Json
