import FourBit.Proofs.Program.Grammar

/-! Program texts one behind the other.
If the first of two texts ends with a line feed, both are read as they would be alone: the nibbles
of the second follow, and what is wrong in it is reported with the lines of the first counted in. -/
namespace FourBit.Program
open Text

def movedDown (k : Int) : Error → Error
  | .badLine line text reason => .badLine (line + k) text reason
  | e => e

section Lines
variable {ls : List (List Char)}

private theorem nibble_down {token : List Char} (hfeed : '\n' ∉ token) (line k : Int) :
    nibble token (line + k) = (nibble token line).mapError (movedDown k) := by
  by_cases hs : ∃ l, Spells (bare token) l
  · obtain ⟨l, h⟩ := hs
    by_cases hl : l.Oversized
    · rw [nibble_of_oversized hfeed h hl, nibble_of_oversized hfeed h hl]
      rfl
    · rw [nibble_of_spells hfeed h hl, nibble_of_spells hfeed h hl]
      split <;> rfl
  · have hs : ∀ l, ¬ Spells (bare token) l := fun l h => hs ⟨l, h⟩
    rw [nibble_of_not_spells hfeed hs, nibble_of_not_spells hfeed hs]
    rfl

private theorem nibbles_down (hfeed : ∀ raw ∈ ls, '\n' ∉ content raw) (line k : Int) :
    nibbles (line + k) ls = (nibbles line ls).mapError (movedDown k) := by
  induction ls generalizing line with
  | nil => rfl
  | cons raw ls ih =>
    obtain ⟨hraw, hls⟩ := List.forall_mem_cons.mp hfeed
    have hrest := ih hls (line + 1)
    rw [Int.add_right_comm] at hrest
    rw [nibbles, nibbles]
    split
    · exact hrest
    · rw [nibble_down hraw]
      cases nibble (content raw) line with
      | error e => rfl
      | ok n =>
        change (nibbles (line + k + 1) ls >>= _) = _
        rw [hrest]
        cases nibbles (line + 1) ls <;> rfl

private theorem nibbles_append (line : Int) (ls ls' : List (List Char)) :
    nibbles line (ls ++ ls') =
      nibbles line ls >>= fun ns => (nibbles (line + ls.length) ls').map (ns ++ ·) := by
  induction ls generalizing line with
  | nil =>
    change nibbles line ls' = (nibbles (line + 0) ls').map ([] ++ ·)
    rw [Int.add_zero]
    cases nibbles line ls' <;> rfl
  | cons raw ls ih =>
    have hlength : line + (raw :: ls).length = line + 1 + ls.length := by
      rw [List.length_cons]
      omega
    rw [List.cons_append, hlength]
    by_cases hne : content raw = []
    · rw [nibbles_passed hne, nibbles_passed hne, ih]
    · cases hn : nibble (content raw) line with
      | error e =>
        rw [nibbles_refused hne hn, nibbles_refused hne hn]
        rfl
      | ok n =>
        rw [nibbles_read hne hn, nibbles_read hne hn, ih]
        cases nibbles (line + 1) ls with
        | error e => rfl
        | ok ns =>
          change ((nibbles (line + 1 + ls.length) ls').map (ns ++ ·)).map (n :: ·) =
            (nibbles (line + 1 + ls.length) ls').map (n :: ns ++ ·)
          cases nibbles (line + 1 + ls.length) ls' <;> rfl

end Lines

private theorem parse_append_eq {p : String} (hp : p.toList.getLast? = some '\n') (t : String) :
    parse (p ++ t) = parse p >>= fun ns =>
      ((parse t).mapError (movedDown (lines p.toList).length)).map (ns ++ ·) := by
  rw [parse, String.toList_append, lines_append hp, nibbles_append,
    nibbles_down feed_notMem_content]
  rfl

private theorem firstOffence_of_badLine {text token : String} {line : Int} {reason : Refusal}
    (h : parse text = .error (.badLine line token reason)) :
    ∃ k : Nat, line = k + 1 ∧ FirstOffence Accepted (lines text.toList) k token.toList := by
  obtain ⟨k, cs, hfirst, hwhy⟩ := parse_error_cases h
  rcases hwhy with ⟨_, -, he⟩ | ⟨_, -, -, he⟩
  · obtain ⟨rfl, rfl, -⟩ := Error.badLine.inj he
    rw [String.toList_ofList]
    exact ⟨k, rfl, hfirst⟩
  · exact absurd he nofun

/-- Parsing goes piece by piece. Behind a text that ends with a line feed, another one is read as it
would be alone: if the first fails, so does the whole, in the same way; if both are programs, the
whole is the one behind the other; and if the second is refused, the whole is, with the lines of the
first counted in. The line of a refusal is, counted from one, the first that says something else
than a nibble, and the text is what it says. -/
theorem parse_append (p t : String) (hp : p.toList.getLast? = some '\n') :
    (∀ e, parse p = .error e → parse (p ++ t) = .error e) ∧
    (∀ ns ns', parse p = .ok ns → parse t = .ok ns' → parse (p ++ t) = .ok (ns ++ ns')) ∧
    (∀ ns line token reason, parse p = .ok ns → parse t = .error (.badLine line token reason) →
      parse (p ++ t) = .error (.badLine (line + (lines p.toList).length) token reason)) ∧
    ∀ text line token reason, parse text = .error (.badLine line token reason) →
      ∃ k : Nat, line = k + 1 ∧ FirstOffence Accepted (lines text.toList) k token.toList := by
  have heq := parse_append_eq hp t
  refine ⟨fun e he => ?_, fun ns ns' hns hns' => ?_, fun ns line token reason hns he => ?_,
    fun _ _ _ _ he => firstOffence_of_badLine he⟩
  · rw [heq, he]
    rfl
  · rw [heq, hns, hns']
    rfl
  · rw [heq, hns, he]
    rfl

/-- A line feed behind a carriage return, blank lines, and an offence on the second line of what
follows. -/
theorem parse_append_of_blank :
    ("2\r\n\n;\n".toList.getLast? = some '\n') ∧
      parse "2\r\n\n;\n" = .ok [2] ∧ parse "\n3" = .ok [3] ∧
      parse ("2\r\n\n;\n" ++ "\n3") = .ok ([2] ++ [3]) ∧
      parse "4\n-1" = .error (.badLine 2 "-1" .notLiteral) ∧
      parse ("2\r\n\n;\n" ++ "4\n-1") = .error (.badLine (2 + 3) "-1" .notLiteral) := by
  have hp : "2\r\n\n;\n".toList.getLast? = some '\n' := by decide
  have hfirst : parse "2\r\n\n;\n" = .ok [2] := rfl
  have hsecond : parse "\n3" = .ok [3] := rfl
  have hbad : parse "4\n-1" = .error (.badLine 2 "-1" .notLiteral) := rfl
  exact ⟨hp, hfirst, hsecond, (parse_append _ _ hp).2.1 _ _ hfirst hsecond, hbad,
    (parse_append _ _ hp).2.2.1 _ _ _ _ hfirst hbad⟩

end FourBit.Program
