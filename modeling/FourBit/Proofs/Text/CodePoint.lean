import FourBit.Text.CodePoint
import Mathlib.Data.List.Chain

/-! Pairs of surrogates in texts.
Only raw texts can have them; in a document a pair cannot be told from the character that it stands
for. -/
namespace FourBit.CodeText
variable {τ : Type} [CodeText τ]

theorem nodup_map_ofString {names : List String} (h : names.Nodup) :
    (names.map (ofString : String → τ)).Nodup :=
  List.pairwise_map.mpr (h.imp fun hne heq => hne (ofString_inj.mp heq))

/-- No high surrogate stands right in front of a low one. -/
def Unpaired (t : τ) : Prop := (points t).IsChain fun p q => ¬ (p.isHigh = true ∧ q.isLow = true)

/-- A string has no surrogates, and so no pair of them. -/
theorem unpaired_ofString (s : String) : Unpaired (ofString s : τ) := by
  rw [Unpaired, points_ofString]
  refine List.Pairwise.isChain (List.pairwise_map.mpr (List.pairwise_of_forall fun c d h => ?_))
  have hchar := CodePoint.isSurrogate_ofChar c
  rw [CodePoint.isSurrogate, h.1] at hchar
  cases hchar

theorem unpaired_string (s : String) : Unpaired s := unpaired_ofString s

end FourBit.CodeText
