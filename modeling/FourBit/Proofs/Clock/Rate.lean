import Mathlib
import FourBit.Clock

/-! Clocks of a rate.
A rate is brought between the bounds before it becomes an interval. With the standard bounds the
interval of a rate that is left is not negative, because a quotient of two positive numbers has a
positive sign, however it is rounded. -/
namespace FourBit.Clock
open Float.Model (Format UnpackedFloat)
open Float.Model.UnpackedFloat

/-- Numbers that have no negative sign. -/
def Unsigned : UnpackedFloat → Prop
  | .infinity s | .zero s | .finite s _ _ _ => s = .positive
  | .notANumber => True

def AboveNought : UnpackedFloat → Prop
  | .infinity s | .finite s _ _ _ => s = .positive
  | _ => False

theorem AboveNought.unsigned {u : UnpackedFloat} (h : AboveNought u) : Unsigned u := by
  cases u with
  | infinity | finite => exact h
  | zero | notANumber => exact h.elim

private theorem unpackSign_pack {spec : Format} {u : UnpackedFloat} (h : Unsigned u) :
    unpackSign (pack spec u) = 0#1 := by
  cases u with
  | notANumber => exact unpackSign_packComponents .positive _ _
  | infinity s | zero s =>
    obtain rfl : s = .positive := h
    exact unpackSign_packComponents .positive _ _
  | finite s m e hm =>
    obtain rfl : s = .positive := h
    rw [pack]
    split
    · exact unpackSign_packComponents .positive _ _
    · split
      · exact unpackSign_packComponents .positive _ _
      · exact unpackSign_packComponents .positive _ _

private theorem unsigned_unpack {spec : Format} {bits : BitVec spec.numBits}
    (h : unpackSign bits = 0#1) : Unsigned (unpack spec bits) := by
  have hs : Sign.ofBitVec (unpackSign bits) = .positive := by rw [h]; rfl
  rw [unpack, hs]
  split
  · split
    · rfl
    · trivial
  · split
    · split <;> rfl
    · rfl

private theorem unsigned_roundWithAccuracy (spec : Format) (m : Nat) (e : Int) (a : Accuracy) :
    Unsigned (roundWithAccuracy spec .positive m e a) := by
  rw [roundWithAccuracy]
  dsimp only
  split <;> rfl

private theorem unsigned_div {spec : Format} {u v : UnpackedFloat} (hu : Unsigned u)
    (hv : Unsigned v) : Unsigned (UnpackedFloat.div spec u v) := by
  cases u with
  | notANumber => trivial
  | infinity s =>
    obtain rfl : s = .positive := hu
    cases v with
    | infinity | notANumber => trivial
    | zero t | finite t =>
      obtain rfl : t = .positive := hv
      rfl
  | zero s =>
    obtain rfl : s = .positive := hu
    cases v with
    | zero | notANumber => trivial
    | infinity t | finite t =>
      obtain rfl : t = .positive := hv
      rfl
  | finite s =>
    obtain rfl : s = .positive := hu
    cases v with
    | notANumber => trivial
    | infinity t | zero t =>
      obtain rfl : t = .positive := hv
      rfl
    | finite t =>
      obtain rfl : t = .positive := hv
      exact unsigned_roundWithAccuracy spec _ _ _

private theorem lt_iff {x y : Float} :
    x < y ↔ x.toModel.unpack.compare y.toModel.unpack = some .lt := by
  change decide (_ = true) = true ↔ _
  rw [decide_eq_true_eq]
  exact beq_iff_eq

private theorem beq_zero_iff {x : Float} :
    (x == 0) = true ↔ x.toModel.unpack.compare (.zero .positive) = some .eq := by
  change (x.toModel.unpack.compare (0 : Float).toModel.unpack == some .eq) = true ↔ _
  exact beq_iff_eq

private theorem not_lt_zero {x : Float} (h : Unsigned x.toModel.unpack) : ¬ x < 0 := by
  have hzero : (0 : Float).toModel.unpack = .zero .positive := rfl
  rw [lt_iff, hzero]
  cases hx : x.toModel.unpack with
  | notANumber | zero => nofun
  | infinity s | finite s =>
    rw [hx] at h
    obtain rfl : s = .positive := h
    nofun

private theorem aboveNought_of_half {x : Float} (h : 0.5 < x) : AboveNought x.toModel.unpack := by
  have hhalf : (0.5 : Float).toModel.unpack =
      .finite .positive 4503599627370496 (-53) (by decide) := rfl
  rw [lt_iff, hhalf] at h
  cases hx : x.toModel.unpack with
  | notANumber =>
    rw [hx] at h
    cases h
  | zero s =>
    rw [hx] at h
    cases h
  | infinity s | finite s =>
    rw [hx] at h
    cases s with
    | positive => rfl
    | negative => cases h

private theorem div_unsigned {x : Float} (h : AboveNought x.toModel.unpack) :
    Unsigned (1 / x).toModel.unpack := by
  have hone : Unsigned (1 : Float).toModel.unpack := rfl
  exact unsigned_unpack (unpackSign_pack (unsigned_div hone h.unsigned))

private theorem not_beq_zero {x : Float} (h : AboveNought x.toModel.unpack) : (x == 0) = false := by
  rw [Bool.eq_false_iff, Ne, beq_zero_iff]
  cases hx : x.toModel.unpack with
  | notANumber | zero =>
    rw [hx] at h
    exact h.elim
  | infinity s | finite s =>
    rw [hx] at h
    obtain rfl : s = .positive := h
    nofun

private theorem aboveNought_upper (x : Float) :
    AboveNought (upper (0.5 : Float) x).toModel.unpack := by
  rw [upper]
  split
  · rename_i h
    exact aboveNought_of_half (of_decide_eq_true h)
  · rfl

theorem ofRate_standard {rate : Float} (h : ¬ rate ≤ 0) :
    ∃ clock, ofRate rate standard.leastRate standard.mostRate = .ok clock := by
  have habove := aboveNought_upper (lower rate 128)
  have hrate : ¬ Scalar.le rate (Scalar.nought : Float) = true := by
    intro hle
    exact h (of_decide_eq_true hle)
  have hnonzero : ¬ Scalar.isNought (upper (0.5 : Float) (lower rate 128)) = true :=
    Bool.eq_false_iff.mp (not_beq_zero habove)
  have hinterval : ¬ Scalar.lt (1 / upper (0.5 : Float) (lower rate 128)) Scalar.nought = true := by
    intro hlt
    exact not_lt_zero (div_unsigned habove) (of_decide_eq_true hlt)
  change ∃ clock, ofRate rate (0.5 : Float) 128 = .ok clock
  rw [ofRate, if_neg hrate]
  dsimp only
  rw [if_neg hnonzero, ofInterval]
  exact ⟨_, if_neg hinterval⟩

end FourBit.Clock
