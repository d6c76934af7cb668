/-! Texts as sequences of code points.
Surrogates are code points but no characters. Values, documents and records are given for any type
of texts, such as strings, which have no surrogates, and raw texts, which may have any. -/
namespace FourBit

structure CodePoint where
  value : Nat
  bounded : value < 0x110000
  deriving DecidableEq, Repr

namespace CodePoint

def replacement : CodePoint := ⟨0xFFFD, by decide⟩

def ofNat (n : Nat) : CodePoint := if h : n < 0x110000 then ⟨n, h⟩ else replacement

def ofChar (c : Char) : CodePoint := ofNat c.toNat

def isHigh (p : CodePoint) : Bool := 0xD800 ≤ p.value && p.value < 0xDC00

def isLow (p : CodePoint) : Bool := 0xDC00 ≤ p.value && p.value < 0xE000

def isSurrogate (p : CodePoint) : Bool := p.isHigh || p.isLow

def toChar (p : CodePoint) : Char := if p.isSurrogate then '\ufffd' else Char.ofNat p.value

theorem ofNat_value (p : CodePoint) : ofNat p.value = p := dif_pos p.bounded

theorem value_ofChar (c : Char) : (ofChar c).value = c.toNat := by
  have hlt : c.toNat < 0x110000 := by
    have hvalid : c.toNat < 0xD800 ∨ 0xDFFF < c.toNat ∧ c.toNat < 0x110000 := c.valid
    omega
  rw [ofChar, ofNat, dif_pos hlt]

theorem isSurrogate_iff (p : CodePoint) :
    p.isSurrogate = true ↔ 0xD800 ≤ p.value ∧ p.value < 0xE000 := by
  simp only [isSurrogate, isHigh, isLow, Bool.or_eq_true, Bool.and_eq_true, decide_eq_true_eq]
  omega

theorem isSurrogate_ofChar (c : Char) : (ofChar c).isSurrogate = false := by
  have hvalid : c.toNat < 0xD800 ∨ 0xDFFF < c.toNat ∧ c.toNat < 0x110000 := c.valid
  rw [Bool.eq_false_iff, ne_eq, isSurrogate_iff, value_ofChar]
  omega

theorem toNat_toChar {p : CodePoint} (h : p.isSurrogate = false) : p.toChar.toNat = p.value := by
  have hbounded := p.bounded
  have hvalid : p.value < 0xD800 ∨ 0xDFFF < p.value ∧ p.value < 0x110000 := by
    rw [Bool.eq_false_iff, ne_eq, isSurrogate_iff] at h
    omega
  rw [toChar, h, if_neg Bool.false_ne_true, Char.ofNat, dif_pos hvalid]
  rfl

theorem toChar_ofChar (c : Char) : (ofChar c).toChar = c := by
  rw [toChar, isSurrogate_ofChar, if_neg Bool.false_ne_true, value_ofChar, Char.ofNat_toNat]

end CodePoint

/-- A type of texts: each is told by its code points, and every string is one of them. -/
class CodeText (τ : Type) where
  decEq : DecidableEq τ
  points : τ → List CodePoint
  /-- Code points that have no place in texts of the type are replaced. -/
  ofPoints : List CodePoint → τ
  ofString : String → τ
  ofPoints_points (t : τ) : ofPoints (points t) = t
  points_ofString (s : String) : points (ofString s) = s.toList.map CodePoint.ofChar

instance (priority := low) {τ : Type} [CodeText τ] : DecidableEq τ := CodeText.decEq

instance {τ : Type} [CodeText τ] : CoeTail String τ := ⟨CodeText.ofString⟩

private theorem ofList_points (s : String) :
    String.ofList ((s.toList.map CodePoint.ofChar).map CodePoint.toChar) = s := by
  have hid : CodePoint.toChar ∘ CodePoint.ofChar = id := funext CodePoint.toChar_ofChar
  rw [List.map_map, hid, List.map_id, String.ofList_toList]

@[default_instance]
instance : CodeText String where
  decEq := inferInstance
  points s := s.toList.map CodePoint.ofChar
  ofPoints ps := .ofList (ps.map CodePoint.toChar)
  ofString s := s
  ofPoints_points := ofList_points
  points_ofString _ := rfl

structure RawText where
  points : List CodePoint
  deriving DecidableEq, Repr

instance : CodeText RawText where
  decEq := inferInstance
  points := RawText.points
  ofPoints := RawText.mk
  ofString s := ⟨s.toList.map CodePoint.ofChar⟩
  ofPoints_points _ := rfl
  points_ofString _ := rfl

namespace CodeText
variable {τ : Type} [CodeText τ]

/-- The characters of a text; surrogates are replaced. -/
def chars (t : τ) : List Char := (points t).map CodePoint.toChar

def toString (t : τ) : String := .ofList (chars t)

theorem points_injective {s t : τ} (h : points s = points t) : s = t := by
  rw [← ofPoints_points s, h, ofPoints_points]

@[simp] theorem ofString_inj {s t : String} : (ofString s : τ) = ofString t ↔ s = t := by
  refine ⟨fun h => ?_, congrArg ofString⟩
  have hpoints := congrArg points h
  rw [points_ofString, points_ofString] at hpoints
  exact @points_injective String _ _ _ hpoints

theorem chars_ofString (s : String) : chars (ofString s : τ) = s.toList := by
  have hid : CodePoint.toChar ∘ CodePoint.ofChar = id := funext CodePoint.toChar_ofChar
  rw [chars, points_ofString, List.map_map, hid, List.map_id]

theorem toString_ofString (s : String) : toString (ofString s : τ) = s := by
  rw [toString, chars_ofString, String.ofList_toList]

end CodeText
end FourBit
