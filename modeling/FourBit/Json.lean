/-! JSON documents, over a type of texts.
Integers have no bounds, other numbers are binary64 and may be infinite or no number at all, and an
object keeps all its members in order, those of one name included. -/
namespace FourBit

inductive Json (τ : Type := String) where
  | null
  | bool (b : Bool)
  | int (i : Int)
  | float (x : Float)
  | str (s : τ)
  | array (items : List (Json τ))
  | object (members : List (τ × Json τ))
  deriving Inhabited

end FourBit
