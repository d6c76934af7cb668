/-! Division of a text into lines.
Ten characters end a line, and a carriage return takes a following line feed with it. A break
belongs to the line it ends, so a text that ends with a break has no empty line after it. -/
namespace FourBit.Text

def isBreak (c : Char) : Bool :=
  let n := c.toNat
  (0x0A ≤ n && n ≤ 0x0D) || (0x1C ≤ n && n ≤ 0x1E) || n == 0x85 || n == 0x2028 || n == 0x2029

def consLine (c : Char) : List (List Char) → List (List Char)
  | [] => [[c]]
  | line :: rest => (c :: line) :: rest

def lines : List Char → List (List Char)
  | [] => []
  | '\r' :: '\n' :: cs => [] :: lines cs
  | c :: cs => if isBreak c then [] :: lines cs else consLine c (lines cs)

@[simp] theorem lines_nil : lines [] = [] := rfl

end FourBit.Text
