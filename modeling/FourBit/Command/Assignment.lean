import FourBit.Numeral.Literal
import FourBit.Register

/-! Assignments of values to registers, written with an equals sign.
The register may be in any letter case, and the value is an integer literal of any base. -/
namespace FourBit.Command
open Numeral Text

structure Assignment where
  register : Register
  value : Int
  deriving DecidableEq, Repr

namespace Assignment

def readValue (text : List Char) : Except Error Int :=
  match readInteger .marked text with
  | .ok value => .ok value
  | .error .malformed => .error (.badLiteral 0 (.ofList text))
  | .error (.tooLong digits) => .error (.tooManyDigits digits)

/-- Reads an assignment; the first equals sign is the one that counts. -/
def parse (text : String) : Except Error Assignment :=
  match text.toList.dropWhile (· != '=') with
  | [] => .error (.notAssignment text)
  | _ :: value => do
    let register ← Register.ofName (.ofList (trim (text.toList.takeWhile (· != '='))))
    return ⟨register, ← readValue (trim value)⟩

end Assignment
end FourBit.Command
