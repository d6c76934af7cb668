import FourBit.Numeral.Format
import FourBit.Text.Quoted

/-! What can go wrong, by cause.
Every cause belongs to a kind, which is what a caller handles, and has one wording. -/
namespace FourBit
open Numeral Text

/-- Why a line of a program, or an element of a numeric one, is refused. -/
inductive Refusal where
  | notLiteral
  | notInteger
  | tooLarge (value : Int)
  deriving DecidableEq, Repr

inductive ErrorKind where
  | program
  | capacity
  | variant
  | value
  | type
  | index
  | key
  | field
  | division
  | json
  deriving DecidableEq, Repr

inductive Error where
  /-- A line that is no nibble, counted from one. -/
  | badLine (line : Int) (text : String) (reason : Refusal)
  /-- More nibbles than there are cells from the origin on. -/
  | overfull (length available : Int)
  | unknownVariant (name : String)
  | noRoom (capacity origin : Int)
  | boundaryOutside (boundary : Int)
  | modulusNotPositive
  | unknownRegister (name : String)
  | notAssignment (text : String)
  | onePairNeeded
  | notTwoNibbles (text : String)
  | unequalMemories
  | negativeInterval
  | badRange (least most : String)
  | rateNotPositive
  | notOfClass (name : String)
  /-- Text that is no integer to a base; base zero is one that a mark shows. -/
  | badLiteral (base : Nat) (text : String)
  /-- A decimal numeral beyond the limit on digits, with its size where it was read. -/
  | tooManyDigits (digits : Nat)
  /-- A value that has the right type and cannot be used. -/
  | badValue
  /-- An address outside memory, or a flag that is not there. -/
  | outside
  | wrongType
  | noField
  | noKey
  | emptyMemory
  | noRate
  | malformedJson
  deriving DecidableEq, Repr

namespace Refusal

def message : Refusal → String
  | notLiteral => "not a numeric literal"
  | notInteger => "not an integer"
  | tooLarge value => s!"value {decimal.write value} does not fit in a nibble"

end Refusal

namespace Error

def kind : Error → ErrorKind
  | badLine .. => .program
  | overfull .. => .capacity
  | unknownVariant _ => .variant
  | noRoom .. | boundaryOutside _ | modulusNotPositive | unknownRegister _ | notAssignment _
  | onePairNeeded | notTwoNibbles _ | unequalMemories | negativeInterval | badRange ..
  | rateNotPositive | badLiteral .. | tooManyDigits _ | badValue => .value
  | notOfClass _ | wrongType => .type
  | outside => .index
  | noField => .field
  | noKey => .key
  | emptyMemory | noRate => .division
  | malformedJson => .json

def lineText (line reason text : String) : String := s!"[ERROR] line {line}: {reason}: {text}"

def capacityText (length available : String) : String :=
  s!"[ERROR] program has {length} nibbles but only {available} fit after the origin!"

def variantText (name : String) : String := s!"[ERROR] NibbleVM doesnt know the {name} variant!"

/-- The wording of an error. Quoted literals are cut off after two hundred characters. -/
def message : Error → String
  | badLine line text reason => lineText (decimal.write line) reason.message (quote text)
  | overfull length available => capacityText (decimal.write length) (decimal.write available)
  | unknownVariant name => variantText (quote name)
  | noRoom capacity origin =>
    s!"Capacity {decimal.write capacity} leaves no room after origin {markedHex.write origin}"
  | boundaryOutside boundary => s!"Stack boundary {markedHex.write boundary} outside memory"
  | modulusNotPositive => "Arithmetic modulus must be positive"
  | unknownRegister name => s!"Unknown NibbleVM register: {name}"
  | notAssignment text => s!"Expected REG=VALUE, got {quote text}"
  | onePairNeeded => "Instruction needs an opcode and an operand nibble"
  | notTwoNibbles text => s!"Expected two nibbles, got {quote text}"
  | unequalMemories => "Cannot diff snapshots of machines with different capacities"
  | negativeInterval => "Clock interval cannot be negative"
  | badRange least most => s!"Invalid clock range {least}..{most} Hz"
  | rateNotPositive => "Clock frequency must be positive"
  | notOfClass name => s!"Serialized data is not a {name}"
  | badLiteral base text =>
    s!"invalid literal for int() with base {base}: " ++ .ofList ((quote text).toList.take 200)
  | tooManyDigits digits =>
    s!"Exceeds the limit ({maxDigits} digits) for integer string conversion: value has {digits} " ++
      "digits; use sys.set_int_max_str_digits() to increase the limit"
  | badValue => "value cannot be used"
  | outside => "index out of range"
  | wrongType => "wrong type"
  | noField => "no such field"
  | noKey => "no such key"
  | emptyMemory => "memory is empty"
  | noRate => "clock rate is zero"
  | malformedJson => "malformed JSON"

end Error

def writeDecimal (i : Int) : Except Error String :=
  if isWritable i then .ok (decimal.write i)
  else .error (.tooManyDigits (Nat.toDigits 10 i.natAbs).length)

theorem ok_of_bind {ε α β : Type} {x : Except ε α} {f : α → Except ε β} {b : β}
    (h : (x >>= f) = .ok b) : ∃ a, x = .ok a ∧ f a = .ok b := by
  cases x with
  | error e => cases h
  | ok a => exact ⟨a, rfl, h⟩

/-- An error of what is put together is that of the first part, or else that of the second. -/
theorem error_of_bind {ε α β : Type} {x : Except ε α} {f : α → Except ε β} {e : ε}
    (h : (x >>= f) = .error e) : x = .error e ∨ ∃ a, x = .ok a ∧ f a = .error e := by
  cases x with
  | error e' =>
    obtain rfl := Except.error.inj h
    exact .inl rfl
  | ok a => exact .inr ⟨a, rfl, h⟩

end FourBit
