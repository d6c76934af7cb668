import FourBit.Class
import FourBit.Text.Quoted

/-! The namespaces in which stored records look for their class.
A namespace binds classes, its own and those it uses from others, and names of other things; the
words for a failed search name the first part that is missing. -/
namespace FourBit.Store

structure Namespace where
  name : String
  isPackage : Bool := false
  classes : List Class := []
  /-- Types whose values have no fields. -/
  fieldless : List String := []
  /-- Names of what is no type of records, among them those that are used from elsewhere. -/
  others : List String := []

inductive Binding where
  | type (c : Class)
  | fieldless
  | other

def namespaces : List Namespace := [
  { name := "nibblevm", isPackage := true
    others := ["exceptions", "types", "program", "serialization", "runner", "nibblevm", "isa",
      "cpu", "state"] },
  { name := "nibblevm.isa", isPackage := true
    others := ["register", "nv_registers", "variant", "nv_isa"] },
  { name := "nibblevm.cpu", isPackage := true, others := ["cpu", "machine"] },
  { name := "nibblevm.state", isPackage := true, others := ["snapshot"] },
  { name := "nibblevm.exceptions", classes := [.badLine, .overfull, .unknownVariant] },
  { name := "nibblevm.types", classes := [.anyRegister], fieldless := ["Nibble", "Address"]
    others := ["CpuRegisterMap", "InstructionPair", "TypeAlias"] },
  { name := "nibblevm.program", classes := [.badLine], fieldless := ["Nibble"]
    others := ["logger", "NIBBLE_MAX", "_COMMENT_RE", "_LITERAL_RE", "strip_comment",
      "parse_nibble", "parse_program", "check_nibbles", "logging", "re", "Iterable"] },
  { name := "nibblevm.serialization", classes := [.encoder, .decoder, .storable]
    others := ["logger", "importlib", "json", "logging", "Any", "Self"] },
  { name := "nibblevm.runner", classes := [.machine, .snapshot, .clock, .driver, .progressBar]
    others := ["logger", "itertools", "logging", "time", "dataclass", "Callable", "Iterable",
      "Optional"] },
  { name := "nibblevm.nibblevm"
    classes := [.machine, .overfull, .badLine, .instruction, .anyRegister, .clock, .driver,
      .snapshot]
    others := ["format_listing", "name2reg", "DEFAULT_VARIANT", "VARIANTS", "parse_program",
      "parse_args", "parse_assignment", "print_trace", "main", "argparse", "logging", "sys",
      "Optional", "Sequence"] },
  { name := "nibblevm.isa.register"
    classes := [.storable, .anyRegister, .conditionRegister, .pointerRegister]
    fieldless := ["ABC"], others := ["abstractmethod"] },
  { name := "nibblevm.isa.nv_registers"
    classes := [.conditionRegister, .pointerRegister, .anyRegister] ++
      Register.all.map Class.register
    others := ["get_nv_state_format", "name2reg"] },
  { name := "nibblevm.isa.variant", classes := [.unknownVariant, .variant]
    others := ["PROGRAM_ORIGIN", "NV256", "NV32", "VARIANTS", "DEFAULT_VARIANT", "get_variant",
      "dataclass"] },
  { name := "nibblevm.isa.nv_isa", classes := [.instruction], fieldless := ["Address", "Nibble"]
    others := ["NIBBLE_MASK", "Opcode", "SecondaryOp", "Flag", "Fault", "_SECONDARY_MNEMONICS",
      "_PRIMARY_MNEMONICS", "decode_hex_string", "encode_instruction", "disassemble",
      "format_listing", "dataclass", "Enum", "IntEnum", "Iterator", "Optional", "Sequence"] },
  { name := "nibblevm.cpu.cpu", classes := [.anyRegister, .processor, .processorFactory]
    fieldless := ["ABC", "Nibble"], others := ["CpuRegisterMap", "abstractmethod", "Sequence"] },
  { name := "nibblevm.cpu.machine"
    classes := [.processor, .overfull, .instruction, .conditionRegister, .pointerRegister,
      .anyRegister, .variant, .snapshot, .machine] ++
      [Register.a, .b, .c, .pc, .sp].map Class.register
    fieldless := ["Nibble"]
    others := ["NIBBLE_MASK", "Fault", "Flag", "Opcode", "SecondaryOp", "get_nv_state_format",
      "DEFAULT_VARIANT", "check_nibbles", "parse_program", "CpuRegisterMap", "InstructionPair",
      "logger", "_REG_ATTRS", "logging", "Callable", "Optional", "Sequence"] },
  { name := "nibblevm.state.snapshot", classes := [.storable, .snapshot]
    fieldless := ["Address", "Nibble"]
    others := ["Flag", "REGISTER_FIELDS", "_FLAG_LABELS", "Optional"] }]

/-- What every namespace says about itself; all of it is in names with marks around them. -/
def ownNames : List String :=
  ["annotations", "delattr", "dict", "dir", "doc", "eq", "file", "format", "ge", "getattribute",
    "getstate", "gt", "hash", "init", "init_subclass", "le", "loader", "lt", "name", "ne", "new",
    "package", "reduce", "reduce_ex", "repr", "setattr", "sizeof", "spec", "str", "subclasshook"]

namespace Namespace

def ownBinding? (n : Namespace) (name : String) : Option Binding :=
  if name = "class" then some (.type .scope)
  else if ownNames.contains name then some .other
  else if n.isPackage then if name = "path" then some .other else none
  else if name = "builtins" || name = "cached" then some .other
  else none

def lookup? (n : Namespace) (name : String) : Option Binding :=
  match n.classes.find? (·.name = name) with
  | some c => some (.type c)
  | none =>
    if n.fieldless.contains name then some .fieldless
    else if n.others.contains name then some .other
    else if name.startsWith "__" && name.endsWith "__" then
      n.ownBinding? ((name.drop 2).dropEnd 2).toString
    else none

end Namespace

def dottedParts (name : String) : List String :=
  (name.toList.splitOn '.').map String.ofList

/-- The parts of a dotted name, each with all parts in front of it, the shortest first. -/
def dottedPrefixes (name : String) : List String :=
  let parts := dottedParts name
  (List.range parts.length).map fun n => ".".intercalate (parts.take (n + 1))

def findNamespace (name : String) : Except String Namespace :=
  search none (dottedPrefixes name)
where
  search : Option Namespace → List String → Except String Namespace
    | some found, [] => .ok found
    | none, [] => .error ("No module named " ++ Text.quote name)
    | above, name :: rest =>
      if above.any (!·.isPackage) then
        .error (s!"No module named {Text.quote name}; " ++
          s!"{Text.quote ((above.map (·.name)).getD name)} is not a package")
      else
        match namespaces.find? (·.name = name) with
        | some found => search (some found) rest
        | none => .error s!"No module named {Text.quote name}"

def bindingAt? (path : String) : Option Binding :=
  let parts := dottedParts path
  match findNamespace (".".intercalate parts.dropLast), parts.getLast? with
  | .ok found, some name => found.lookup? name
  | _, _ => none

end FourBit.Store
