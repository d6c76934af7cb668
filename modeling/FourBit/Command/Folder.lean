import FourBit.Text.Quoted

/-! Files by their paths.
A folder holds files and no folders of its own. Paths may also lead out of it, where there are
directories, and among the files only the one that is always empty. -/
namespace FourBit.Command

inductive FileError where
  | missing
  | directory
  | notDirectory
  | nameTooLong
  /-- No path has a zero character in it. -/
  | badPath
  deriving DecidableEq, Repr

namespace FileError

def description : FileError → String
  | missing => "[Errno 2] No such file or directory"
  | directory => "[Errno 21] Is a directory"
  | notDirectory => "[Errno 20] Not a directory"
  | nameTooLong => "[Errno 36] File name too long"
  | badPath => "embedded null byte"

def message (e : FileError) (path : String) : String := s!"{e.description}: {Text.quote path}"

end FileError

abbrev Folder := List (String × List UInt8)

/-- Directories, as far as they are known: the folder, those above it, the root, and those that
every system has in the root. -/
inductive Directory where
  | here
  | above
  | root
  | system (name : String)
  deriving DecidableEq, Repr

inductive Entry where
  | directory (d : Directory)
  | file (bytes : List UInt8)
  | none

structure Path where
  start : Directory
  way : List String
  last : String
  endsInSlash : Bool

namespace Path

def parse (text : String) : Path :=
  let parts := text.splitOn "/"
  let names := parts.reverse.dropWhile (·.isEmpty)
  { start := if text.startsWith "/" then .root else .here
    way := names.tail.reverse
    last := names.head?.getD "."
    endsInSlash := names.length < parts.length }

def isRelative (p : Path) : Bool := p.last = "." || p.last = ".."

end Path

namespace Folder

def systemNames : List String :=
  ["bin", "boot", "dev", "etc", "home", "lib", "media", "mnt", "opt", "proc", "root", "run",
    "sbin", "srv", "sys", "tmp", "usr", "var"]

def entryOf (folder : Folder) (name : String) : Directory → Entry
  | .here => (folder.lookup name).elim .none .file
  | .root => if systemNames.contains name then .directory (.system name) else .none
  | .system "dev" => if name = "null" then .file [] else .none
  | _ => .none

def find (folder : Folder) (d : Directory) (name : String) : Except FileError Entry :=
  if name.isEmpty || name = "." then .ok (.directory d)
  else if name = ".." then
    .ok (.directory (match d with | .here | .above => .above | .root | .system _ => .root))
  else if 255 < name.utf8ByteSize then .error .nameTooLong
  else .ok (folder.entryOf name d)

def walk (folder : Folder) (d : Directory) : List String → Except FileError Directory
  | [] => .ok d
  | name :: rest => do
    match ← folder.find d name with
    | .directory d => folder.walk d rest
    | .file _ => throw .notDirectory
    | .none => throw .missing

def locate (folder : Folder) (text : String) : Except FileError (Path × Directory) := do
  if text.contains '\x00' then throw .badPath
  if text.isEmpty then throw .missing
  if 4095 < text.utf8ByteSize then throw .nameTooLong
  let path := Path.parse text
  return (path, ← folder.walk path.start path.way)

def read (folder : Folder) (text : String) : Except FileError (List UInt8) := do
  let (path, d) ← folder.locate text
  match ← folder.find d path.last with
  | .directory _ => throw .directory
  | .file bytes => if path.endsInSlash then throw .notDirectory else return bytes
  | .none => throw .missing

/-- Writes a file, in the place of the one that has its name. What is written outside the folder
leaves it as it is. -/
def write (folder : Folder) (text : String) (bytes : List UInt8) : Except FileError Folder := do
  let (path, d) ← folder.locate text
  if path.isRelative || path.endsInSlash then throw .directory
  match ← folder.find d path.last with
  | .directory _ => throw .directory
  | _ =>
    if d = .here then return (path.last, bytes) :: folder.filter (·.1 != path.last)
    else return folder

end Folder
end FourBit.Command
