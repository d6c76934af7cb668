import FourBit.Command.Report

/-! The command: it reads the program's file, prints what there is to say, and writes the output
file. -/
namespace FourBit.Command

def fileErrorOf : IO.Error → FileError
  | .noFileOrDirectory .. => .missing
  | .inappropriateType .. => .directory
  | _ => .missing

def readFile (path : String) : IO (Except FileError (List UInt8)) := do
  try
    return .ok (← IO.FS.readBinFile path).toList
  catch e => return .error (fileErrorOf e)

def print (report : Report) : IO Unit := do
  report.output.forM IO.println
  report.errors.forM IO.eprintln

def failureText : Failure → String
  | .file e => e.description
  | .notText => "program is not text"
  | .failed e => e.message

def conclude (output : String) : Except Failure Report → IO UInt32
  | .error failure => do
    IO.eprintln (failureText failure)
    return 1
  | .ok report => do
    print report
    if let some document := report.document then IO.FS.writeFile output document
    return report.exitCode.toUInt32

def run (args : List String) : IO UInt32 := do
  match Request.ofArguments args with
  | .error stop => conclude "" stop.report
  | .ok request => conclude request.output (request.answer (← readFile request.program))

end FourBit.Command

def main (args : List String) : IO UInt32 := FourBit.Command.run args
