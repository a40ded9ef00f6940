import Checkpoint.CommandLine.Program

/-! # Main

The program on real files. -/
namespace Checkpoint.CommandLine

def faultOf : IO.Error → SystemFault
  | .noFileOrDirectory .. => .noSuchFile
  | .resourceBusy .. => .busy
  | .alreadyExists .. => .fileExists
  | .inappropriateType _ number text =>
    if number = 20 then .notADirectory else if number = 21 then .isADirectory
    else .other number.toNat text
  | .permissionDenied _ number text | .invalidArgument _ number text
  | .resourceExhausted _ number text | .noSuchThing _ number text | .interrupted _ number text
  | .otherError number text | .resourceVanished number text | .unsupportedOperation number text
  | .hardwareFault number text | .unsatisfiedConstraints number text
  | .illegalOperation number text | .protocolError number text | .timeExpired number text =>
    .other number.toNat text
  | .unexpectedEof => .other 5 "Input/output error"
  | .userError text => .other 5 text

def attempt {α : Type} (path target : Option Path) (action : IO α) :
    IO (Except SystemError α) := do
  try
    return .ok (← action)
  catch e => return .error { fault := faultOf e, path, target }

/-- Reads the first byte of a file; a directory can be opened but not read. -/
def touch (path : Path) : IO Unit := do
  let handle ← IO.FS.Handle.mk path.toString .read
  discard (handle.read 1)

def realFiles : FileSystem IO where
  openInput path := attempt path none (touch path)
  contents path := attempt none none (return (← IO.FS.readBinFile path.toString).toList)
  makeDirectory path := attempt path none (IO.FS.createDir path.toString)
  isDirectory path := do
    match ← attempt path none (touch path) with
    | .ok () => return false
    | .error e => return e.fault == .isADirectory
  create path := attempt path none (IO.FS.writeBinFile path.toString .empty)
  fill path content := attempt path none (IO.FS.writeBinFile path.toString ⟨content.toArray⟩)
  rename path target := attempt path (some target) (IO.FS.rename path.toString target.toString)
  remove path := attempt path none (IO.FS.removeFile path.toString)
  print text := attempt none none (IO.print text)
  printError text := IO.eprint text

def explain : Breakdown → String
  | .noOutput => "the output option has no value"
  | .nameless output => s!"{output.toString} has no name beside which a file could be written"
  | .nulInPath _ => "a path has a NUL character in it"

end Checkpoint.CommandLine

open Checkpoint.CommandLine in
def main (arguments : List String) : IO UInt32 := do
  match ← run realFiles arguments with
  | .exit code => return UInt32.ofNat code
  | .broken cause =>
    IO.eprintln (explain cause)
    return 1
