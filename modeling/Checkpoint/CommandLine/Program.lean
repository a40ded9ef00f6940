import Checkpoint.CommandLine.Arguments
import Checkpoint.CommandLine.FileSystem
import Checkpoint.Service

/-! # Program

The command line program. The document goes to the standard output or to a file; a file is written
under a name of its own beside the output, and takes the place of the output only when it is
complete. Messages go to the standard error output. -/
namespace Checkpoint.CommandLine

/-- Why a run is broken off without an exit code. -/
inductive Breakdown where
  /-- The output option has been left without a value. -/
  | noOutput
  /-- The output is a directory without a name, beside which nothing can be written. -/
  | nameless (output : Path)
  /-- The path has a NUL character in it, so the system cannot be asked about it. -/
  | nulInPath (path : Path)
  deriving DecidableEq, Repr

inductive Trouble where
  | image (failure : Failure)
  | system (e : SystemError)
  | breakdown (cause : Breakdown)

inductive Ending where
  | exit (code : Nat)
  | broken (cause : Breakdown)
  deriving DecidableEq, Repr

namespace Options

def inputPath (o : Options) : Path := .ofString o.input

/-- The file that the document goes to, if it goes to one. -/
def outputPath? (o : Options) : Option Path :=
  match o.output with
  | none | some "" | some "-" => none
  | some output => some (.ofString output)

/-- The file that the messages go to, if they go to one. -/
def diagJsonPath? (o : Options) : Option Path :=
  if o.diagJson = "" then none else some (.ofString o.diagJson)

def settings (o : Options) : Settings := { strict := !o.lenient }

def log (o : Options) : Log := { keepsDiag := o.diag || o.diagJson ≠ "" }

def describe (o : Options) : String :=
  let truth (b : Bool) := if b then "True" else "False"
  let output := (o.outputPath?.map Path.toString).getD "-"
  let diagJson := (o.diagJsonPath?.map Path.toString).getD "None"
  s!"Config(input={o.inputPath.toString}, output={output}, strict={truth !o.lenient}, " ++
    s!"list_sections={truth o.listSections}, diag={truth o.diag}, diag_json={diagJson})"

end Options

def listing (summary : Summary) : String :=
  let codec := if summary.codec.isEmpty then "none" else summary.codec
  let head := s!"layoutVersion={summary.layoutVersion} onDiskVersion={summary.ondiskVersion} " ++
    s!"codec={codec}\n"
  let line (row : SectionEntry.Row) : String :=
    let position := (row.position.map ToString.toString).getD "skip"
    Text.padRight 26 ' ' row.entry.name ++ " " ++
      Text.padLeft 14 ' ' (Text.grouped row.entry.offset) ++ " " ++
      Text.padLeft 14 ' ' (Text.grouped row.entry.length) ++ "  " ++ position ++ "\n"
  head ++ String.join ((SectionEntry.rows summary.sections).map line)

abbrev Run (m : Type → Type) := ExceptT Trouble (StateT Log m)

section

variable {m : Type → Type} [Monad m] (fs : FileSystem m)

def say (level : LogLevel) (message : String) : StateT Log m Unit := do
  fs.printError ((← get).echoOf level message)
  modify (·.add level message)

/-- Goes on unless the system has refused. -/
def demand {α : Type} (result : m (Except SystemError α)) : Run m α := do
  match ← (result : StateT Log m (Except SystemError α)) with
  | .ok a => return a
  | .error e => throw (.system e)

/-- Fails if the system cannot be asked about a path. -/
def requireNoNul (path : Path) : Run m Unit :=
  if path.hasNul then throw (.breakdown (.nulInPath path)) else return ()

/-- Does something on the system, whatever comes of it. -/
def act {α : Type} (action : m α) : Run m Unit := do
  discard (ExceptT.lift (StateT.lift action) : Run m α)

/-- Converts the image that a path leads to and logs what happens. -/
def visit (options : Options) : Run m Visit := do
  let visit := convert options.settings (← demand (fs.contents options.inputPath))
  for event in visit.events do
    ExceptT.lift (say fs event.level event.message)
  return visit

def check (visit : Visit) : Run m Unit :=
  match visit.failure with
  | some failure => throw (.image failure)
  | none => return ()

/-- Prints the document, or as much of it as there is. -/
def toStdout (options : Options) : Run m Tally := do
  let visit ← visit fs options
  demand (fs.print visit.document)
  check visit
  return visit.session.records

/-- Writes the document to a temporary file and puts that in place of the output. -/
def publish (options : Options) (temporary output : Path) : Run m Tally := do
  demand (fs.create temporary)
  let visit ← visit fs options
  check visit
  demand (fs.fill temporary (Utf8.encode visit.document))
  demand (fs.rename temporary output)
  return visit.session.records

/-- Writes the document to a file. Whatever goes wrong, the temporary file is removed, unless the
system refuses that too. -/
def toFile (options : Options) (output : Path) : Run m Tally := do
  requireNoNul output.parent
  demand (fs.ensureDirectories output.parent)
  match output.beside? ".tmp" with
  | none => throw (.breakdown (.nameless output))
  | some temporary =>
    requireNoNul temporary
    try publish fs options temporary output
    catch trouble =>
      act (fs.remove temporary)
      throw trouble

def convertImage (options : Options) : Run m Unit := do
  let records ← match options.outputPath? with
    | none => toStdout fs options
    | some output => toFile fs options output
  let target := (options.outputPath?.map Path.toString).getD "stdout"
  ExceptT.lift (say fs .info
    s!"Converted {options.inputPath.toString} -> {target} ({Text.grouped records.total} records)")

def listSections (options : Options) : Run m Unit := do
  match Summary.read (← demand (fs.contents options.inputPath)) with
  | .ok summary => demand (fs.print (listing summary))
  | .error cause => throw (.image ⟨.format cause, none⟩)

def execute (options : Options) : Run m Unit := do
  requireNoNul options.inputPath
  demand (fs.openInput options.inputPath)
  if options.listSections then listSections fs options else convertImage fs options

def writeLog (path : Path) : Run m Unit := do
  let text := (← get).toJson.indented
  requireNoNul path.parent
  demand (fs.ensureDirectories path.parent)
  requireNoNul path
  demand (fs.create path)
  demand (fs.fill path (Utf8.encode text))

/-- Ends a run, after writing all messages to a file if that is asked for. That they cannot be
written changes nothing else. -/
def finish (options : Options) (code : Nat) : StateT Log m Ending := do
  match options.diagJsonPath? with
  | none => return .exit code
  | some path =>
    match ← (writeLog fs path).run with
    | .ok () =>
      say fs .info s!"Diagnostic JSON written to: {path.toString}"
      return .exit code
    | .error (.system e) =>
      say fs .warn s!"Failed to write diagnostics JSON: {e.message}"
      return .exit code
    | .error (.image _) => return .exit code
    | .error (.breakdown cause) => return .broken cause

def runOptions (options : Options) : StateT Log m Ending := do
  if options.output.isNone then return .broken .noOutput
  say fs .diag options.describe
  match ← (execute fs options).run with
  | .ok () => finish fs options 0
  | .error (.image failure) =>
    say fs .error failure.message
    finish fs options 1
  | .error (.system e) =>
    say fs .error s!"I/O failure: {e.message}"
    finish fs options 1
  | .error (.breakdown cause) => return .broken cause

def usage : String :=
  "usage: fsimagexml [-h] [-o OUTPUT] [--lenient] [--list-sections] [--diag]\n" ++
  "                  [--diag-json DIAG_JSON] [--version]\n" ++
  "                  input\n"

def run (arguments : List String) : m Ending := do
  match Command.ofArguments arguments with
  | .run options => (·.1) <$> (runOptions fs options).run options.log
  | .showVersion =>
    discard (fs.print s!"fsimagexml v{programVersion}\n")
    return .exit 0
  | .showHelp =>
    discard (fs.print usage)
    return .exit 0
  | .misuse =>
    fs.printError usage
    return .exit 2

end

end Checkpoint.CommandLine
