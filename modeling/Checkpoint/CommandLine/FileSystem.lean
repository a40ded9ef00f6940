import Checkpoint.Bytes
import Checkpoint.CommandLine.Path
import Checkpoint.Text.Quoted

/-! # File systems

What the program asks of the system it runs on, so that the same program can run on real files and
on a tree of files that is a value. -/
namespace Checkpoint

inductive SystemFault where
  | noSuchFile
  | busy
  | fileExists
  | notADirectory
  | isADirectory
  | nameTooLong
  | other (number : Nat) (text : String)
  deriving DecidableEq, Repr

namespace SystemFault

def number : SystemFault → Nat
  | noSuchFile => 2
  | busy => 16
  | fileExists => 17
  | notADirectory => 20
  | isADirectory => 21
  | nameTooLong => 36
  | other number _ => number

def text : SystemFault → String
  | noSuchFile => "No such file or directory"
  | busy => "Device or resource busy"
  | fileExists => "File exists"
  | notADirectory => "Not a directory"
  | isADirectory => "Is a directory"
  | nameTooLong => "File name too long"
  | other _ text => text

end SystemFault

/-- A refusal, with the path it is about and the path that the first was to be renamed to. What is
refused of an open file or of the standard output is about no path. -/
structure SystemError where
  fault : SystemFault
  path : Option Path := none
  target : Option Path := none
  deriving DecidableEq, Repr

def SystemError.message (e : SystemError) : String :=
  let path := match e.path with
    | some path => ": " ++ Text.quoted path.toString
    | none => ""
  let target := match e.target with
    | some target => " -> " ++ Text.quoted target.toString
    | none => ""
  s!"[Errno {e.fault.number}] {e.fault.text}" ++ path ++ target

structure FileSystem (m : Type → Type) where
  /-- Opens a file for reading. -/
  openInput : Path → m (Except SystemError Unit)
  /-- What is in a file that has been opened. -/
  contents : Path → m (Except SystemError Bytes)
  makeDirectory : Path → m (Except SystemError Unit)
  isDirectory : Path → m Bool
  /-- Makes a file empty, or makes an empty file. -/
  create : Path → m (Except SystemError Unit)
  /-- Puts bytes into a file that has been created. -/
  fill : Path → Bytes → m (Except SystemError Unit)
  rename : Path → Path → m (Except SystemError Unit)
  remove : Path → m (Except SystemError Unit)
  print : String → m (Except SystemError Unit)
  printError : String → m Unit

namespace FileSystem

variable {m : Type → Type} [Monad m]

/-- Makes a directory, or leaves it if it is there. -/
def ensureDirectory (fs : FileSystem m) (path : Path) : m (Except SystemError Unit) := do
  match ← fs.makeDirectory path with
  | .ok () => return .ok ()
  | .error e => if ← fs.isDirectory path then return .ok () else return .error e

/-- Makes a directory and as many of those around it as are missing, at most `depth` of them. -/
def ensureWithin (fs : FileSystem m) : (depth : Nat) → Path → m (Except SystemError Unit)
  | 0, path => fs.ensureDirectory path
  | depth + 1, path => do
    match ← fs.makeDirectory path with
    | .ok () => return .ok ()
    | .error e =>
      if e.fault = .noSuchFile then
        match ← fs.ensureWithin depth path.parent with
        | .ok () => fs.ensureDirectory path
        | .error e => return .error e
      else if ← fs.isDirectory path then return .ok ()
      else return .error e

def ensureDirectories (fs : FileSystem m) (path : Path) : m (Except SystemError Unit) :=
  fs.ensureWithin path.names.length path

end FileSystem

end Checkpoint
