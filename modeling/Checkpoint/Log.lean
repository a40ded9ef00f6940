/-! # Log

Messages of four levels, in the order in which they came. Diagnostic messages are kept only by a log
that has been asked for them. -/
namespace Checkpoint

inductive LogLevel where
  | info
  | warn
  | error
  | diag
  deriving DecidableEq, Repr

namespace LogLevel

/-- All levels, in the order in which they are listed. -/
def all : List LogLevel := [info, warn, error, diag]

def label : LogLevel → String
  | info => "info"
  | warn => "warn"
  | error => "error"
  | diag => "diag"

/-- What stands in front of a message that is echoed. -/
def sign : LogLevel → String
  | info => "[+]"
  | warn => "[!] WARNING:"
  | error => "[X] ERROR:"
  | diag => "[diag]"

def ofLabel? (label : String) : Option LogLevel := all.find? (·.label == label)

end LogLevel

structure LogEntry where
  level : LogLevel
  message : String
  deriving DecidableEq, Repr

/-- The line that an entry is echoed as. -/
def LogEntry.line (entry : LogEntry) : String := entry.level.sign ++ " " ++ entry.message ++ "\n"

structure Log where
  /-- Whether diagnostic messages are kept. -/
  keepsDiag : Bool := false
  /-- Whether messages are shown as they come. -/
  echoes : Bool := true
  entries : List LogEntry := []
  deriving DecidableEq, Repr

namespace Log

def keeps (log : Log) (level : LogLevel) : Bool := level != .diag || log.keepsDiag

def add (log : Log) (level : LogLevel) (message : String) : Log :=
  if log.keeps level then { log with entries := log.entries ++ [⟨level, message⟩] } else log

def messages (log : Log) (level : LogLevel) : List String :=
  (log.entries.filter (·.level == level)).map (·.message)

/-- What is shown when a message is logged. -/
def echoOf (log : Log) (level : LogLevel) (message : String) : String :=
  if log.echoes && log.keeps level then LogEntry.line ⟨level, message⟩ else ""

def echo (log : Log) : String :=
  if log.echoes then String.join (log.entries.map LogEntry.line) else ""

end Log

end Checkpoint
