import Checkpoint.ByteStream

/-! # Transcribers

A transcriber reads from a stream and writes items as it goes. What it has written stays written
when it fails, so a run is described by the items, the outcome and the stream afterwards. -/
namespace Checkpoint

structure Transcript (τ α : Type) where
  written : List τ
  outcome : Except Problem α
  stream : ByteStream

/-- A step that reads from a stream, writes items of type `τ` and gives an `α` or fails. -/
def Transcriber (τ α : Type) := ByteStream → Transcript τ α

namespace Transcriber

variable {τ α β : Type}

def run (t : Transcriber τ α) (s : ByteStream) : Transcript τ α := t s

/-- Does `t` and, unless it fails, what `next` makes of its result. -/
def andThen (t : Transcriber τ α) (next : α → Transcriber τ β) : Transcriber τ β := fun s =>
  let first := t.run s
  match first.outcome with
  | .error problem => ⟨first.written, .error problem, first.stream⟩
  | .ok a =>
    let second := (next a).run first.stream
    ⟨first.written ++ second.written, second.outcome, second.stream⟩

/-- Transcribers are chained by `andThen`; a result alone writes nothing. -/
instance : Monad (Transcriber τ) where
  pure a := fun s => ⟨[], .ok a, s⟩
  bind := andThen

def write (items : List τ) : Transcriber τ Unit := fun s => ⟨items, .ok (), s⟩

def fail (problem : Problem) : Transcriber τ α := fun s => ⟨[], .error problem, s⟩

/-- Goes on with a result that has been found without reading. -/
def ofExcept : Except Problem α → Transcriber τ α
  | .ok a => pure a
  | .error problem => fail problem

/-- Reads without writing. -/
def ofReader (reader : Reader α) : Transcriber τ α := fun s =>
  match reader s with
  | .ok a s => ⟨[], .ok a, s⟩
  | .error problem s => ⟨[], .error problem, s⟩

instance : MonadLift Reader (Transcriber τ) := ⟨ofReader⟩

instance : MonadLift (Except Problem) (Transcriber τ) := ⟨ofExcept⟩

/-- Does `body` for each element in turn; what was written before is in `done`, last first. -/
def forEachInto (body : α → Transcriber τ Unit) (done : List (List τ)) :
    List α → Transcriber τ Unit
  | [], s => ⟨done.reverse.flatten, .ok (), s⟩
  | a :: rest, s =>
    let step := (body a).run s
    let done := step.written :: done
    match step.outcome with
    | .error problem => ⟨done.reverse.flatten, .error problem, step.stream⟩
    | .ok () => forEachInto body done rest step.stream

/-- Does `body` for each element of a list in turn. -/
def forEach (elements : List α) (body : α → Transcriber τ Unit) : Transcriber τ Unit :=
  forEachInto body [] elements

end Transcriber

end Checkpoint
