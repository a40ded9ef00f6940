import Checkpoint.Codec.Decompressor
import Checkpoint.Image.SectionTable

/-! # Section readers

All sections of an image are read through one open handle, which has a single position. A window on
the handle gives out no more bytes than a section has, and a reader takes them from the window in
blocks, of which it keeps what has not been asked for yet. -/
namespace Checkpoint

structure Handle where
  image : Bytes
  position : Nat := 0

namespace Handle

def seek (position : Nat) (handle : Handle) : Handle := { handle with position }

/-- At most `n` bytes from the position on; the position moves behind them. -/
def read (n : Nat) (handle : Handle) : Bytes × Handle :=
  let found := Bytes.slice handle.image handle.position n
  (found, { handle with position := handle.position + found.length })

end Handle

/-- A handle of which only some more bytes may be read. -/
structure Window where
  handle : Handle
  remaining : Int

namespace Window

/-- The window on a section, which cannot start before the image. -/
def openAt? (entry : SectionEntry) (handle : Handle) : Option Window :=
  if entry.offset < 0 then none
  else some { handle := handle.seek entry.offset.toNat, remaining := entry.length }

/-- At most `n` bytes. There are none only at the end of the window or of the image. -/
def readInto (n : Nat) (w : Window) : Bytes × Window :=
  if w.remaining ≤ 0 then ([], w)
  else
    let (found, handle) := w.handle.read (min n w.remaining.toNat)
    (found, { handle, remaining := w.remaining - found.length })

/-- What is read is no longer there. -/
theorem remaining_readInto_lt {w next : Window} {n : Nat} {b : UInt8} {more : Bytes}
    (h : w.readInto n = (b :: more, next)) : next.remaining.toNat < w.remaining.toNat := by
  unfold readInto at h
  split at h
  · cases h
  · have hfound := congrArg (List.length ·.1) h
    have hnext := congrArg (·.2.remaining) h
    simp only [Handle.read, List.length_cons] at hfound hnext
    omega

/-- How much is read at a time when all that is left is asked for. -/
def drainSize : Nat := 8192

def drain (w : Window) : Bytes × Window :=
  match h : w.readInto drainSize with
  | ([], next) => ([], next)
  | (b :: found, next) =>
    have := remaining_readInto_lt h
    let (more, last) := next.drain
    (b :: found ++ more, last)
termination_by w.remaining.toNat
decreasing_by exact this

end Window

/-- The reader of a section. -/
structure SectionReader where
  window : Window
  /-- What has been read ahead. -/
  buffer : Bytes := []

namespace SectionReader

def openAt? (entry : SectionEntry) (handle : Handle) : Option SectionReader :=
  (Window.openAt? entry handle).map fun window => { window }

/-- Gives `wanted` bytes through the buffer, of which `filled` bytes have been used before. -/
def readAhead (wanted filled : Nat) (w : Window) : Bytes × SectionReader :=
  if wanted = 0 ∨ chunkSize ≤ filled then ([], { window := w })
  else match h : w.readInto (chunkSize - filled) with
    | ([], next) => ([], { window := next })
    | (b :: more, next) =>
      have := Window.remaining_readInto_lt h
      let found := b :: more
      if found.length < wanted then
        let (rest, reader) := readAhead (wanted - found.length) (filled + found.length) next
        (found ++ rest, reader)
      else (found.take wanted, { window := next, buffer := found.drop wanted })
termination_by w.remaining.toNat
decreasing_by exact this

/-- Gives `wanted` bytes: whole blocks as they are, and the rest through the buffer. -/
def readBlocks (wanted : Nat) (w : Window) : Bytes × SectionReader :=
  let blocks := wanted / chunkSize * chunkSize
  if blocks = 0 then readAhead wanted 0 w
  else match h : w.readInto blocks with
    | ([], next) => ([], { window := next })
    | (b :: more, next) =>
      have := Window.remaining_readInto_lt h
      let found := b :: more
      let (rest, reader) := readBlocks (wanted - found.length) next
      (found ++ rest, reader)
termination_by w.remaining.toNat
decreasing_by exact this

/-- The next `n` bytes, or as many as there are before the end. -/
def read (n : Nat) (reader : SectionReader) : Bytes × SectionReader :=
  if n ≤ reader.buffer.length then
    (reader.buffer.take n, { reader with buffer := reader.buffer.drop n })
  else
    let (more, next) := readBlocks (n - reader.buffer.length) reader.window
    (reader.buffer ++ more, next)

def readAll (reader : SectionReader) : Bytes × SectionReader :=
  let (more, window) := reader.window.drain
  (reader.buffer ++ more, { window })

/-- Reads so many bytes, or all that is left if no number is given. -/
def ask : Option Nat → SectionReader → Bytes × SectionReader
  | some n => read n
  | none => readAll

/-- What one read after the other gives, and the reader after them. -/
def askAll : List (Option Nat) → SectionReader → List Bytes × SectionReader
  | [], reader => ([], reader)
  | size :: sizes, reader =>
    let (piece, next) := reader.ask size
    let (pieces, last) := next.askAll sizes
    (piece :: pieces, last)

end SectionReader

/-- A section that is read in pieces of these sizes. -/
structure SectionUse where
  entry : SectionEntry
  sizes : List (Option Nat)

/-- Uses sections one after the other, each as the one before has left the handle. -/
def Handle.useAll : List SectionUse → Handle → Option (List (List Bytes))
  | [], _ => some []
  | ⟨entry, sizes⟩ :: uses, handle => do
    let reader ← SectionReader.openAt? entry handle
    let (pieces, last) := reader.askAll sizes
    let others ← last.window.handle.useAll uses
    return pieces :: others

end Checkpoint
