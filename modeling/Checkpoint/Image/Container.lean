import Checkpoint.Image.SectionTable
import Checkpoint.Wire.Framing

/-! # Container

The outer form of an image: a magic word at the start, the sections, and at the end a summary
record with its length behind it as a big-endian word. The summary holds the versions, the name of
the codec that sections are compressed with, and the section table. -/
namespace Checkpoint

structure Summary where
  ondiskVersion : Int
  layoutVersion : Int
  /-- The name of the codec, empty if sections are not compressed. -/
  codec : String
  sections : List SectionEntry
  deriving DecidableEq, Repr

namespace Summary

def sectionSchema : Schema where
  name := "FileSummary.Section"
  fields := [
    { number := 1, name := "name", kind := .string },
    { number := 2, name := "length", kind := .int64 },
    { number := 3, name := "offset", kind := .int64 }]

def schema : Schema where
  name := "FileSummary"
  fields := [
    { number := 1, name := "ondiskVersion", kind := .int32 },
    { number := 2, name := "layoutVersion", kind := .int32 },
    { number := 3, name := "codec", kind := .string },
    { number := 4, name := "sections", kind := .message sectionSchema, repeated := true }]

/-- The bytes that every image starts with. -/
def magic : Bytes := [0x48, 0x44, 0x46, 0x53, 0x49, 0x4D, 0x47, 0x31]

def lengthBytes : Nat := 4

/-- The one file version there is. -/
def fileVersion : Int := 1

/-- The first layout that is divided into sections. Layout versions are negative, and later ones are
smaller. -/
def firstLayout : Int := -51

/-- The most bytes a summary may have. -/
def maxBytes : Nat := 64 * 1024 * 1024

def sectionOfRecord (r : Record) : SectionEntry where
  name := r.text 1
  length := r.int 2
  offset := r.int 3

def ofRecord (r : Record) : Summary where
  ondiskVersion := r.int 1
  layoutVersion := r.int 2
  codec := r.text 3
  sections := (r.records 4).map sectionOfRecord

/-- Checks that an image is long enough and starts with the magic word. -/
def checkMagic (image : Bytes) : Except FormatProblem Unit :=
  if image.length < magic.length + lengthBytes then .error .unrecognized
  else if image.take magic.length ≠ magic then .error .unrecognized
  else .ok ()

/-- Whether a section lies within the first `limit` bytes. -/
def SectionFits (limit : Int) (entry : SectionEntry) : Prop :=
  0 ≤ entry.offset ∧ 0 ≤ entry.length ∧ entry.offset + entry.length ≤ limit

instance (limit : Int) (entry : SectionEntry) : Decidable (SectionFits limit entry) := by
  unfold SectionFits; infer_instance

/-- Checks the versions of a summary, and that its sections lie within the first `limit` bytes. -/
def check (summary : Summary) (limit : Int) : Except FormatProblem Summary :=
  if summary.ondiskVersion ≠ fileVersion then .error (.fileVersion summary.ondiskVersion)
  else if firstLayout < summary.layoutVersion then .error (.layoutVersion summary.layoutVersion)
  else match summary.sections.find? (fun entry => ¬SectionFits limit entry) with
    | some entry => .error (.sectionOutside entry.name entry.offset entry.length)
    | none => .ok summary

/-- Reads the summary record from the bytes set aside for it; bytes after it do not count. -/
def ofBytes (bytes : Bytes) : Except FormatProblem Summary :=
  match ByteStream.readRecord? schema ⟨bytes, none⟩ with
  | .error problem _ => .error (.corruptSummary problem)
  | .ok none _ => .error .emptySummary
  | .ok (some record) _ => .ok (ofRecord record)

def read (image : Bytes) : Except FormatProblem Summary := do
  checkMagic image
  let bodyEnd := image.length - lengthBytes
  let length := signedWord 32 (Bytes.bigEndian (image.drop bodyEnd))
  if length ≤ 0 ∨ (bodyEnd : Int) - magic.length < length then throw (.summaryLength length)
  if (maxBytes : Int) < length then throw (.summaryTooLarge length)
  let start := bodyEnd - length.toNat
  let summary ← ofBytes (Bytes.slice image start length.toNat)
  summary.check start

end Summary

end Checkpoint
