import Checkpoint.Text.Number
import Checkpoint.Text.Quoted

/-! # Problems

Everything that can be wrong with an image, as causes. Each cause has one wording, and a failure is
a cause together with the section in which it was met. -/
namespace Checkpoint

/-- Why a record, a stream of records or a packed value in them cannot be read. The first argument
named `record` is the name of the record type being read. -/
inductive RecordProblem where
  | truncatedVarint (record : String)
  | longVarint (record : String)
  | truncatedLength (record : String)
  | longLength (record : String)
  | oversized (record : String) (size : Nat)
  /-- The stream ends inside the body of a record. -/
  | shortBody (record : String) (found size : Nat)
  | missingHeader (record : String)
  | fieldNumberZero (record : String)
  | truncatedField (record : String) (number : Nat)
  | overrun (record : String) (number : Nat)
  /-- A field has a wire type that no value is written in. -/
  | unsupportedWireType (record : String) (wire number : Nat)
  /-- A field has a wire type that its kind is not written in. -/
  | wrongWireType (record field : String) (wire : Nat) (kind : String)
  /-- A packed field is not a whole number of elements long. -/
  | unevenPacking (record field : String) (length width : Nat)
  | truncatedMember
  /-- The bytes of a compressed section are not what its codec writes. The codec may say why. -/
  | corruptMember (reason : String)
  | entryIdOutside (id size : Int)
  | idOutOfRange (id : Int)
  | unknownNamespace (bits : Nat)
  | unnamedAttribute (id : Nat)
  deriving DecidableEq, Repr

/-- Why the bytes are no image that can be read at all. -/
inductive FormatProblem where
  /-- The bytes do not start as an image does. -/
  | unrecognized
  /-- The length of the summary leaves no room for it. -/
  | summaryLength (length : Int)
  | summaryTooLarge (length : Int)
  | corruptSummary (cause : RecordProblem)
  | emptySummary
  | fileVersion (version : Int)
  | layoutVersion (version : Int)
  /-- A section reaches outside the part of the image that holds sections. -/
  | sectionOutside (name : String) (offset length : Int)
  | unsupportedCodec (name : String)
  deriving DecidableEq, Repr

/-- How the records of a section disagree with the count declared for them. -/
inductive CountProblem where
  /-- The stream ended before the declared number of records. -/
  | shortfall (record : String) (declared : Int) (found : Nat)
  /-- Bytes are left after the last declared record. -/
  | leftover
  deriving DecidableEq, Repr

/-- Everything that can end a conversion. -/
inductive Problem where
  | format (cause : FormatProblem)
  | malformed (cause : RecordProblem)
  | count (cause : CountProblem)
  /-- A snapshot diff entry belongs neither to a file nor to a directory. -/
  | unknownDiffType (value : Int)
  /-- A name was looked up before there was a string table. -/
  | stringTableNotLoaded
  deriving DecidableEq, Repr

def RecordProblem.message : RecordProblem → String
  | truncatedVarint record => s!"{record}: truncated varint"
  | longVarint record => s!"{record}: varint too long"
  | truncatedLength record => s!"{record}: stream ends inside a length prefix"
  | longLength record => s!"{record}: length prefix too long"
  | oversized record size => s!"{record}: record of {Text.grouped size} bytes exceeds limit"
  | shortBody record found size =>
    s!"{record}: stream ends inside record ({found} of {size} bytes)"
  | missingHeader record => s!"{record}: section is empty"
  | fieldNumberZero record => s!"{record}: invalid field number 0"
  | truncatedField record number => s!"{record}: truncated field {number}"
  | overrun record number => s!"{record}: field {number} overruns the record"
  | unsupportedWireType record wire number =>
    s!"{record}: unsupported wire type {wire} for field {number}"
  | wrongWireType record field wire kind =>
    s!"{record}.{field}: wire type {wire} does not match {kind}"
  | unevenPacking record field length width =>
    s!"{record}.{field}: packed length {length} not a multiple of {width}"
  | truncatedMember => "compressed stream ends before its end marker"
  | corruptMember "" => "corrupt compressed data"
  | corruptMember reason => s!"corrupt compressed data: {reason}"
  | entryIdOutside id size => s!"string table id {id} outside 0..{size}"
  | idOutOfRange id => s!"string table id {id} out of range"
  | unknownNamespace bits => s!"unknown xattr namespace {bits}"
  | unnamedAttribute id => s!"xattr name id {id} not in string table"

def FormatProblem.message : FormatProblem → String
  | unrecognized => "Unrecognized FSImage"
  | summaryLength length => s!"Invalid file summary length {length}"
  | summaryTooLarge length => s!"File summary of {Text.grouped length} bytes exceeds limit"
  | corruptSummary cause => s!"Corrupt file summary: {cause.message}"
  | emptySummary => "Empty file summary"
  | fileVersion version => s!"Unsupported file version {version}"
  | layoutVersion version => s!"Unsupported layout version {version}"
  | sectionOutside name offset length =>
    s!"Section {Text.quoted name} (offset {offset}, length {length}) lies outside the image"
  | unsupportedCodec name => s!"Unsupported compression codec {Text.quoted name}"

def CountProblem.message : CountProblem → String
  | shortfall record declared found =>
    s!"expected {declared} {record} records, stream ended after {found}"
  | leftover => "unread data after the last declared record"

def Problem.message : Problem → String
  | format cause => cause.message
  | malformed cause => cause.message
  | count cause => cause.message
  | unknownDiffType value => s!"unknown DiffEntry type {value}"
  | stringTableNotLoaded => "string table referenced before the STRING_TABLE section"

instance : Coe RecordProblem Problem := ⟨.malformed⟩

instance : Coe FormatProblem Problem := ⟨.format⟩

instance : Coe CountProblem Problem := ⟨.count⟩

/-- A problem and the section in which it was met, if it was met in one. -/
structure Failure where
  problem : Problem
  foundIn : Option String := none
  deriving DecidableEq, Repr

/-- The wording of a failure: a section with a name of its own is put in front. -/
def Failure.message (failure : Failure) : String :=
  match failure.foundIn with
  | none | some "" => failure.problem.message
  | some name => s!"{name}: {failure.problem.message}"

end Checkpoint
