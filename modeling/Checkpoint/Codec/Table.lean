import Checkpoint.Codec.Bzip2
import Checkpoint.Codec.Zlib

/-! # Codecs

The codecs that sections can be compressed with, by the name in the summary. -/
namespace Checkpoint

inductive CodecChoice where
  /-- Sections are stored as they are. -/
  | stored
  | compressed (decompressor : Decompressor)
  /-- There is no codec of that name. -/
  | unsupported

def CodecChoice.isCompressed : CodecChoice → Bool
  | compressed _ => true
  | stored | unsupported => false

abbrev CodecTable := String → CodecChoice

def CodecTable.choose (codecs : CodecTable) (name : String) : Except FormatProblem CodecChoice :=
  match codecs name with
  | .unsupported => .error (.unsupportedCodec name)
  | choice => .ok choice

inductive Codec where
  | bzip2
  | zlib
  | gzip
  deriving DecidableEq, Repr

namespace Codec

def all : List Codec := [bzip2, zlib, gzip]

def name : Codec → String
  | bzip2 => "org.apache.hadoop.io.compress.BZip2Codec"
  | zlib => "org.apache.hadoop.io.compress.DefaultCodec"
  | gzip => "org.apache.hadoop.io.compress.GzipCodec"

def member : Codec → (limit : Nat) → Decoder Unit
  | bzip2 => Bzip2.member
  | zlib => Zlib.member
  | gzip => Gzip.member

def decompressor (codec : Codec) : Decompressor := .ofDecoder (Decoder.decode codec.member)

/-- The codecs by name; sections of images without a codec name are stored as they are. -/
def table : CodecTable := fun name =>
  if name.isEmpty then .stored
  else match all.find? (·.name == name) with
    | some codec => .compressed codec.decompressor
    | none => .unsupported

end Codec

end Checkpoint
