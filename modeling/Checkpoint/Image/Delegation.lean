import Checkpoint.Wire.Record
import Checkpoint.Wire.Schema

/-! # Delegation

The records of the `SECRET_MANAGER` section: the keys that delegation tokens are signed with and
the tokens themselves. Every field may be missing. -/
namespace Checkpoint

/-- The leading record of the section. -/
structure DelegationHeader where
  currentId : Option Int
  tokenSequenceNumber : Option Int
  numKeys : Option Int
  numTokens : Option Int

/-- A key for signing tokens. -/
structure DelegationKey where
  id : Option Int
  expiryDate : Option Int
  key : Option Bytes

structure DelegationToken where
  version : Option Int
  owner : Option String
  renewer : Option String
  realUser : Option String
  issueDate : Option Int
  maxDate : Option Int
  sequenceNumber : Option Int
  masterKeyId : Option Int
  expiryDate : Option Int

namespace DelegationHeader

def schema : Schema where
  name := "SecretManagerSection"
  fields := [
    { number := 1, name := "currentId", kind := .int32 },
    { number := 2, name := "tokenSequenceNumber", kind := .int32 },
    { number := 3, name := "numKeys", kind := .int32 },
    { number := 4, name := "numTokens", kind := .int32 }]

def ofRecord (r : Record) : DelegationHeader where
  currentId := r.int? 1
  tokenSequenceNumber := r.int? 2
  numKeys := r.int? 3
  numTokens := r.int? 4

end DelegationHeader

namespace DelegationKey

def schema : Schema where
  name := "DelegationKey"
  fields := [
    { number := 1, name := "id", kind := .int32 },
    { number := 2, name := "expiryDate", kind := .int64 },
    { number := 3, name := "key", kind := .bytes }]

def ofRecord (r : Record) : DelegationKey where
  id := r.int? 1
  expiryDate := r.int? 2
  key := r.bytes? 3

end DelegationKey

namespace DelegationToken

def schema : Schema where
  name := "PersistToken"
  fields := [
    { number := 1, name := "version", kind := .int32 },
    { number := 2, name := "owner", kind := .string },
    { number := 3, name := "renewer", kind := .string },
    { number := 4, name := "realUser", kind := .string },
    { number := 5, name := "issueDate", kind := .int64 },
    { number := 6, name := "maxDate", kind := .int64 },
    { number := 7, name := "sequenceNumber", kind := .int32 },
    { number := 8, name := "masterKeyId", kind := .int32 },
    { number := 9, name := "expiryDate", kind := .int64 }]

def ofRecord (r : Record) : DelegationToken where
  version := r.int? 1
  owner := r.text? 2
  renewer := r.text? 3
  realUser := r.text? 4
  issueDate := r.int? 5
  maxDate := r.int? 6
  sequenceNumber := r.int? 7
  masterKeyId := r.int? 8
  expiryDate := r.int? 9

end DelegationToken

end Checkpoint
