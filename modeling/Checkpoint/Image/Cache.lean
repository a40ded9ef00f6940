import Checkpoint.Wire.Record
import Checkpoint.Wire.Schema

/-! # Cache

The records of the `CACHE_MANAGER` section: pools, and the directives that keep paths cached. -/
namespace Checkpoint

/-- The leading record of the section. -/
structure CacheHeader where
  nextDirectiveId : Int
  numPools : Int
  numDirectives : Int

structure CachePool where
  poolName : Option String
  ownerName : Option String
  groupName : Option String
  mode : Option Int
  limit : Option Int
  maxRelativeExpiry : Option Int

/-- When a directive ends. -/
structure Expiration where
  millis : Option Int
  isRelative : Bool

/-- A path that is to be cached. -/
structure CacheDirective where
  id : Option Int
  path : Option String
  replication : Option Int
  pool : Option String
  expiration : Option Expiration

namespace CacheHeader

def schema : Schema where
  name := "CacheManagerSection"
  fields := [
    { number := 1, name := "nextDirectiveId", kind := .int64 },
    { number := 2, name := "numPools", kind := .int32 },
    { number := 3, name := "numDirectives", kind := .int32 }]

def ofRecord (r : Record) : CacheHeader := ⟨r.int 1, r.int 2, r.int 3⟩

end CacheHeader

namespace CachePool

def schema : Schema where
  name := "CachePoolInfoProto"
  fields := [
    { number := 1, name := "poolName", kind := .string },
    { number := 2, name := "ownerName", kind := .string },
    { number := 3, name := "groupName", kind := .string },
    { number := 4, name := "mode", kind := .int32 },
    { number := 5, name := "limit", kind := .int64 },
    { number := 6, name := "maxRelativeExpiry", kind := .int64 }]

def ofRecord (r : Record) : CachePool where
  poolName := r.text? 1
  ownerName := r.text? 2
  groupName := r.text? 3
  mode := r.int? 4
  limit := r.int? 5
  maxRelativeExpiry := r.int? 6

end CachePool

namespace Expiration

def schema : Schema where
  name := "CacheDirectiveInfoExpirationProto"
  fields := [
    { number := 1, name := "millis", kind := .int64 },
    { number := 2, name := "isRelative", kind := .bool }]

def ofRecord (r : Record) : Expiration := ⟨r.int? 1, r.flag 2⟩

end Expiration

namespace CacheDirective

def schema : Schema where
  name := "CacheDirectiveInfoProto"
  fields := [
    { number := 1, name := "id", kind := .int64 },
    { number := 2, name := "path", kind := .string },
    { number := 3, name := "replication", kind := .int32 },
    { number := 4, name := "pool", kind := .string },
    { number := 5, name := "expiration", kind := .message Expiration.schema }]

def ofRecord (r : Record) : CacheDirective where
  id := r.int? 1
  path := r.text? 2
  replication := r.int? 3
  pool := r.text? 4
  expiration := (r.record? 5).map Expiration.ofRecord

end CacheDirective

end Checkpoint
