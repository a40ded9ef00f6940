import Checkpoint.Wire.Record
import Checkpoint.Wire.Schema

/-! # Name system

The record of the `NS_INFO` section: the identity of the namespace and the counters that a name
node continues from. -/
namespace Checkpoint

/-- Identity and counters of a namespace. -/
structure NameSystem where
  namespaceId : Int
  genstampV1 : Int
  genstampV2 : Int
  genstampV1Limit : Int
  lastAllocatedBlockId : Int
  transactionId : Int

namespace NameSystem

def schema : Schema where
  name := "NameSystemSection"
  fields := [
    { number := 1, name := "namespaceId", kind := .int32 },
    { number := 2, name := "genstampV1", kind := .int64 },
    { number := 3, name := "genstampV2", kind := .int64 },
    { number := 4, name := "genstampV1Limit", kind := .int64 },
    { number := 5, name := "lastAllocatedBlockId", kind := .int64 },
    { number := 6, name := "transactionId", kind := .int64 }]

def ofRecord (r : Record) : NameSystem where
  namespaceId := r.int 1
  genstampV1 := r.int 2
  genstampV2 := r.int 3
  genstampV1Limit := r.int 4
  lastAllocatedBlockId := r.int 5
  transactionId := r.int 6

end NameSystem

end Checkpoint
