import Checkpoint.Image.StringTable

/-! # Packed words

Permissions, access control entries and attribute names are words that hold several small numbers
side by side. The identifiers among them are looked up in the string table. -/
namespace Checkpoint

/-- The `width` bits of a word from bit `offset` on. -/
def bitField (word offset width : Nat) : Nat := (word >>> offset) % (1 <<< width)

structure Permission where
  userId : Nat
  groupId : Nat
  mode : Nat
  deriving DecidableEq, Repr

namespace Permission

/-- Unpacks 24 bits of user, 24 bits of group and 16 bits of mode. -/
def ofWord (word : Nat) : Permission where
  userId := bitField word 40 24
  groupId := bitField word 16 24
  mode := bitField word 0 16

/-- The bits of a mode that are shown: the sticky bit and three times read, write, execute. -/
def shownBits : Nat := 0o1777

/-- A mode in octal, at least four digits. -/
def modeText (mode : Nat) : String :=
  Text.padLeft 4 '0' (String.ofList (Nat.toDigits 8 (mode &&& shownBits)))

/-- The text `user:group:mode`, with `null` for a name that the table does not hold. -/
def render (p : Permission) (strings : StringTable) : Except RecordProblem String := do
  let user ← strings.lookup p.userId
  let group ← strings.lookup p.groupId
  return user.getD "null" ++ ":" ++ group.getD "null" ++ ":" ++ modeText p.mode

end Permission

inductive AclSubject where
  | user
  | group
  | mask
  | other
  deriving DecidableEq, Repr

structure AclEntry where
  /-- Whether the entry is only passed on to new children. -/
  isDefault : Bool
  subject : AclSubject
  nameId : Nat
  /-- Read, write and execute, as the bits 4, 2 and 1. -/
  action : Fin 8
  deriving DecidableEq, Repr

namespace AclSubject

def ofBits : Nat → AclSubject
  | 0 => user
  | 1 => group
  | 2 => mask
  | _ => other

def label : AclSubject → String
  | user => "user"
  | group => "group"
  | mask => "mask"
  | other => "other"

end AclSubject

namespace AclEntry

def schema : Schema where
  name := "AclFeatureProto"
  fields := [{ number := 2, name := "entries", kind := .fixed32, repeated := true }]

/-- Unpacks 24 bits of name, one of scope, two of subject and three of action. -/
def ofWord (word : Nat) : AclEntry where
  isDefault := bitField word 5 1 == 1
  subject := .ofBits (bitField word 3 2)
  nameId := bitField word 6 24
  action := Fin.ofNat 8 word

/-- Three letters or dashes for read, write and execute. -/
def actionText (action : Fin 8) : String :=
  let letter (bit : Nat) (c : Char) := if bitField action bit 1 = 1 then c else '-'
  String.ofList [letter 2 'r', letter 1 'w', letter 0 'x']

/-- The text `subject:name:action`, with `default:` in front where it applies. A name that the
table does not hold is left out. -/
def render (e : AclEntry) (strings : StringTable) : Except RecordProblem String := do
  let name ← strings.lookup e.nameId
  return (if e.isDefault then "default:" else "") ++ e.subject.label ++ ":" ++ name.getD "" ++
    ":" ++ actionText e.action

def listOfRecord (r : Record) : List AclEntry := (r.ints 2).map fun word => ofWord word.toNat

/-- The texts of a list of entries, or the first problem among them. -/
def renderAll (entries : List AclEntry) (strings : StringTable) :
    Except RecordProblem (List String) :=
  entries.mapM (·.render strings)

end AclEntry

end Checkpoint
