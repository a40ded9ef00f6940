import Checkpoint.Bytes

/-! # Records

A record is kept as what its body said: the occurrences of its fields, in order, each with the
values it carries. An occurrence of a packed field carries any number of values and every other
one carries exactly one. Reading a field picks from the occurrences, so a single field reads as its
last value and a repeated field as all of them. -/
namespace Checkpoint

inductive Value where
  | int (n : Int)
  | flag (b : Bool)
  | text (s : String)
  | bytes (b : Bytes)
  | record (occurrences : List (Nat × List Value))
  deriving Repr

/-- The field numbers that occurred, in order, with the values of each occurrence. -/
abbrev Record := List (Nat × List Value)

namespace Record

def has (r : Record) (number : Nat) : Bool :=
  r.any fun occurrence => occurrence.1 == number

def values (r : Record) (number : Nat) : List Value :=
  (r.filter fun occurrence => occurrence.1 == number).flatMap (·.2)

/-- The last value of a field. -/
def value? (r : Record) (number : Nat) : Option Value :=
  (values r number).getLast?

end Record

namespace Value

def int? : Value → Option Int
  | int n => some n
  | _ => none

def flag? : Value → Option Bool
  | flag b => some b
  | _ => none

def text? : Value → Option String
  | text s => some s
  | _ => none

def bytes? : Value → Option Bytes
  | bytes b => some b
  | _ => none

def record? : Value → Option Record
  | record occurrences => some occurrences
  | _ => none

end Value

namespace Record

/-- A number field, where it occurred. -/
def int? (r : Record) (number : Nat) : Option Int := (value? r number).bind Value.int?

/-- A number field, zero where it did not occur. -/
def int (r : Record) (number : Nat) : Int := (int? r number).getD 0

/-- A field with an unsigned number, zero where it did not occur. -/
def nat (r : Record) (number : Nat) : Nat := (int r number).toNat

/-- A truth value, false where it did not occur. -/
def flag (r : Record) (number : Nat) : Bool := ((value? r number).bind Value.flag?).getD false

/-- A text field, where it occurred. -/
def text? (r : Record) (number : Nat) : Option String := (value? r number).bind Value.text?

/-- A text field, empty where it did not occur. -/
def text (r : Record) (number : Nat) : String := (text? r number).getD ""

/-- A byte string field, where it occurred. -/
def bytes? (r : Record) (number : Nat) : Option Bytes := (value? r number).bind Value.bytes?

/-- A byte string field, empty where it did not occur. -/
def bytes (r : Record) (number : Nat) : Bytes := (bytes? r number).getD []

/-- A record inside the record, where it occurred. -/
def record? (r : Record) (number : Nat) : Option Record := (value? r number).bind Value.record?

def ints (r : Record) (number : Nat) : List Int := (values r number).filterMap Value.int?

def records (r : Record) (number : Nat) : List Record := (values r number).filterMap Value.record?

/-- A field occurs in a record that is put together from two if it occurs in one of them. -/
@[simp] theorem has_append (a b : Record) (number : Nat) :
    has (a ++ b) number = (has a number || has b number) := by
  simp [has]

/-- The values of a field come in the order of the occurrences. -/
@[simp] theorem values_append (a b : Record) (number : Nat) :
    values (a ++ b) number = values a number ++ values b number := by
  simp [values]

end Record

end Checkpoint
