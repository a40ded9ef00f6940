/-! # Tallies

Counts under names, in the order in which the names first came up. -/
namespace Checkpoint

abbrev Tally := List (String × Nat)

namespace Tally

def add (name : String) (n : Nat) : Tally → Tally
  | [] => [(name, n)]
  | (other, m) :: rest =>
    if other = name then (other, m + n) :: rest else (other, m) :: add name n rest

/-- The count of a name, zero if it never came up. -/
def count (name : String) : Tally → Nat
  | [] => 0
  | (other, m) :: rest => if other = name then m else count name rest

def total : Tally → Nat
  | [] => 0
  | (_, n) :: rest => n + total rest

/-- Adding changes the count of one name only. -/
theorem count_add (name other : String) (n : Nat) (tally : Tally) :
    (tally.add name n).count other = tally.count other + if name = other then n else 0 := by
  induction tally with
  | nil => simp [add, count]
  | cons entry rest ih =>
    obtain ⟨first, m⟩ := entry
    by_cases h : first = name <;> by_cases h' : first = other <;> grind [add, count]

end Tally

end Checkpoint
