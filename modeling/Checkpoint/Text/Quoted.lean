import Checkpoint.Text.Invisible

/-! # Quoted names

A name inside a message stands between quotes, with everything escaped that would not be seen as
itself: the quote, the backslash, and characters without a visible form. -/
namespace Checkpoint.Text

/-- `n` in lower-case hexadecimal, at least `width` digits. -/
def hexPadded (width n : Nat) : List Char :=
  let digits := Nat.toDigits 16 n
  List.replicate (width - digits.length) '0' ++ digits

def quoteChar (quote c : Char) : List Char :=
  if c = quote ∨ c = '\\' then ['\\', c]
  else if c = '\n' then ['\\', 'n']
  else if c = '\r' then ['\\', 'r']
  else if c = '\t' then ['\\', 't']
  else if isInvisible c then
    if c.toNat < 0x100 then '\\' :: 'x' :: hexPadded 2 c.toNat
    else if c.toNat < 0x10000 then '\\' :: 'u' :: hexPadded 4 c.toNat
    else '\\' :: 'U' :: hexPadded 8 c.toNat
  else [c]

/-- Single quotes, unless the name holds one of them and no double quote. -/
def quoteFor (name : List Char) : Char :=
  if name.contains '\'' && !name.contains '"' then '"' else '\''

/-- A name as messages show it. -/
def quoted (name : String) : String :=
  let quote := quoteFor name.toList
  String.ofList (quote :: name.toList.flatMap (quoteChar quote) ++ [quote])

end Checkpoint.Text
