/-! # Numbers as text

Decimal digits in groups of three, and digits padded to a width. -/
namespace Checkpoint.Text

/-- Pads `text` with `fill` on the left up to `width` characters. -/
def padLeft (width : Nat) (fill : Char) (text : String) : String :=
  String.ofList (List.replicate (width - text.length) fill) ++ text

/-- Pads `text` with `fill` on the right up to `width` characters. -/
def padRight (width : Nat) (fill : Char) (text : String) : String :=
  text ++ String.ofList (List.replicate (width - text.length) fill)

/-- The decimal digits of `n`, at least `width` of them. -/
def zeroPadded (width n : Nat) : String :=
  padLeft width '0' (toString n)

/-- The decimal text of an integer, filled up with zeros between the sign and the digits so that
the whole has at least `width` characters. -/
def zeroPaddedInt (width : Nat) (n : Int) : String :=
  if n < 0 then "-" ++ zeroPadded (width - 1) n.natAbs else zeroPadded width n.natAbs

/-- A comma before every third digit counted from the end of `digits`. -/
def groupThousands (digits : List Char) : List Char :=
  digits.zipIdx.flatMap fun (d, i) =>
    if i ≠ 0 ∧ (digits.length - i) % 3 = 0 then [',', d] else [d]

/-- The decimal text of an integer with a comma between groups of three digits. -/
def grouped (n : Int) : String :=
  (if n < 0 then "-" else "") ++ String.ofList (groupThousands (Nat.toDigits 10 n.natAbs))

example : grouped 999 = "999" ∧ grouped (-1000) = "-1,000" ∧ grouped 1234567 = "1,234,567" := by
  cbv

end Checkpoint.Text
