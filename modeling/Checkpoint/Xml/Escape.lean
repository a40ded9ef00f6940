/-! # Escaping

Making any text fit to stand inside an element. The five characters that mean something to an XML
reader become entity references. Characters that XML cannot hold, and the backslash itself, become
a backslash, four hexadecimal digits and a semicolon, so that nothing is lost. -/
namespace Checkpoint.Xml

/-- A code point, which need not be a character: texts may hold lone surrogates. -/
abbrev CodePoint := Fin 0x110000

def codePoint (c : Char) : CodePoint :=
  ⟨c.toNat, by
    have h := c.valid
    simp only [UInt32.isValidChar, Nat.isValidChar] at h
    simp only [Char.toNat]
    omega⟩

/-- Whether a code point is one that XML cannot hold. -/
def isIllegal (n : Nat) : Bool :=
  n ≤ 0x08 || n == 0x0B || n == 0x0C || (0x0E ≤ n && n ≤ 0x1F) || (0xD800 ≤ n && n ≤ 0xDFFF) ||
    n == 0xFFFE || n == 0xFFFF

/-- The four hexadecimal digits of a number below 65,536. -/
def hexDigits (n : Nat) : List Char :=
  [Nat.digitChar (n / 4096 % 16), Nat.digitChar (n / 256 % 16), Nat.digitChar (n / 16 % 16),
   Nat.digitChar (n % 16)]

/-- What stands for a code point inside an element. -/
def escapeOne (p : CodePoint) : List Char :=
  match Char.ofNat p with
  | '&' => "&amp;".toList
  | '<' => "&lt;".toList
  | '>' => "&gt;".toList
  | '"' => "&quot;".toList
  | '\'' => "&apos;".toList
  | c => if isIllegal p || c == '\\' then '\\' :: hexDigits p ++ [';'] else [c]

def escapePoints (points : List CodePoint) : List Char := points.flatMap escapeOne

def escape (text : String) : String :=
  String.ofList (escapePoints (text.toList.map codePoint))

end Checkpoint.Xml
