import Mathlib.Data.List.Basic
import Checkpoint.Conversion

/-! # Diagnostic lines

The lines that a conversion leaves in the diagnostic log: one for the image, and for each section
one that passes it over, one that announces it or one that says how many records it had. Their ends
tell the lines that announce a section from the others, and the name and the number on a line of the
last sort can be read back. -/
namespace Checkpoint

/-- The line of an image that can be opened. -/
def Summary.line (summary : Summary) : String :=
  "Image layout " ++ toString summary.layoutVersion ++ ", codec " ++
    (if summary.codec.isEmpty then "none" else summary.codec) ++ ", " ++
    toString summary.sections.length ++ " sections"

namespace SectionEntry

/-- The line of a section that is passed over. -/
def skipLine (entry : SectionEntry) : String :=
  "Skipping unknown section " ++ Text.quoted entry.name

/-- The line of a section that is going to be read. -/
def startLine (entry : SectionEntry) : String :=
  "Section " ++ entry.name ++ " at " ++ Text.grouped entry.offset ++ " (" ++
    Text.grouped entry.length ++ " bytes)"

/-- The line of a section that has been completed. -/
def completionLine (entry : SectionEntry) (count : Nat) : String :=
  "Section " ++ entry.name ++ ": " ++ Text.grouped count ++ " records"

end SectionEntry

/-- Only a line that announces a section ends in a bracket. -/
def announces (line : String) : Bool := line.toList.getLast? == some ')'

theorem announces_append {last : String} (first : String) (h : last.toList ≠ []) :
    announces (first ++ last) = announces last := by
  unfold announces
  rw [String.toList_append, List.getLast?_append_of_ne_nil _ h]

theorem Text.toList_quoted (name : String) : (quoted name).toList =
    quoteFor name.toList :: name.toList.flatMap (quoteChar (quoteFor name.toList)) ++
      [quoteFor name.toList] := String.toList_ofList

/-- A quoted name ends in a quote. -/
theorem announces_quoted (name : String) : announces (Text.quoted name) = false := by
  have hq : Text.quoteFor name.toList ≠ ')' := by
    unfold Text.quoteFor
    split <;> decide
  unfold announces
  rw [Text.toList_quoted, List.getLast?_concat]
  simpa using hq

theorem Summary.announces_line (summary : Summary) : announces summary.line = false :=
  (announces_append _ (by decide)).trans (by decide)

namespace SectionEntry

theorem announces_startLine (entry : SectionEntry) : announces entry.startLine = true :=
  (announces_append _ (by decide)).trans (by decide)

theorem announces_completionLine (entry : SectionEntry) (count : Nat) :
    announces (entry.completionLine count) = false :=
  (announces_append _ (by decide)).trans (by decide)

theorem announces_skipLine (entry : SectionEntry) : announces entry.skipLine = false := by
  have hne : (Text.quoted entry.name).toList ≠ [] := by
    rw [Text.toList_quoted]
    exact List.append_ne_nil_of_right_ne_nil _ (List.cons_ne_nil _ _)
  exact (announces_append _ hne).trans (announces_quoted entry.name)

end SectionEntry

/-! ## Reading the lines -/

/-- The line begins as lines of known sections do, and does not announce one. -/
def completes (line : String) : Bool :=
  line.toList.take 8 == "Section ".toList && !announces line

/-- The name and the number on the line of a completed section. -/
def completion? (line : String) : Option (String × Nat) :=
  let text := line.toList.drop 8
  if completes line then
    some (String.ofList (text.takeWhile (· ≠ ':')),
      Nat.ofDigitChars 10 ((text.dropWhile (· ≠ ':')).filter Char.isDigit) 0)
  else none

theorem begins_append (first rest : String) : first.toList <+: (first ++ rest).toList := by
  rw [String.toList_append]
  exact List.prefix_append _ _

theorem completion?_of_begins {start line : String} (h : start.toList <+: line.toList)
    (hl : 8 ≤ start.toList.length) (hs : start.toList.take 8 ≠ "Section ".toList) :
    completion? line = none := by
  obtain ⟨rest, hrest⟩ := h
  have hc : completes line = false := by
    rw [completes, ← hrest, List.take_append_of_le_length hl, beq_false_of_ne hs, Bool.false_and]
  rw [completion?, hc]
  rfl

theorem Summary.completion?_line (summary : Summary) : completion? summary.line = none := by
  have h : "Image layout ".toList <+: summary.line.toList :=
    (begins_append _ _).trans <| (begins_append _ _).trans <| (begins_append _ _).trans <|
      (begins_append _ _).trans <| (begins_append _ _).trans <| begins_append _ _
  exact completion?_of_begins h (by decide) (by decide)

namespace Text

/-- Between the digits there are commas only. -/
theorem filter_groupThousands {digits : List Char} (h : ∀ d ∈ digits, d.isDigit = true) :
    (groupThousands digits).filter Char.isDigit = digits := by
  have hone : ∀ d ∈ digits.zipIdx, (if d.2 ≠ 0 ∧ (digits.length - d.2) % 3 = 0 then [',', d.1]
      else [d.1]).filter Char.isDigit = [d.1] := by
    intro d hd
    have hdigit := h d.1 (List.fst_mem_of_mem_zipIdx hd)
    split <;> simp [hdigit]
  rw [groupThousands, List.filter_flatMap, List.flatMap_congr hone, ← List.map_eq_flatMap,
    List.zipIdx_map_fst]

theorem filter_grouped (n : Nat) :
    (grouped n).toList.filter Char.isDigit = Nat.toDigits 10 n := by
  have hn : ¬(n : Int) < 0 := by omega
  rw [grouped, if_neg hn, String.empty_append, String.toList_ofList, Int.natAbs_natCast]
  exact filter_groupThousands fun d hd => Nat.isDigit_of_mem_toDigits (by decide) (by decide) hd

end Text

namespace SectionEntry

theorem completion?_skipLine (entry : SectionEntry) : completion? entry.skipLine = none :=
  completion?_of_begins (begins_append "Skipping unknown section " _) (by decide) (by decide)

theorem completion?_startLine (entry : SectionEntry) : completion? entry.startLine = none := by
  have hc : completes entry.startLine = false := by
    rw [completes, announces_startLine, Bool.not_true, Bool.and_false]
  rw [completion?, hc]
  rfl

/-- The names of known sections have no colon in them. -/
theorem colon_not_mem_name {entry : SectionEntry} {kind : SectionKind}
    (h : entry.kind = some kind) : ':' ∉ entry.name.toList := by
  have hn : kind.name = entry.name := by
    simpa using List.find?_some h
  rw [← hn]
  cases kind <;> decide

theorem completion?_completionLine {entry : SectionEntry} {kind : SectionKind}
    (h : entry.kind = some kind) (count : Nat) :
    completion? (entry.completionLine count) = some (entry.name, count) := by
  have hline : (entry.completionLine count).toList = "Section ".toList ++ (entry.name.toList ++
      (": ".toList ++ ((Text.grouped count).toList ++ " records".toList))) := by
    simp only [completionLine, String.toList_append, List.append_assoc]
  have hname : ∀ c ∈ entry.name.toList, decide (c ≠ ':') = true := by
    rintro c hc
    rw [decide_eq_true_eq]
    rintro rfl
    exact colon_not_mem_name h hc
  have hcompletes : completes (entry.completionLine count) = true := by
    rw [completes, announces_completionLine, hline, List.take_left' (by decide)]
    rfl
  -- the name has no colon, so it ends at the first one, and after it only the number has digits
  have hcolon : (": ".toList ++ ((Text.grouped count).toList ++ " records".toList)).takeWhile
      (· ≠ ':') = [] := rfl
  have hdigits : ((": ".toList ++ ((Text.grouped count).toList ++ " records".toList)).dropWhile
      (· ≠ ':')).filter Char.isDigit = Nat.toDigits 10 count := by
    change (": ".toList ++ ((Text.grouped count).toList ++ " records".toList)).filter _ = _
    rw [List.filter_append, List.filter_append, Text.filter_grouped]
    exact List.append_nil _
  rw [completion?, if_pos hcompletes, hline, List.drop_left' (by decide),
    List.takeWhile_append_of_pos hname, List.dropWhile_append_of_pos hname, hdigits, hcolon,
    Nat.ofDigitChars_ten_toDigits, List.append_nil, String.ofList_toList]

end SectionEntry

end Checkpoint
