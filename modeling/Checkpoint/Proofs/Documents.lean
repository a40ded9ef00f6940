import Checkpoint.Conversion
import Checkpoint.Proofs.Emission

/-! # Documents

A visit that ends without a failure has written a whole document. A failure leaves nothing at all or
a document that is not finished: its element is open, and so are the elements that the failure
occurred in. -/
namespace Checkpoint

namespace Xml

/-- What a document starts with. -/
def declaration : String := "<?xml version=\"1.0\"?>\n"

/-- To a plain scanner `content` holds no tags but those of inner elements, and leaves the elements of
`stack` open, innermost first, without having closed any out of turn. -/
def Leaves (content : String) (stack : List String) : Prop :=
  ∃ tokens, scan content = some tokens ∧ nest [] tokens = some stack ∧
    ∀ token ∈ tokens, ∀ name, token.name? = some name → Markup.isInner name = true

/-- A declaration, one element with everything else inside, and a line break. -/
def WellFormed (document : String) : Prop :=
  Clean document.toList ∧
  ∃ content, document = declaration ++ "<fsimage>" ++ content ++ "</fsimage>\n" ∧ Leaves content []

/-- The start of a well-formed document in which the outermost element is still open. -/
def Unfinished (document : String) : Prop :=
  Clean document.toList ∧
  (∃ content stack, document = declaration ++ "<fsimage>" ++ content ∧ Leaves content stack) ∧
  ¬"</fsimage>".toList <:+: document.toList ∧
  ∃ more, WellFormed (document ++ more)

end Xml

namespace Markup

/-- The pieces of a document up to some point inside of its element. -/
def begun (inside : List Markup) : List Markup :=
  .verbatim Xml.declaration :: .opening "fsimage" :: inside

/-- The pieces of a document. -/
def whole (inside : List Markup) : List Markup := begun inside ++ [.closing "fsimage" true]

variable {inside pieces : List Markup}

theorem isName_fsimage : Xml.isName "fsimage" = true := by decide

theorem renderAll_begun (inside : List Markup) :
    renderAll (begun inside) = Xml.declaration ++ "<fsimage>" ++ renderAll inside := by
  rw [begun, renderAll_cons, renderAll_cons, String.append_assoc]
  rfl

theorem renderAll_whole (inside : List Markup) : renderAll (whole inside) =
    Xml.declaration ++ "<fsimage>" ++ renderAll inside ++ "</fsimage>\n" := by
  rw [whole, renderAll_append, renderAll_begun]
  rfl

theorem Row.leaves {stack : List String} (h : Row inside)
    (ht : ∀ tag ∈ inside.filterMap tag?, isInner tag = true)
    (hn : Xml.nest [] (inside.flatMap tokens) = some stack) :
    Xml.Leaves (renderAll inside) stack := by
  refine ⟨_, h.scan, hn, fun token hm name hname => ht name ?_⟩
  rw [← filterMap_name?]
  exact List.mem_filterMap.mpr ⟨token, hm, hname⟩

theorem Row.clean_begun (h : Row inside) : Xml.Clean (renderAll (begun inside)).toList := by
  rw [begun, renderAll_cons, String.toList_append]
  exact (Xml.Clean.of_all (by decide)).append (Row.opening isName_fsimage h).clean

/-- Nested pieces make a well-formed document. -/
theorem Nested.wellFormed (h : Nested inside) : Xml.WellFormed (renderAll (whole inside)) := by
  refine ⟨?_, _, renderAll_whole inside, h.row.leaves h.tags (h.nest [])⟩
  exact (h.row.append (.closing isName_fsimage .nil)).clean_begun

theorem scanFrom_declaration {rest : List Char} (h : Xml.AtTag rest) :
    Xml.scanFrom (.text []) (Xml.declaration.toList ++ rest) =
      (Xml.scanFrom (.text []) rest).map
        ([.opening "?xml version=\"1.0\"?", .text "\n"] ++ ·) := by
  have hd : Xml.declaration.toList = '<' :: "?xml version=\"1.0\"?".toList ++ ['>', '\n'] := by
    decide
  have ho : Xml.Token.ofTag "?xml version=\"1.0\"?".toList = .opening "?xml version=\"1.0\"?" := by
    decide
  have hn : '>' ∉ "?xml version=\"1.0\"?".toList := by decide
  have hs := Xml.scanFrom_between hn ('\n' :: rest)
  rw [ho, Xml.scanFrom, if_neg (by decide), Xml.scanFrom_atTag h, Option.map_map] at hs
  rw [hd, List.append_assoc]
  exact hs

/-- The tags of a document come after the declaration and the line break in it. -/
theorem Row.scanFrom_begun (h : Row pieces) :
    Xml.scanFrom (.text []) (Xml.declaration.toList ++ (renderAll pieces).toList) =
      some (.opening "?xml version=\"1.0\"?" :: .text "\n" :: pieces.flatMap tokens) := by
  have hs := h.scan
  rw [Xml.scan] at hs
  rw [scanFrom_declaration h.atTag, hs]
  rfl

/-- The closing tag of the outermost element is nowhere in what has been begun. -/
theorem Open.not_infix (h : Open inside) :
    ¬"</fsimage>".toList <:+: (renderAll (begun inside)).toList := by
  -- a scan of what has been begun would see the tag, but it sees only inner tags and the outer one
  rintro ⟨front, back, he⟩
  have hr : Row (.opening "fsimage" :: inside) := .opening isName_fsimage h.row
  have ht : "</fsimage>".toList = '<' :: '/' :: "fsimage".toList ++ ['>'] := by decide
  have hd : front ++ ('<' :: '/' :: "fsimage".toList ++ '>' :: back) =
      Xml.declaration.toList ++ (renderAll (.opening "fsimage" :: inside)).toList := by
    rw [begun, renderAll_cons, render, String.toList_append, ht] at he
    rw [← he, List.append_assoc, List.append_assoc]
    rfl
  have hs := hr.scanFrom_begun
  rw [← hd] at hs
  rcases Xml.closing_mem_of_scanFrom (by decide) hs with hm | ⟨token, hm, hb⟩
  · have hm : .closing "fsimage" ∈ inside.flatMap tokens := by simpa [tokens] using hm
    have hi : "fsimage" ∈ inside.filterMap tag? := by
      rw [← filterMap_name?]
      exact List.mem_filterMap.mpr ⟨_, hm, rfl⟩
    exact absurd (h.tags _ hi) (by decide)
  · rcases List.mem_cons.mp hm with rfl | hm
    · obtain ⟨name, hn, hb⟩ := hb
      obtain rfl := Option.some.inj hn
      exact absurd hb (by decide)
    rcases List.mem_cons.mp hm with rfl | hm
    · obtain ⟨name, hn, -⟩ := hb
      cases hn
    · exact hr.not_hasBracket hm hb

/-- Open pieces make an unfinished document. -/
theorem Open.unfinished (h : Open inside) : Xml.Unfinished (renderAll (begun inside)) := by
  refine ⟨h.row.clean_begun, ?_, h.not_infix, ?_⟩
  · obtain ⟨opened, ho⟩ := h.nest
    exact ⟨_, _, renderAll_begun inside, h.row.leaves h.tags (ho [])⟩
  · obtain ⟨more, hm⟩ := h.complete
    refine ⟨renderAll (more ++ [.closing "fsimage" true]), ?_⟩
    rw [← renderAll_append]
    simpa [whole, begun] using hm.wellFormed

end Markup

end Checkpoint
