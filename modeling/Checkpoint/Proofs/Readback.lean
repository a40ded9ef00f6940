import Checkpoint.Proofs.TagRow

/-! # Reading a row back

From the tags and texts that a plain scanner sees of a row, the row can be recovered. A text stands
only where a field has one, or is the line break after a closing tag. -/
namespace Checkpoint

namespace Xml

/-- The text that stands in a document as `raw`. -/
def readText (raw : String) : String :=
  String.ofList ((unescape raw.toList).map fun p : CodePoint => Char.ofNat p.val)

theorem readText_escape (text : String) : readText (escape text) = text := by
  have hc : ((fun p : CodePoint => Char.ofNat p.val) ∘ codePoint) = id :=
    funext fun c => Char.ofNat_toNat c
  rw [readText, unescape_escape, List.map_map, hc, List.map_id, String.ofList_toList]

end Xml

namespace Markup

/-- The pieces that tokens stand for: text between tags is escaped, and is a line break if it comes
after a closing tag. -/
def recover : List Xml.Token → List Markup
  | [] => []
  | .closing tag :: .text _ :: rest => .closing tag true :: recover rest
  | .closing tag :: rest => .closing tag false :: recover rest
  | .opening tag :: rest => .opening tag :: recover rest
  | .empty tag :: rest => .empty tag :: recover rest
  | .text raw :: rest => .text (Xml.readText raw) :: recover rest

/-- Pieces without the texts that are empty, of which nothing can be seen. -/
def visible (pieces : List Markup) : List Markup := pieces.filter (· ≠ .text "")

variable {pieces : List Markup}

theorem flatMap_tokens_field (tag content : String) : (field tag content).flatMap tokens =
    .opening tag :: (tokens (.text content) ++ [.closing tag]) := rfl

theorem Row.tokens_ne_text (h : Row pieces) (raw : String) (rest : List Xml.Token) :
    pieces.flatMap tokens ≠ .text raw :: rest := by
  intro he
  cases h with
  | nil => cases he
  | opening _ _ => cases he
  | @closing tag newline _ _ _ => cases newline <;> cases he
  | empty _ _ => cases he
  | field _ _ => cases he

theorem recover_closing (h : Row pieces) (tag : String) (newline : Bool) :
    recover (tokens (.closing tag newline) ++ pieces.flatMap tokens) =
      .closing tag newline :: recover (pieces.flatMap tokens) := by
  cases newline with
  | true => rfl
  | false =>
    have hn := h.tokens_ne_text
    revert hn
    cases pieces.flatMap tokens with
    | nil => exact fun _ => rfl
    | cons token rest =>
      intro hn
      cases token with
      | text raw => exact absurd rfl (hn raw rest)
      | opening name => rfl
      | closing name => rfl
      | empty name => rfl

/-- What is seen of a row is enough to know the row, but for texts that are empty. -/
theorem Row.recover (h : Row pieces) : recover (pieces.flatMap tokens) = visible pieces := by
  induction h with
  | nil => rfl
  | opening _ _ ih => exact congrArg _ ih
  | @closing tag newline rest _ hr ih =>
    rw [List.flatMap_cons, recover_closing hr, ih]
    rfl
  | empty _ _ ih => exact congrArg _ ih
  | @field tag content rest ht hr ih =>
    have hc := recover_closing hr tag false
    rw [ih] at hc
    rw [List.flatMap_append, flatMap_tokens_field, tokens]
    by_cases he : content = ""
    · have hv : visible (Markup.field tag content ++ rest) =
          .opening tag :: .closing tag false :: visible rest := by
        simp [visible, Markup.field, he]
      rw [hv, if_pos he, ← hc]
      rfl
    · have hv : visible (Markup.field tag content ++ rest) =
          .opening tag :: .text content :: .closing tag false :: visible rest := by
        simp [visible, Markup.field, he]
      rw [hv, if_neg he, List.cons_append, List.append_assoc, List.singleton_append,
        Markup.recover, Markup.recover, Xml.readText_escape, ← hc]
      rfl

theorem visible_field_append (tag content : String) (rest : List Markup) :
    visible (field tag content ++ rest) = .opening tag ::
      ((if content = "" then [] else [.text content]) ++ .closing tag false :: visible rest) := by
  by_cases he : content = ""
  · simp [visible, field, he]
  · simp [visible, field, he]

/-- Pieces that begin with a field, and look like others that do, begin with the same field. -/
theorem visible_field_inj {tag tag' content content' : String} {rest rest' : List Markup}
    (h : visible (field tag content ++ rest) = visible (field tag' content' ++ rest')) :
    tag = tag' ∧ content = content' ∧ visible rest = visible rest' := by
  rw [visible_field_append, visible_field_append] at h
  obtain ⟨htag, h⟩ := List.cons.inj h
  have hcontent : content = content' ∧ visible rest = visible rest' := by
    -- what comes first behind the tag tells whether there is a text
    by_cases he : content = "" <;> by_cases he' : content' = "" <;> simp_all
  exact ⟨Markup.opening.inj htag, hcontent⟩

/-- The text `raw` between tags is the text of a field, or the line break after a closing tag. -/
def Placed (pieces : List Markup) (before : List Xml.Token) (raw : String)
    (after : List Xml.Token) : Prop :=
  (∃ front tag content back, pieces = front ++ field tag content ++ back ∧
    before = front.flatMap tokens ++ [.opening tag] ∧
    after = .closing tag :: back.flatMap tokens ∧
    Xml.unescape raw.toList = content.toList.map Xml.codePoint) ∨
  ∃ front tag back, pieces = front ++ .closing tag true :: back ∧ raw = "\n" ∧
    before = front.flatMap tokens ++ [.closing tag] ∧ after = back.flatMap tokens

variable {before after : List Xml.Token} {raw : String}

theorem Placed.append_left (h : Placed pieces before raw after) (first : List Markup) :
    Placed (first ++ pieces) (first.flatMap tokens ++ before) raw after := by
  rcases h with ⟨front, tag, content, back, rfl, rfl, ha, hu⟩ | ⟨front, tag, back, rfl, hr, rfl, ha⟩
  · exact .inl ⟨first ++ front, tag, content, back, by simp, by simp, ha, hu⟩
  · exact .inr ⟨first ++ front, tag, back, by simp, hr, by simp, ha⟩

/-- A text after a tag is a text among the tokens after the tag. -/
theorem exists_of_tag_cons {token : Xml.Token} {rest : List Xml.Token}
    (ht : ∀ raw, token ≠ .text raw) (h : token :: rest = before ++ .text raw :: after) :
    ∃ more, before = token :: more ∧ rest = more ++ .text raw :: after := by
  rcases List.cons_eq_append_iff.mp h with ⟨-, he⟩ | h
  · exact absurd (List.cons.inj he).1.symm (ht raw)
  · exact h

/-- Where there is text in what is seen of a row. -/
theorem Row.placed (h : Row pieces) {before : List Xml.Token} {raw : String}
    {after : List Xml.Token} (hs : pieces.flatMap tokens = before ++ .text raw :: after) :
    Placed pieces before raw after := by
  induction h generalizing before with
  | nil => simp at hs
  | @opening tag rest _ _ ih =>
    obtain ⟨more, rfl, hm⟩ := exists_of_tag_cons (by simp) hs
    exact (ih hm).append_left [.opening tag]
  | @closing tag newline rest _ _ ih =>
    cases newline with
    | false =>
      obtain ⟨more, rfl, hm⟩ := exists_of_tag_cons (by simp) hs
      exact (ih hm).append_left [.closing tag false]
    | true =>
      obtain ⟨more, rfl, hm⟩ := exists_of_tag_cons (by simp) hs
      rcases List.cons_eq_append_iff.mp hm with ⟨rfl, hr⟩ | ⟨others, rfl, hr⟩
      · obtain ⟨ht, rfl⟩ := List.cons.inj hr
        exact .inr ⟨[], tag, rest, rfl, Xml.Token.text.inj ht, rfl, rfl⟩
      · exact (ih hr).append_left [.closing tag true]
  | @empty tag rest _ _ ih =>
    obtain ⟨more, rfl, hm⟩ := exists_of_tag_cons (by simp) hs
    exact (ih hm).append_left [.empty tag]
  | @field tag content rest _ _ ih =>
    rw [List.flatMap_append, flatMap_tokens_field, List.cons_append, List.append_assoc] at hs
    obtain ⟨more, rfl, hm⟩ := exists_of_tag_cons (by simp) hs
    -- an empty text is not seen, and the closing tag comes right after the opening one
    by_cases he : content = ""
    · rw [tokens, if_pos he, List.nil_append] at hm
      obtain ⟨others, rfl, ho⟩ := exists_of_tag_cons (by simp) hm
      have hp := (ih ho).append_left (Markup.field tag content)
      rw [flatMap_tokens_field, tokens, if_pos he] at hp
      exact hp
    · rw [tokens, if_neg he] at hm
      rcases List.cons_eq_append_iff.mp hm with ⟨rfl, hr⟩ | ⟨others, rfl, hr⟩
      · obtain ⟨ht, rfl⟩ := List.cons.inj hr
        obtain rfl := Xml.Token.text.inj ht
        exact .inl ⟨[], tag, content, rest, rfl, rfl, rfl, Xml.unescape_escape content⟩
      · obtain ⟨last, rfl, hl⟩ := exists_of_tag_cons (by simp) hr
        have hp := (ih hl).append_left (Markup.field tag content)
        rw [flatMap_tokens_field, tokens, if_neg he] at hp
        exact hp

/-- Rows that are written as the same text are the same, but for texts that are empty. -/
theorem Row.visible_eq {others : List Markup} (h : Row pieces) (ho : Row others)
    (he : renderAll pieces = renderAll others) : visible pieces = visible others := by
  have hs := h.scan
  rw [he, ho.scan] at hs
  rw [← h.recover, ← ho.recover, Option.some.inj hs]

end Markup

end Checkpoint
