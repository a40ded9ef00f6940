import Checkpoint.Proofs.Escaping
import Checkpoint.Proofs.Rendering
import Checkpoint.Proofs.Scanner

/-! # Rows of tags

In the documents that are written, text stands only inside of fields. Of such a row of tags and fields
a plain scanner sees just the tags and the texts, whatever the texts are. -/
namespace Checkpoint

namespace Xml

/-- Whether a text can be the name of an element: a letter, and then letters, digits and hyphens. -/
def isName (name : String) : Bool :=
  match name.toList with
  | [] => false
  | c :: rest => c.isAlpha && rest.all fun c => c.isAlphanum || c == '-'

variable {name : String}

theorem toNat_of_isAlphanum {c : Char} (h : c.isAlphanum = true) :
    (65 ≤ c.toNat ∧ c.toNat ≤ 90) ∨ (97 ≤ c.toNat ∧ c.toNat ≤ 122) ∨
      (48 ≤ c.toNat ∧ c.toNat ≤ 57) := by
  have bounds : ∀ low high : Char, low.val ≤ c.val ∧ c.val ≤ high.val →
      low.toNat ≤ c.toNat ∧ c.toNat ≤ high.toNat :=
    fun _ _ hb => ⟨UInt32.le_iff_toNat_le.mp hb.1, UInt32.le_iff_toNat_le.mp hb.2⟩
  have both : ∀ low high : Char, (decide (c.val ≥ low.val) && decide (c.val ≤ high.val)) = true →
      low.val ≤ c.val ∧ c.val ≤ high.val := by
    intro low high hb
    obtain ⟨hl, hh⟩ := (Bool.and_eq_true _ _).mp hb
    exact ⟨of_decide_eq_true hl, of_decide_eq_true hh⟩
  rcases (Bool.or_eq_true _ _).mp h with h | h
  · rcases (Bool.or_eq_true _ _).mp h with h | h
    · exact .inl (bounds 'A' 'Z' (of_decide_eq_true h))
    · exact .inr (.inl (bounds 'a' 'z' (both 'a' 'z' h)))
  · exact .inr (.inr (bounds '0' '9' (both '0' '9' h)))

theorem plain_of_isAlphanum {c : Char} (h : (c.isAlphanum || c == '-') = true) :
    isLegal c = true ∧ c ∉ ['<', '>', '/', '&'] := by
  have hn : ((65 ≤ c.toNat ∧ c.toNat ≤ 90) ∨ (97 ≤ c.toNat ∧ c.toNat ≤ 122) ∨
      (48 ≤ c.toNat ∧ c.toNat ≤ 57)) ∨ c.toNat = 45 := by
    rcases (Bool.or_eq_true _ _).mp h with h | h
    · exact .inl (toNat_of_isAlphanum h)
    · exact .inr (by rw [eq_of_beq h]; rfl)
  constructor
  · simp only [isLegal, Bool.or_eq_true, Bool.and_eq_true, decide_eq_true_eq]
    omega
  · simp only [List.mem_cons, List.not_mem_nil, or_false]
    rintro (rfl | rfl | rfl | rfl) <;> exact absurd hn (by decide)

theorem plain_of_isName (h : isName name = true) {c : Char} (hc : c ∈ name.toList) :
    isLegal c = true ∧ c ∉ ['<', '>', '/', '&'] := by
  unfold isName at h
  split at h
  · cases h
  · rename_i first rest he
    obtain ⟨hf, hr⟩ := (Bool.and_eq_true _ _).mp h
    rw [he] at hc
    rcases List.mem_cons.mp hc with rfl | hc
    · exact plain_of_isAlphanum (by simp [Char.isAlphanum, hf])
    · exact plain_of_isAlphanum (List.all_eq_true.mp hr c hc)

theorem not_mem_of_isName (h : isName name = true) {c : Char} (hc : c ∈ ['<', '>', '/', '&']) :
    c ∉ name.toList :=
  fun hm => (plain_of_isName h hm).2 hc

theorem ofTag_name (h : isName name = true) : Token.ofTag name.toList = .opening name := by
  have hs := not_mem_of_isName h (c := '/') (by simp)
  unfold Token.ofTag
  split
  · rename_i he
    rw [he] at hs
    exact absurd List.mem_cons_self hs
  · rw [if_neg, String.ofList_toList]
    intro hl
    exact hs (List.mem_of_getLast? hl)

theorem ofTag_slash : Token.ofTag ('/' :: name.toList) = .closing name := by
  simp [Token.ofTag]

theorem ofTag_name_slash (h : isName name = true) :
    Token.ofTag (name.toList ++ ['/']) = .empty name := by
  have hs := not_mem_of_isName h (c := '/') (by simp)
  unfold Token.ofTag
  split
  · rename_i he
    cases hn : name.toList with
    | nil => simp [isName, hn] at h
    | cons c rest =>
      rw [hn] at he hs
      obtain ⟨rfl, -⟩ := List.cons.inj he
      exact absurd List.mem_cons_self hs
  · simp

theorem scanFrom_between {inside : List Char} (h : '>' ∉ inside) (rest : List Char) :
    scanFrom (.text []) ('<' :: inside ++ '>' :: rest) =
      (scanFrom (.text []) rest).map (Token.ofTag inside :: ·) := by
  rw [List.cons_append, scanFrom, if_pos rfl, scanFrom_tag h, Option.map_map]
  rfl

theorem escape_eq_empty {text : String} (h : escape text = "") : text = "" := by
  have hu := unescape_escape text
  rw [h] at hu
  exact String.toList_eq_nil_iff.mp (List.map_eq_nil_iff.mp hu.symm)

end Xml

namespace Markup

/-- What a plain scanner is to see of a piece. -/
def tokens : Markup → List Xml.Token
  | opening tag => [.opening tag]
  | closing tag false => [.closing tag]
  | closing tag true => [.closing tag, .text "\n"]
  | empty tag => [.empty tag]
  | text content => if content = "" then [] else [.text (Xml.escape content)]
  | verbatim _ => []

/-- The name of a tag. -/
def tag? : Markup → Option String
  | opening tag | closing tag _ | empty tag => some tag
  | text _ | verbatim _ => none

/-- Tags one after the other, with text only in fields. -/
inductive Row : List Markup → Prop
  | nil : Row []
  | opening {tag rest} : Xml.isName tag = true → Row rest → Row (.opening tag :: rest)
  | closing {tag newline rest} : Xml.isName tag = true → Row rest →
      Row (.closing tag newline :: rest)
  | empty {tag rest} : Xml.isName tag = true → Row rest → Row (.empty tag :: rest)
  | field {tag content rest} : Xml.isName tag = true → Row rest → Row (field tag content ++ rest)

variable {pieces more : List Markup}

theorem Row.append (h : Row pieces) (hm : Row more) : Row (pieces ++ more) := by
  induction h with
  | nil => exact hm
  | opening ht _ ih => exact .opening ht ih
  | closing ht _ ih => exact .closing ht ih
  | empty ht _ ih => exact .empty ht ih
  | field ht _ ih => rw [List.append_assoc]; exact .field ht ih

/-- What the scanner sees is named as what is asked for. -/
theorem filterMap_name? (pieces : List Markup) :
    (pieces.flatMap tokens).filterMap Xml.Token.name? = pieces.filterMap tag? := by
  induction pieces with
  | nil => rfl
  | cons piece rest ih =>
    rw [List.flatMap_cons, List.filterMap_append, ih]
    cases piece with
    | closing tag newline => cases newline <;> rfl
    | text content =>
      rw [tokens]
      split <;> rfl
    | _ => rfl

theorem Row.isName (h : Row pieces) : ∀ tag ∈ pieces.filterMap tag?, Xml.isName tag = true := by
  induction h with
  | nil => exact fun _ ht => nomatch ht
  | opening ht _ ih => exact List.forall_mem_cons.mpr ⟨ht, ih⟩
  | closing ht _ ih => exact List.forall_mem_cons.mpr ⟨ht, ih⟩
  | empty ht _ ih => exact List.forall_mem_cons.mpr ⟨ht, ih⟩
  | field ht _ ih => exact List.forall_mem_cons.mpr ⟨ht, List.forall_mem_cons.mpr ⟨ht, ih⟩⟩

/-- No tag of a row holds an angle bracket. -/
theorem Row.not_hasBracket (h : Row pieces) {token : Xml.Token}
    (ht : token ∈ pieces.flatMap tokens) : ¬token.HasBracket := by
  rintro ⟨name, hn, hb⟩
  have hm : name ∈ pieces.filterMap tag? := by
    rw [← filterMap_name?]
    exact List.mem_filterMap.mpr ⟨token, ht, hn⟩
  exact Xml.not_mem_of_isName (h.isName name hm) (by simp) hb

theorem toList_renderAll (pieces : List Markup) :
    (renderAll pieces).toList = pieces.flatMap (·.render.toList) := by
  induction pieces with
  | nil => rfl
  | cons piece rest ih => rw [renderAll_cons, String.toList_append, ih, List.flatMap_cons]

/-! ## Scanning -/

theorem toList_opening (tag : String) :
    (render (.opening tag)).toList = '<' :: tag.toList ++ ['>'] := by simp [render]

theorem toList_closing (tag : String) (newline : Bool) : (render (.closing tag newline)).toList =
    '<' :: '/' :: tag.toList ++ '>' :: if newline then ['\n'] else [] := by
  cases newline <;> simp [render]

theorem toList_empty (tag : String) :
    (render (.empty tag)).toList = '<' :: (tag.toList ++ ['/']) ++ ['>'] := by simp [render]

theorem Row.atTag (h : Row pieces) : Xml.AtTag (renderAll pieces).toList := by
  rw [toList_renderAll]
  cases h with
  | nil => exact .inl rfl
  | opening _ _ => exact .inr ⟨_, by rw [List.flatMap_cons, toList_opening]; rfl⟩
  | closing _ _ => exact .inr ⟨_, by rw [List.flatMap_cons, toList_closing]; rfl⟩
  | empty _ _ => exact .inr ⟨_, by rw [List.flatMap_cons, toList_empty]; rfl⟩
  | field _ _ => exact .inr ⟨_, by rw [Markup.field, List.cons_append, List.flatMap_cons, toList_opening]; rfl⟩

theorem scanFrom_opening {tag : String} (ht : Xml.isName tag = true) (rest : List Char) :
    Xml.scanFrom (.text []) ((render (.opening tag)).toList ++ rest) =
      (Xml.scanFrom (.text []) rest).map (.opening tag :: ·) := by
  have h := Xml.scanFrom_between (Xml.not_mem_of_isName ht (c := '>') (by simp)) rest
  rw [Xml.ofTag_name ht] at h
  rw [toList_opening, List.append_assoc]
  exact h

theorem scanFrom_closing {tag : String} (ht : Xml.isName tag = true) {rest : List Char}
    (hr : Xml.AtTag rest) (newline : Bool) :
    Xml.scanFrom (.text []) ((render (.closing tag newline)).toList ++ rest) =
      (Xml.scanFrom (.text []) rest).map (tokens (.closing tag newline) ++ ·) := by
  have hn : '>' ∉ '/' :: tag.toList := by
    simpa using Xml.not_mem_of_isName ht (c := '>') (by simp)
  rw [toList_closing, List.append_assoc, List.cons_append]
  cases newline with
  | false =>
    have h := Xml.scanFrom_between hn rest
    rw [Xml.ofTag_slash] at h
    exact h
  | true =>
    have h := Xml.scanFrom_between hn ('\n' :: rest)
    rw [Xml.ofTag_slash, Xml.scanFrom, if_neg (by decide), Xml.scanFrom_atTag hr,
      Option.map_map] at h
    exact h

theorem scanFrom_empty {tag : String} (ht : Xml.isName tag = true) (rest : List Char) :
    Xml.scanFrom (.text []) ((render (.empty tag)).toList ++ rest) =
      (Xml.scanFrom (.text []) rest).map (.empty tag :: ·) := by
  have hn : '>' ∉ tag.toList ++ ['/'] := by
    simpa using Xml.not_mem_of_isName ht (c := '>') (by simp)
  have h := Xml.scanFrom_between hn rest
  rw [Xml.ofTag_name_slash ht] at h
  rw [toList_empty, List.append_assoc]
  exact h

theorem tokens_text (content : String) :
    tokens (.text content) = Xml.Token.ofText (Xml.escape content).toList.reverse := by
  by_cases he : content = ""
  · have hn : Xml.escape "" = "" := by simp [Xml.escape, Xml.escapePoints]
    simp [tokens, Xml.Token.ofText, he, hn]
  · have hn : Xml.escape content ≠ "" := fun h => he (Xml.escape_eq_empty h)
    simp [tokens, Xml.Token.ofText, he, hn]

theorem scanFrom_text (content : String) {rest : List Char} (hr : Xml.AtTag rest) :
    Xml.scanFrom (.text []) ((render (.text content)).toList ++ rest) =
      (Xml.scanFrom (.text []) rest).map (tokens (.text content) ++ ·) := by
  have hn : '<' ∉ (Xml.escape content).toList := fun h => (Xml.escape_chars h).2 (by simp)
  rw [render, Xml.scanFrom_text hn, Xml.scanFrom_atTag hr, List.append_nil, tokens_text]

/-- Of a row the scanner sees what it is to see. -/
theorem Row.scan (h : Row pieces) :
    Xml.scan (renderAll pieces) = some (pieces.flatMap tokens) := by
  rw [Xml.scan]
  induction h with
  | nil => rfl
  | @opening tag rest ht _ ih =>
    rw [toList_renderAll, List.flatMap_cons, ← toList_renderAll, scanFrom_opening ht, ih]
    rfl
  | @closing tag newline rest ht hr ih =>
    rw [toList_renderAll, List.flatMap_cons, ← toList_renderAll, scanFrom_closing ht hr.atTag, ih]
    rfl
  | @empty tag rest ht _ ih =>
    rw [toList_renderAll, List.flatMap_cons, ← toList_renderAll, scanFrom_empty ht, ih]
    rfl
  | @field tag content rest ht hr ih =>
    have hc : Row (.closing tag false :: rest) := .closing ht hr
    simp only [Markup.field, List.cons_append, List.nil_append]
    rw [toList_renderAll, List.flatMap_cons, List.flatMap_cons, ← toList_renderAll,
      scanFrom_opening ht, scanFrom_text _ hc.atTag, toList_renderAll, List.flatMap_cons,
      ← toList_renderAll, scanFrom_closing ht hr.atTag, ih]
    rfl

/-! ## Characters -/

theorem clean_name {tag : String} (h : Xml.isName tag = true) : Xml.Clean tag.toList := by
  refine .of_plain fun c hc => ?_
  obtain ⟨hl, hn⟩ := Xml.plain_of_isName h hc
  exact ⟨hl, fun he => hn (by simp [he])⟩

theorem clean_opening {tag : String} (h : Xml.isName tag = true) :
    Xml.Clean (render (.opening tag)).toList := by
  rw [toList_opening, ← List.singleton_append]
  exact .append (.append (.of_all (by decide)) (clean_name h)) (.of_all (by decide))

theorem clean_closing {tag : String} (h : Xml.isName tag = true) (newline : Bool) :
    Xml.Clean (render (.closing tag newline)).toList := by
  have hs : Xml.Clean ['<', '/'] := .of_all (by decide)
  have he : Xml.Clean ('>' :: if newline then ['\n'] else []) := .of_all (by cases newline <;> decide)
  rw [toList_closing]
  exact (hs.append (clean_name h)).append he

theorem clean_empty {tag : String} (h : Xml.isName tag = true) :
    Xml.Clean (render (.empty tag)).toList := by
  rw [toList_empty, ← List.singleton_append]
  exact .append (.append (.of_all (by decide)) ((clean_name h).append (.of_all (by decide))))
    (.of_all (by decide))

/-- A row is written with characters and references that XML knows. -/
theorem Row.clean (h : Row pieces) : Xml.Clean (renderAll pieces).toList := by
  induction h with
  | nil => exact .of_all rfl
  | opening ht _ ih =>
    rw [renderAll_cons, String.toList_append]
    exact (clean_opening ht).append ih
  | @closing tag newline rest ht _ ih =>
    rw [renderAll_cons, String.toList_append]
    exact (clean_closing ht newline).append ih
  | empty ht _ ih =>
    rw [renderAll_cons, String.toList_append]
    exact (clean_empty ht).append ih
  | @field tag content rest ht _ ih =>
    simp only [Markup.field, List.cons_append, List.nil_append, renderAll_cons,
      String.toList_append]
    exact (clean_opening ht).append (.append (.escape content) ((clean_closing ht false).append ih))

end Markup

end Checkpoint
