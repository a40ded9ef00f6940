import Checkpoint.Xml.Escape

/-! # A plain scanner

What a reader sees who knows nothing about a document but that a tag runs from an angle bracket to the
next closing one, and that everything between tags is text. -/
namespace Checkpoint.Xml

/-- A piece of a document as it is seen from outside. -/
inductive Token where
  | opening (name : String)
  | closing (name : String)
  | empty (name : String)
  /-- The text between two tags, as it stands there. -/
  | text (raw : String)
  deriving DecidableEq, Repr

namespace Token

/-- The tag with `inside` between its brackets. -/
def ofTag (inside : List Char) : Token :=
  match inside with
  | '/' :: name => closing (String.ofList name)
  | _ =>
    if inside.getLast? = some '/' then empty (String.ofList inside.dropLast)
    else opening (String.ofList inside)

/-- The text that has been read, last character first, if there is any. -/
def ofText (read : List Char) : List Token :=
  if read.isEmpty then [] else [text (String.ofList read.reverse)]

/-- The name of a tag. -/
def name? : Token → Option String
  | opening name | closing name | empty name => some name
  | text _ => none

/-- A tag with another bracket inside. -/
def HasBracket (token : Token) : Prop := ∃ name, token.name? = some name ∧ '<' ∈ name.toList

end Token

/-- Where a scan is, and what it has read there, last character first. -/
inductive ScanState where
  | text (read : List Char)
  | tag (read : List Char)

/-- Goes on with a scan; there is no result if a tag does not end. -/
def scanFrom : ScanState → List Char → Option (List Token)
  | .text read, [] => some (Token.ofText read)
  | .text read, c :: rest =>
    if c = '<' then (scanFrom (.tag []) rest).map (Token.ofText read ++ ·)
    else scanFrom (.text (c :: read)) rest
  | .tag _, [] => none
  | .tag read, c :: rest =>
    if c = '>' then (scanFrom (.text []) rest).map (Token.ofTag read.reverse :: ·)
    else scanFrom (.tag (c :: read)) rest

/-- The tags and texts of a document in turn. -/
def scan (document : String) : Option (List Token) := scanFrom (.text []) document.toList

/-- The elements that are open after some tokens, innermost first; there is no result if an element is
closed that is not the innermost open one. -/
def nest : (stack : List String) → List Token → Option (List String)
  | stack, [] => some stack
  | stack, .opening name :: rest => nest (name :: stack) rest
  | [], .closing _ :: _ => none
  | top :: stack, .closing name :: rest => if name = top then nest stack rest else none
  | stack, .empty _ :: rest | stack, .text _ :: rest => nest stack rest

/-- The text is at its end or before a tag. -/
def AtTag (rest : List Char) : Prop := rest = [] ∨ ∃ more, rest = '<' :: more

theorem scanFrom_text {text : List Char} (h : '<' ∉ text) (read rest : List Char) :
    scanFrom (.text read) (text ++ rest) = scanFrom (.text (text.reverse ++ read)) rest := by
  induction text generalizing read with
  | nil => rfl
  | cons c text ih =>
    obtain ⟨hc, ht⟩ := not_or.mp (mt List.mem_cons.mpr h)
    rw [List.cons_append, scanFrom, if_neg (Ne.symm hc), ih ht]
    simp

theorem scanFrom_tag {inside : List Char} (h : '>' ∉ inside) (read rest : List Char) :
    scanFrom (.tag read) (inside ++ '>' :: rest) =
      (scanFrom (.text []) rest).map (Token.ofTag (read.reverse ++ inside) :: ·) := by
  induction inside generalizing read with
  | nil => simp [scanFrom]
  | cons c inside ih =>
    obtain ⟨hc, ht⟩ := not_or.mp (mt List.mem_cons.mpr h)
    rw [List.cons_append, scanFrom, if_neg (Ne.symm hc), ih ht]
    simp

/-- Text that has been read is complete where a tag starts or the document ends. -/
theorem scanFrom_atTag {rest : List Char} (h : AtTag rest) (read : List Char) :
    scanFrom (.text read) rest = (scanFrom (.text []) rest).map (Token.ofText read ++ ·) := by
  rcases h with rfl | ⟨more, rfl⟩
  · simp [scanFrom, Token.ofText]
  · simp [scanFrom, Token.ofText]

theorem nest_append (stack : List String) (front back : List Token) :
    nest stack (front ++ back) = (nest stack front).bind (nest · back) := by
  induction front generalizing stack with
  | nil => rfl
  | cons token front ih =>
    cases token with
    | opening name => exact ih _
    | closing name =>
      cases stack with
      | nil => rfl
      | cons top stack =>
        rw [List.cons_append, nest, nest]
        split
        · exact ih _
        · rfl
    | empty name => simpa [nest] using ih stack
    | text raw => simpa [nest] using ih stack

/-! ## Where a closing tag can come from -/

theorem Token.hasBracket_ofTag {inside : List Char} (h : '<' ∈ inside) :
    (ofTag inside).HasBracket := by
  unfold ofTag
  split
  · exact ⟨_, rfl, by simpa using h⟩
  · split
    · rename_i hl
      obtain ⟨front, rfl⟩ := List.getLast?_eq_some_iff.mp hl
      exact ⟨_, rfl, by simpa using h⟩
    · exact ⟨_, rfl, by simpa using h⟩

theorem exists_hasBracket {read text : List Char} {tokens : List Token} (h : '<' ∈ read)
    (hs : scanFrom (.tag read) text = some tokens) : ∃ token ∈ tokens, token.HasBracket := by
  induction text generalizing read with
  | nil => cases hs
  | cons c rest ih =>
    rw [scanFrom] at hs
    split at hs
    · obtain ⟨others, -, rfl⟩ := Option.map_eq_some_iff.mp hs
      exact ⟨_, List.mem_cons_self, Token.hasBracket_ofTag (by simpa using h)⟩
    · exact ih (List.mem_cons_of_mem _ h) hs

/-- Where a closing tag stands in a document the scanner sees it, unless it stands inside of
another tag. -/
theorem closing_mem_of_scanFrom {name : String} (hn : '>' ∉ name.toList) {state : ScanState}
    {front back : List Char} {tokens : List Token}
    (hs : scanFrom state (front ++ ('<' :: '/' :: name.toList ++ '>' :: back)) = some tokens) :
    .closing name ∈ tokens ∨ ∃ token ∈ tokens, token.HasBracket := by
  induction front generalizing state tokens with
  | nil =>
    cases state with
    | text read =>
      rw [List.nil_append, List.cons_append, scanFrom, if_pos rfl,
        scanFrom_tag (by simpa using hn)] at hs
      obtain ⟨others, ho, rfl⟩ := Option.map_eq_some_iff.mp hs
      obtain ⟨more, -, rfl⟩ := Option.map_eq_some_iff.mp ho
      refine .inl (List.mem_append_right _ ?_)
      simp [Token.ofTag]
    | tag read =>
      rw [List.nil_append, List.cons_append, scanFrom, if_neg (by decide)] at hs
      exact .inr (exists_hasBracket List.mem_cons_self hs)
  | cons c front ih =>
    -- tokens that are complete before the tag only come in front of those that are still to be seen
    have step : ∀ {others : List Token}, (∀ token ∈ others, token ∈ tokens) →
        (.closing name ∈ others ∨ ∃ token ∈ others, token.HasBracket) →
        .closing name ∈ tokens ∨ ∃ token ∈ tokens, token.HasBracket := by
      rintro others hm (h | ⟨token, ht, h⟩)
      · exact .inl (hm _ h)
      · exact .inr ⟨token, hm _ ht, h⟩
    cases state with
    | text read =>
      rw [List.cons_append, scanFrom] at hs
      split at hs
      · obtain ⟨others, ho, rfl⟩ := Option.map_eq_some_iff.mp hs
        exact step (fun token ht => List.mem_append_right _ ht) (ih ho)
      · exact ih hs
    | tag read =>
      rw [List.cons_append, scanFrom] at hs
      split at hs
      · obtain ⟨others, ho, rfl⟩ := Option.map_eq_some_iff.mp hs
        exact step (fun token ht => List.mem_cons_of_mem _ ht) (ih ho)
      · exact ih hs

end Checkpoint.Xml
