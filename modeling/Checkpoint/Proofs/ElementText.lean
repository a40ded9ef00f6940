import Checkpoint.Proofs.Escaping

/-! # Text inside an element

An escaped text can stand as the content of an element, and what it was made of can be told from it
alone. A reader of XML changes it on the way, for it takes every carriage return for a line end: all
but those come through. -/
namespace Checkpoint.Xml

/-! ## Safe and reversible -/

/-- Whether a character is a digit that escapes are written with. -/
def isHexDigit (c : Char) : Bool := ('0' ≤ c && c ≤ '9') || ('a' ≤ c && c ≤ 'f')

/-- Every backslash in a text is the start of an escape: four digits and a semicolon follow. -/
def BackslashesEscape (text : List Char) : Prop :=
  Announces '\\' (fun back => ∃ digits : List Char, digits.length = 4 ∧
    digits.all isHexDigit = true ∧ digits ++ [';'] <+: back) text

theorem isHexDigit_hexDigits (n : Nat) : (hexDigits n).all isHexDigit = true := by
  have hdigit : ∀ d : Fin 16, isHexDigit (Nat.digitChar d) = true := by decide
  rw [List.all_eq_true]
  intro c hc
  obtain ⟨d, hd, rfl⟩ := mem_hexDigits hc
  exact hdigit ⟨d, hd⟩

/-- An escape holds no character but its digits and the two that enclose them. -/
theorem not_mem_hexDigits {c : Char} (h : isHexDigit c = false) (n : Nat) : c ∉ hexDigits n := by
  intro hc
  have hd := List.all_eq_true.mp (isHexDigit_hexDigits n) c hc
  rw [h] at hd
  cases hd

theorem escapeOne_backslashesEscape (p : CodePoint) : BackslashesEscape (escapeOne p) := by
  rcases escapeOne_cases p with ⟨name, d, he, ⟨hr, -⟩, -⟩ | ⟨he, -⟩ | ⟨d, he, -, -, hn⟩
  · have hnames : ∀ name ∈ references, '\\' ∉ '&' :: name ++ [';'] := by decide
    rw [he]
    exact Announces.of_not_mem (hnames name hr)
  · have hd := not_mem_hexDigits (c := '\\') (by decide) p
    rw [he]
    exact Announces.of_cons (by simp [hd])
      ⟨hexDigits p, rfl, isHexDigit_hexDigits p, List.prefix_rfl⟩
  · rw [he]
    refine Announces.of_not_mem fun hm => hn ?_
    rw [List.mem_singleton] at hm
    simp [← hm]

theorem escapePoints_backslashesEscape (points : List CodePoint) :
    BackslashesEscape (escapePoints points) := by
  refine Announces.flatMap ?_ fun p _ => escapeOne_backslashesEscape p
  intro back more ⟨digits, hl, hd, hp⟩
  exact ⟨digits, hl, hd, hp.trans (List.prefix_append ..)⟩

/-- An escaped text is legal, holds no bracket and no quotation mark, and has ampersands and
backslashes only where references and escapes start. Reading it gives back what it was made of, so
different texts are escaped to different ones. -/
theorem escapePoints_faithful (points : List CodePoint) :
    (∀ c ∈ escapePoints points, isLegal c = true ∧ c ∉ ['<', '>', '"', '\'']) ∧
      AmpersandsRefer (escapePoints points) ∧ BackslashesEscape (escapePoints points) ∧
      unescape (escapePoints points) = points ∧
      ∀ others, escapePoints others = escapePoints points → others = points := by
  refine ⟨fun c hc => ?_, ?_, ?_, ?_, fun others he => ?_⟩
  · obtain ⟨p, -, hp⟩ := List.mem_flatMap.mp hc
    exact escapeOne_chars hp
  · exact .flatMap fun p _ => escapeOne_ampersandsRefer p
  · exact escapePoints_backslashesEscape points
  · exact unescape_escapePoints points
  · rw [← unescape_escapePoints points, ← he, unescape_escapePoints]

/-- Text that looks like a reference or an escape is not taken for one. -/
example : escape "&lt;\\005c;" = "&amp;lt;\\005c;005c;" := by decide +kernel

/-! ## Through a reader of XML -/

/-- Puts one line feed for each line end: for a carriage return together with the line feed after it
if there is one. The flag tells whether a carriage return has just been replaced. -/
def unifyFrom {α : Type} [DecidableEq α] (cr lf : α) : (replaced : Bool) → List α → List α
  | _, [] => []
  | replaced, a :: rest =>
    if a = cr then lf :: unifyFrom cr lf true rest
    else if replaced = true ∧ a = lf then unifyFrom cr lf false rest
    else a :: unifyFrom cr lf false rest

/-- What a reader of XML makes of the line ends in a text. -/
def unifyLineEnds (text : List Char) : List Char := unifyFrom '\r' '\n' false text

/-- The same for code points. -/
def unifyPoints (points : List CodePoint) : List CodePoint :=
  unifyFrom (codePoint '\r') (codePoint '\n') false points

/-- Puts in place of each entity reference the character that it stands for. -/
def expandReferences : List Char → List Char
  | '&' :: 'a' :: 'm' :: 'p' :: ';' :: rest => '&' :: expandReferences rest
  | '&' :: 'l' :: 't' :: ';' :: rest => '<' :: expandReferences rest
  | '&' :: 'g' :: 't' :: ';' :: rest => '>' :: expandReferences rest
  | '&' :: 'q' :: 'u' :: 'o' :: 't' :: ';' :: rest => '"' :: expandReferences rest
  | '&' :: 'a' :: 'p' :: 'o' :: 's' :: ';' :: rest => '\'' :: expandReferences rest
  | c :: rest => c :: expandReferences rest
  | [] => []

/-- Puts in place of each escape the code point that it stands for. -/
def readEscapes : List Char → List CodePoint
  | '\\' :: a :: b :: c :: d :: ';' :: rest => ofHexDigits a b c d :: readEscapes rest
  | c :: rest => codePoint c :: readEscapes rest
  | [] => []

/-- What comes of the content of an element: a reader of XML sees to line ends first and to
references then, and the escapes are left to who asked for the text. -/
def received (content : List Char) : List CodePoint :=
  readEscapes (expandReferences (unifyLineEnds content))

/-! ### References and escapes -/

theorem expandReferences_cons {c : Char} (h : c ≠ '&') (rest : List Char) :
    expandReferences (c :: rest) = c :: expandReferences rest := by
  rw [expandReferences]
  · exact fun _ hc _ => h hc
  · exact fun _ hc _ => h hc
  · exact fun _ hc _ => h hc
  · exact fun _ hc _ => h hc
  · exact fun _ hc _ => h hc

theorem expandReferences_append {text : List Char} (h : '&' ∉ text) (rest : List Char) :
    expandReferences (text ++ rest) = text ++ expandReferences rest := by
  induction text with
  | nil => rfl
  | cons c text ih =>
    rw [List.mem_cons, not_or] at h
    rw [List.cons_append, expandReferences_cons (Ne.symm h.1), ih h.2, List.cons_append]

theorem readEscapes_cons {c : Char} (h : c ≠ '\\') (rest : List Char) :
    readEscapes (c :: rest) = codePoint c :: readEscapes rest := by
  rw [readEscapes]
  exact fun _ _ _ _ _ hc _ => h hc

theorem readEscapes_hexDigits {p : CodePoint} (h : p.val < 0x10000) (rest : List Char) :
    readEscapes ('\\' :: hexDigits p ++ [';'] ++ rest) = p :: readEscapes rest := by
  change ofHexDigits _ _ _ _ :: readEscapes rest = _
  rw [ofHexDigits_digitChar h]

/-- A reference is expanded to the character that it stands for, which is no backslash. -/
theorem Refers.expand {name : List Char} {c : Char} (h : Refers name c) :
    c ≠ '\\' ∧
      ∀ rest, expandReferences ('&' :: name ++ ';' :: rest) = c :: expandReferences rest := by
  obtain ⟨hn, hr⟩ := h
  have hc := hr []
  simp only [references, List.mem_cons, List.not_mem_nil, or_false] at hn
  rcases hn with rfl | rfl | rfl | rfl | rfl <;>
  · obtain rfl := codePoint_injective (List.cons.inj hc).1
    exact ⟨by decide, fun rest => rfl⟩

/-- What stands for a code point is read as it, in two steps. -/
theorem exists_expanded (p : CodePoint) : ∃ expanded,
    (∀ rest, expandReferences (escapeOne p ++ rest) = expanded ++ expandReferences rest) ∧
      ∀ rest, readEscapes (expanded ++ rest) = p :: readEscapes rest := by
  rcases escapeOne_cases p with ⟨name, c, he, hr, hc⟩ | ⟨he, hp⟩ | ⟨c, he, hc, -, hn⟩
  · obtain ⟨hb, hx⟩ := hr.expand
    refine ⟨[c], fun rest => ?_, fun rest => ?_⟩
    · rw [he, List.singleton_append, ← hx]
      simp
    · rw [List.singleton_append, readEscapes_cons hb, hc]
  · have hd := not_mem_hexDigits (c := '&') (by decide) p
    refine ⟨escapeOne p, expandReferences_append ?_, fun rest => ?_⟩
    · rw [he]
      simp [hd]
    · rw [he, readEscapes_hexDigits hp]
  · have ha : c ≠ '&' := fun h => hn (by simp [h])
    have hb : c ≠ '\\' := fun h => hn (by simp [h])
    refine ⟨[c], fun rest => ?_, fun rest => ?_⟩
    · rw [he, List.singleton_append, expandReferences_cons ha, List.singleton_append]
    · rw [List.singleton_append, readEscapes_cons hb, hc]

theorem readEscapes_expandReferences (points : List CodePoint) :
    readEscapes (expandReferences (escapePoints points)) = points := by
  induction points with
  | nil => rfl
  | cons p rest ih =>
    obtain ⟨expanded, hx, hr⟩ := exists_expanded p
    rw [escapePoints, List.flatMap_cons, hx, hr]
    exact congrArg _ ih

/-! ### Line ends -/

section

variable {α : Type} [DecidableEq α] {cr lf : α}

/-- Nothing is a line end that is neither of the two. -/
theorem unifyFrom_append {text : List α} (hne : text ≠ []) (hcr : cr ∉ text) (hlf : lf ∉ text)
    (replaced : Bool) (rest : List α) :
    unifyFrom cr lf replaced (text ++ rest) = text ++ unifyFrom cr lf false rest := by
  induction text generalizing replaced with
  | nil => exact absurd rfl hne
  | cons a text ih =>
    rw [List.mem_cons, not_or] at hcr hlf
    have ha : ¬(replaced = true ∧ a = lf) := fun h => hlf.1 h.2.symm
    rw [List.cons_append, unifyFrom, if_neg (Ne.symm hcr.1), if_neg ha, List.cons_append]
    cases text with
    | nil => rfl
    | cons b text => rw [ih (by simp) hcr.2 hlf.2]

theorem not_mem_unifyFrom (h : cr ≠ lf) (replaced : Bool) (text : List α) :
    cr ∉ unifyFrom cr lf replaced text := by
  induction text generalizing replaced with
  | nil => simp [unifyFrom]
  | cons a text ih =>
    unfold unifyFrom
    split
    · simp [h, ih]
    · rename_i ha
      split
      · exact ih false
      · simp [Ne.symm ha, ih]

theorem unifyFrom_of_not_mem {text : List α} (h : cr ∉ text) :
    unifyFrom cr lf false text = text := by
  induction text with
  | nil => rfl
  | cons a text ih =>
    rw [List.mem_cons, not_or] at h
    rw [unifyFrom, if_neg (Ne.symm h.1), if_neg (by simp), ih h.2]

end

/-- Carriage returns and line feeds stand for themselves, and nothing else is escaped to them. -/
theorem escapeOne_lineEnds {p : CodePoint} (hr : p ≠ codePoint '\r') (hf : p ≠ codePoint '\n') :
    escapeOne p ≠ [] ∧ '\r' ∉ escapeOne p ∧ '\n' ∉ escapeOne p := by
  rcases escapeOne_cases p with ⟨name, d, he, ⟨hn, -⟩, -⟩ | ⟨he, -⟩ | ⟨c, he, hc, -⟩
  · have hnames : ∀ name ∈ references,
        '\r' ∉ '&' :: name ++ [';'] ∧ '\n' ∉ '&' :: name ++ [';'] := by decide
    rw [he]
    exact ⟨by simp, hnames name hn⟩
  · have hcr := not_mem_hexDigits (c := '\r') (by decide) p
    have hlf := not_mem_hexDigits (c := '\n') (by decide) p
    rw [he]
    simp [hcr, hlf]
  · subst hc
    have hcr : c ≠ '\r' := fun h => hr (congrArg codePoint h)
    have hlf : c ≠ '\n' := fun h => hf (congrArg codePoint h)
    rw [he]
    simp [Ne.symm hcr, Ne.symm hlf]

/-- It is the same to see to line ends before escaping and after. -/
theorem unifyFrom_escapePoints (replaced : Bool) (points : List CodePoint) :
    unifyFrom '\r' '\n' replaced (escapePoints points) =
      escapePoints (unifyFrom (codePoint '\r') (codePoint '\n') replaced points) := by
  have hcr : escapeOne (codePoint '\r') = ['\r'] := by decide
  have hlf : escapeOne (codePoint '\n') = ['\n'] := by decide
  have hne : codePoint '\n' ≠ codePoint '\r' := by decide
  unfold escapePoints
  induction points generalizing replaced with
  | nil => rfl
  | cons p rest ih =>
    rw [List.flatMap_cons, unifyFrom]
    by_cases hr : p = codePoint '\r'
    · subst hr
      rw [if_pos rfl, hcr, List.singleton_append, unifyFrom, if_pos rfl, ih, List.flatMap_cons, hlf,
        List.singleton_append]
    · rw [if_neg hr]
      by_cases hf : p = codePoint '\n'
      · subst hf
        rw [hlf, List.singleton_append, unifyFrom, if_neg (by decide), ih]
        cases replaced <;> simp [hlf]
      · obtain ⟨hn, hc, hl⟩ := escapeOne_lineEnds hr hf
        have hs : ¬(replaced = true ∧ p = codePoint '\n') := fun h => hf h.2
        rw [if_neg hs, unifyFrom_append hn hc hl, ih, List.flatMap_cons]

theorem received_escapePoints (points : List CodePoint) :
    received (escapePoints points) = unifyPoints points := by
  rw [received, unifyLineEnds, unifyFrom_escapePoints, readEscapes_expandReferences, unifyPoints]

/-- What is received of an escaped text is the text with a line feed for each of its line ends. So
it is the text itself exactly if there is no carriage return in it. -/
theorem received_eq_iff (points : List CodePoint) :
    received (escapePoints points) = unifyPoints points ∧
      (received (escapePoints points) = points ↔ codePoint '\r' ∉ points) := by
  refine ⟨received_escapePoints points, ?_⟩
  rw [received_escapePoints, unifyPoints]
  constructor
  · intro h
    rw [← h]
    exact not_mem_unifyFrom (by decide) false points
  · exact unifyFrom_of_not_mem

example : received (escapePoints ("a\r\n\rb".toList.map codePoint)) =
    "a\n\nb".toList.map codePoint := by decide +kernel

/-- A carriage return is received as a line feed. -/
theorem received_carriage_return :
    received (escapePoints [codePoint '\r']) = [codePoint '\n'] ∧
      received (escapePoints [codePoint '\r']) ≠ [codePoint '\r'] := by
  decide

end Checkpoint.Xml
