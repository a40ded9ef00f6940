import Checkpoint.Xml.Escape

/-! # Escaping undone

An escaped text is made of entity references, of backslash escapes and of characters that stand for
themselves. Reading it from left to right gives the text back, so different texts are never escaped
to the same; and it holds nothing that XML could not carry or that could be taken for markup. -/
namespace Checkpoint.Xml

/-- Whether XML 1.0 can hold a character. -/
def isLegal (c : Char) : Bool :=
  c.toNat == 0x9 || c.toNat == 0xA || c.toNat == 0xD || (0x20 ≤ c.toNat && c.toNat ≤ 0xD7FF) ||
    (0xE000 ≤ c.toNat && c.toNat ≤ 0xFFFD) || 0x10000 ≤ c.toNat

/-- The entity references, by what stands between ampersand and semicolon. -/
def references : List (List Char) :=
  ["amp".toList, "lt".toList, "gt".toList, "quot".toList, "apos".toList]

/-- Every ampersand in a text is the start of an entity reference. -/
def AmpersandsRefer (text : List Char) : Prop :=
  ∀ front back, text = front ++ '&' :: back → ∃ name ∈ references, name ++ [';'] <+: back

/-- The number that a hexadecimal digit stands for. -/
def hexValue (c : Char) : Nat := if c.toNat < 0x61 then c.toNat - 0x30 else c.toNat - 0x57

/-- The code point that four hexadecimal digits stand for. -/
def ofHexDigits (a b c d : Char) : CodePoint :=
  Fin.ofNat _ (4096 * hexValue a + 256 * hexValue b + 16 * hexValue c + hexValue d)

/-- Reads an escaped text: references and escapes for what they stand for, anything else as it is. -/
def unescape : List Char → List CodePoint
  | '&' :: 'a' :: 'm' :: 'p' :: ';' :: rest => codePoint '&' :: unescape rest
  | '&' :: 'l' :: 't' :: ';' :: rest => codePoint '<' :: unescape rest
  | '&' :: 'g' :: 't' :: ';' :: rest => codePoint '>' :: unescape rest
  | '&' :: 'q' :: 'u' :: 'o' :: 't' :: ';' :: rest => codePoint '"' :: unescape rest
  | '&' :: 'a' :: 'p' :: 'o' :: 's' :: ';' :: rest => codePoint '\'' :: unescape rest
  | '\\' :: a :: b :: c :: d :: ';' :: rest => ofHexDigits a b c d :: unescape rest
  | c :: rest => codePoint c :: unescape rest
  | [] => []

theorem hexValue_digitChar {d : Nat} (h : d < 16) : hexValue (Nat.digitChar d) = d := by
  have all : ∀ d : Fin 16, hexValue (Nat.digitChar d) = d := by decide
  exact all ⟨d, h⟩

/-- The digits of a code point stand for it. -/
theorem ofHexDigits_digitChar {p : CodePoint} (h : p.val < 0x10000) :
    ofHexDigits (Nat.digitChar (p / 4096 % 16)) (Nat.digitChar (p / 256 % 16))
      (Nat.digitChar (p / 16 % 16)) (Nat.digitChar (p % 16)) = p := by
  refine Fin.ext ?_
  simp only [ofHexDigits, hexValue_digitChar (Nat.mod_lt _ (by decide : 0 < 16)), Fin.ofNat]
  have hn : 4096 * (p.val / 4096 % 16) + 256 * (p.val / 256 % 16) + 16 * (p.val / 16 % 16) +
    p.val % 16 = p.val := by omega
  rw [hn]
  exact Nat.mod_eq_of_lt p.isLt

/-- An escape is read as the code point whose digits it holds. -/
theorem unescape_hexDigits {p : CodePoint} (h : p.val < 0x10000) (rest : List Char) :
    unescape ('\\' :: hexDigits p ++ ';' :: rest) = p :: unescape rest := by
  change ofHexDigits _ _ _ _ :: unescape rest = _
  rw [ofHexDigits_digitChar h]

theorem unescape_plain {c : Char} (ha : c ≠ '&') (hb : c ≠ '\\') (rest : List Char) :
    unescape (c :: rest) = codePoint c :: unescape rest := by
  rw [unescape]
  · exact fun _ h _ => ha h
  · exact fun _ h _ => ha h
  · exact fun _ h _ => ha h
  · exact fun _ h _ => ha h
  · exact fun _ h _ => ha h
  · exact fun _ _ _ _ _ h _ => hb h

/-- A reference by the character it stands for. -/
def Refers (name : List Char) (c : Char) : Prop :=
  name ∈ references ∧ ∀ rest, unescape ('&' :: name ++ ';' :: rest) = codePoint c :: unescape rest

theorem toNat_ofNat {p : CodePoint} (h : p.val.isValidChar) : (Char.ofNat p).toNat = p := by
  rw [Char.ofNat, dif_pos h]
  rfl

theorem codePoint_ofNat {p : CodePoint} (h : p.val.isValidChar) : codePoint (Char.ofNat p) = p :=
  Fin.ext (toNat_ofNat h)

theorem isValidChar_of_ofNat {p : CodePoint} (h : Char.ofNat p ≠ '\x00') :
    p.val.isValidChar := by
  refine Decidable.byContradiction fun hn => h ?_
  rw [Char.ofNat, dif_neg hn]
  rfl

theorem isValidChar_of_not_isIllegal {p : CodePoint} (h : isIllegal p = false) :
    p.val.isValidChar := by
  have hp := p.isLt
  simp only [isIllegal, Bool.or_eq_false_iff, Bool.and_eq_false_imp, decide_eq_true_eq,
    decide_eq_false_iff_not] at h
  simp only [Nat.isValidChar]
  omega

theorem isLegal_of_not_isIllegal {p : CodePoint} (h : isIllegal p = false) :
    isLegal (Char.ofNat p) = true := by
  have hp := p.isLt
  rw [isLegal, toNat_ofNat (isValidChar_of_not_isIllegal h)]
  simp only [isIllegal, Bool.or_eq_false_iff, Bool.and_eq_false_imp, decide_eq_true_eq,
    decide_eq_false_iff_not, beq_eq_false_iff_ne] at h
  simp only [Bool.or_eq_true, Bool.and_eq_true, decide_eq_true_eq, beq_iff_eq]
  omega

theorem lt_of_isIllegal {p : CodePoint} (h : isIllegal p = true) : p.val < 0x10000 := by
  simp only [isIllegal, Bool.or_eq_true, Bool.and_eq_true, decide_eq_true_eq, beq_iff_eq] at h
  omega

/-- What stands for a code point is a reference, an escape, or a legal character of no meaning. -/
theorem escapeOne_cases (p : CodePoint) :
    (∃ name c, escapeOne p = '&' :: name ++ [';'] ∧ Refers name c ∧ codePoint c = p) ∨
    (escapeOne p = '\\' :: hexDigits p ++ [';'] ∧ p.val < 0x10000) ∨
    ∃ c, escapeOne p = [c] ∧ codePoint c = p ∧ isLegal c = true ∧
      c ∉ ['&', '<', '>', '"', '\'', '\\'] := by
  have hentity : ∀ c, Char.ofNat p = c → c ≠ '\x00' → codePoint c = p := by
    rintro c rfl hc
    exact codePoint_ofNat (isValidChar_of_ofNat hc)
  rw [escapeOne]
  split
  · rename_i h
    exact .inl ⟨"amp".toList, '&', rfl, ⟨by decide, fun _ => rfl⟩, hentity _ h (by decide)⟩
  · rename_i h
    exact .inl ⟨"lt".toList, '<', rfl, ⟨by decide, fun _ => rfl⟩, hentity _ h (by decide)⟩
  · rename_i h
    exact .inl ⟨"gt".toList, '>', rfl, ⟨by decide, fun _ => rfl⟩, hentity _ h (by decide)⟩
  · rename_i h
    exact .inl ⟨"quot".toList, '"', rfl, ⟨by decide, fun _ => rfl⟩, hentity _ h (by decide)⟩
  · rename_i h
    exact .inl ⟨"apos".toList, '\'', rfl, ⟨by decide, fun _ => rfl⟩, hentity _ h (by decide)⟩
  · rename_i hamp hlt hgt hquot hapos
    split
    · rename_i hi
      refine .inr (.inl ⟨rfl, ?_⟩)
      rcases Bool.or_eq_true_iff.mp hi with h | h
      · exact lt_of_isIllegal h
      · rw [← hentity '\\' (eq_of_beq h) (by decide)]
        decide
    · rename_i hi
      obtain ⟨hl, hb⟩ := Bool.or_eq_false_iff.mp (Bool.eq_false_iff.mpr hi)
      refine .inr (.inr ⟨_, rfl, codePoint_ofNat (isValidChar_of_not_isIllegal hl),
        isLegal_of_not_isIllegal hl, ?_⟩)
      have hb : Char.ofNat p ≠ '\\' := by simpa using hb
      simp only [List.mem_cons, List.not_mem_nil, or_false, not_or]
      exact ⟨hamp, hlt, hgt, hquot, hapos, hb⟩

/-! ## Reading back -/

theorem unescape_escapeOne (p : CodePoint) (rest : List Char) :
    unescape (escapeOne p ++ rest) = p :: unescape rest := by
  rcases escapeOne_cases p with ⟨name, c, he, ⟨-, hr⟩, hc⟩ | ⟨he, hp⟩ | ⟨c, he, hc, -, hn⟩
  · rw [he, ← hc, ← hr rest]
    simp
  · rw [he, ← unescape_hexDigits hp rest]
    simp
  · have ha : c ≠ '&' := fun h => hn (by simp [h])
    have hb : c ≠ '\\' := fun h => hn (by simp [h])
    rw [he, List.singleton_append, unescape_plain ha hb, hc]

/-- What has been escaped is read back as it was. -/
theorem unescape_escapePoints (points : List CodePoint) :
    unescape (escapePoints points) = points := by
  induction points with
  | nil => rfl
  | cons p rest ih =>
    rw [escapePoints, List.flatMap_cons, unescape_escapeOne]
    exact congrArg _ ih

theorem toList_escape (text : String) :
    (escape text).toList = escapePoints (text.toList.map codePoint) := by
  simp [escape]

theorem unescape_escape (text : String) :
    unescape (escape text).toList = text.toList.map codePoint := by
  rw [toList_escape, unescape_escapePoints]

theorem codePoint_injective {c d : Char} (h : codePoint c = codePoint d) : c = d := by
  have hn : (codePoint c).val = (codePoint d).val := congrArg Fin.val h
  exact Char.toNat_inj.mp hn

/-- Different texts are escaped to different texts. -/
theorem escape_injective {text other : String} (h : escape text = escape other) : text = other := by
  have hp := congrArg (fun s => unescape s.toList) h
  simp only [unescape_escape] at hp
  exact String.toList_inj.mp ((List.map_inj_right fun _ _ => codePoint_injective).mp hp)

/-! ## Nothing that could be taken for markup -/

theorem mem_hexDigits {p : Nat} {c : Char} (h : c ∈ hexDigits p) :
    ∃ d < 16, c = Nat.digitChar d := by
  simp only [hexDigits, List.mem_cons, List.not_mem_nil, or_false] at h
  rcases h with h | h | h | h <;> exact ⟨_, Nat.mod_lt _ (by decide), h⟩

theorem escapeOne_chars {p : CodePoint} {c : Char} (h : c ∈ escapeOne p) :
    isLegal c = true ∧ c ∉ ['<', '>', '"', '\''] := by
  have hsemi : isLegal ';' = true ∧ ';' ∉ ['<', '>', '"', '\''] := by decide
  rcases escapeOne_cases p with ⟨name, d, he, ⟨hr, -⟩, -⟩ | ⟨he, -⟩ | ⟨d, he, -, hl, hn⟩
  · have hnames : (references.all fun name => ('&' :: name).all fun c =>
        isLegal c && decide (c ∉ ['<', '>', '"', '\''])) = true := by decide
    have hname := List.all_eq_true.mp (List.all_eq_true.mp hnames name hr)
    rw [he, List.mem_append, List.mem_singleton] at h
    rcases h with h | rfl
    · exact (Bool.and_eq_true _ _ ▸ hname c h).imp_right of_decide_eq_true
    · exact hsemi
  · rw [he, List.mem_append, List.mem_cons, List.mem_singleton] at h
    rcases h with (rfl | h) | rfl
    · decide
    · obtain ⟨d, hd, rfl⟩ := mem_hexDigits h
      have hdigit : ∀ d : Fin 16, isLegal (Nat.digitChar d) = true ∧
          Nat.digitChar d ∉ ['<', '>', '"', '\''] := by decide
      exact hdigit ⟨d, hd⟩
    · exact hsemi
  · rw [he, List.mem_singleton] at h
    subst h
    exact ⟨hl, fun hm => hn (List.mem_cons_of_mem _ (List.mem_append_left ['\\'] hm))⟩

/-- An escaped text is legal and free of the characters that markup and its attributes are made of. -/
theorem escape_chars {text : String} {c : Char} (h : c ∈ (escape text).toList) :
    isLegal c = true ∧ c ∉ ['<', '>', '"', '\''] := by
  rw [toList_escape] at h
  obtain ⟨p, -, h⟩ := List.mem_flatMap.mp h
  exact escapeOne_chars h

/-- Wherever a mark stands in a text, what follows it is as it has to be. -/
def Announces (mark : Char) (Follows : List Char → Prop) (text : List Char) : Prop :=
  ∀ front back, text = front ++ mark :: back → Follows back

section

variable {mark : Char} {Follows : List Char → Prop} {text more : List Char}

theorem Announces.of_not_mem (h : mark ∉ text) : Announces mark Follows text := by
  intro front back he
  exact absurd (by simp [he]) h

/-- A text that starts with its only mark. -/
theorem Announces.of_cons (h : mark ∉ text) (hf : Follows text) :
    Announces mark Follows (mark :: text) := by
  intro front back he
  cases front with
  | nil =>
    obtain ⟨-, rfl⟩ := List.cons.inj he
    exact hf
  | cons c front =>
    obtain ⟨-, rfl⟩ := List.cons.inj he
    exact absurd (by simp) h

/-- What follows a mark may be followed by anything. -/
theorem Announces.append (hf : ∀ back more, Follows back → Follows (back ++ more))
    (ht : Announces mark Follows text) (hm : Announces mark Follows more) :
    Announces mark Follows (text ++ more) := by
  intro front back h
  rcases List.append_eq_append_iff.mp h with ⟨inner, rfl, hr⟩ | ⟨inner, rfl, hr⟩
  · exact hm inner back hr
  · cases inner with
    | nil => exact hm [] back hr.symm
    | cons c inner =>
      obtain ⟨rfl, rfl⟩ := List.cons.inj hr
      exact hf inner more (ht front inner rfl)

theorem Announces.flatMap {α : Type} {f : α → List Char} {xs : List α}
    (hf : ∀ back more, Follows back → Follows (back ++ more))
    (h : ∀ x ∈ xs, Announces mark Follows (f x)) : Announces mark Follows (xs.flatMap f) := by
  induction xs with
  | nil => exact .of_not_mem (by simp)
  | cons x xs ih =>
    rw [List.flatMap_cons]
    exact .append hf (h x (by simp)) (ih fun y hy => h y (by simp [hy]))

end

theorem AmpersandsRefer.of_not_mem {text : List Char} (h : '&' ∉ text) : AmpersandsRefer text :=
  Announces.of_not_mem h

theorem reference_append (back more : List Char)
    (h : ∃ name ∈ references, name ++ [';'] <+: back) :
    ∃ name ∈ references, name ++ [';'] <+: back ++ more := by
  obtain ⟨name, hn, hp⟩ := h
  exact ⟨name, hn, hp.trans (List.prefix_append ..)⟩

theorem AmpersandsRefer.append {text more : List Char} (ht : AmpersandsRefer text)
    (hm : AmpersandsRefer more) : AmpersandsRefer (text ++ more) :=
  Announces.append reference_append ht hm

theorem AmpersandsRefer.flatMap {α : Type} {f : α → List Char} {xs : List α}
    (h : ∀ x ∈ xs, AmpersandsRefer (f x)) : AmpersandsRefer (xs.flatMap f) :=
  Announces.flatMap reference_append h

theorem escapeOne_ampersandsRefer (p : CodePoint) : AmpersandsRefer (escapeOne p) := by
  rcases escapeOne_cases p with ⟨name, d, he, ⟨href, -⟩, -⟩ | ⟨he, -⟩ | ⟨d, he, -, -, hn⟩
  · have hname : ∀ name ∈ references, '&' ∉ name ++ [';'] := by decide
    rw [he]
    exact Announces.of_cons (hname name href) ⟨name, href, List.prefix_rfl⟩
  · rw [he]
    refine .of_not_mem fun hm => ?_
    rw [List.mem_append, List.mem_cons, List.mem_singleton] at hm
    rcases hm with (hm | hm) | hm
    · exact absurd hm (by decide)
    · obtain ⟨d, hd, hm⟩ := mem_hexDigits hm
      have hdigit : ∀ d : Fin 16, '&' ≠ Nat.digitChar d := by decide
      exact hdigit ⟨d, hd⟩ hm
    · exact absurd hm (by decide)
  · rw [he]
    refine .of_not_mem fun hm => hn ?_
    rw [List.mem_singleton] at hm
    simp [← hm]

/-- Every ampersand in an escaped text starts an entity reference. -/
theorem escape_ampersandsRefer (text : String) : AmpersandsRefer (escape text).toList := by
  rw [toList_escape]
  exact .flatMap fun p _ => escapeOne_ampersandsRefer p

/-- A text that XML can hold and in which ampersands have their meaning. -/
structure Clean (text : List Char) : Prop where
  legal : ∀ c ∈ text, isLegal c = true
  refer : AmpersandsRefer text

theorem Clean.of_plain {text : List Char} (h : ∀ c ∈ text, isLegal c = true ∧ c ≠ '&') :
    Clean text :=
  ⟨fun c hc => (h c hc).1, .of_not_mem fun hm => (h _ hm).2 rfl⟩

/-- Literals are checked character by character. -/
theorem Clean.of_all {text : List Char} (h : (text.all fun c => isLegal c && c != '&') = true) :
    Clean text := by
  refine .of_plain fun c hc => ?_
  obtain ⟨hl, hn⟩ := (Bool.and_eq_true _ _).mp (List.all_eq_true.mp h c hc)
  exact ⟨hl, bne_iff_ne.mp hn⟩

theorem Clean.append {text more : List Char} (ht : Clean text) (hm : Clean more) :
    Clean (text ++ more) :=
  ⟨fun c hc => (List.mem_append.mp hc).elim (ht.legal c) (hm.legal c), ht.refer.append hm.refer⟩

theorem Clean.escape (text : String) : Clean (escape text).toList :=
  ⟨fun _ hc => (escape_chars hc).1, escape_ampersandsRefer text⟩

end Checkpoint.Xml
