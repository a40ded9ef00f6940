import Checkpoint.Proofs.Grammar
import Checkpoint.Wire.Parse

/-! # The spelling of fields

What the bytes of a record body may be, said without reading them: fields one after the other, each
a key and a content. A body can be cut into fields in one way only, and the reader finds it. -/
namespace Checkpoint

/-- What has been read is spelled by the bytes in front of those that are left. -/
def Reads {α ε : Type} (read : Bytes → Except ε (α × Bytes)) (spells : α → Bytes → Prop) : Prop :=
  ∀ (bytes rest : Bytes) (a : α),
    read bytes = .ok (a, rest) ↔ ∃ taken, bytes = taken ++ rest ∧ spells a taken

namespace Reads

variable {α ε : Type} {read : Bytes → Except ε (α × Bytes)} {spells : α → Bytes → Prop}
  {a b : α} {first second rest rest' : Bytes}

theorem ok (h : Reads read spells) (ha : spells a first) (rest : Bytes) :
    read (first ++ rest) = .ok (a, rest) :=
  (h _ _ _).mpr ⟨first, rfl, ha⟩

/-- What has been read may be put into another form. -/
theorem of_map {β : Type} (h : Reads read spells) (f : α → β) {bytes : Bytes} {b : β} :
    ((read bytes).map fun (a, rest) => (f a, rest)) = .ok (b, rest) ↔
      ∃ a taken, bytes = taken ++ rest ∧ spells a taken ∧ f a = b := by
  constructor
  · intro hr
    cases hread : read bytes with
    | error fault => rw [hread] at hr; cases hr
    | ok found =>
      obtain ⟨a, left⟩ := found
      rw [hread] at hr
      obtain ⟨rfl, rfl⟩ := Prod.mk.inj (Except.ok.inj hr)
      obtain ⟨taken, rfl, ha⟩ := (h _ _ _).mp hread
      exact ⟨a, taken, rfl, ha, rfl⟩
  · rintro ⟨a, taken, rfl, ha, rfl⟩
    rw [h.ok ha]
    rfl

/-- No two beginnings of the same bytes spell anything. -/
theorem unique (h : Reads read spells) (ha : spells a first) (hb : spells b second)
    (he : first ++ rest = second ++ rest') : a = b ∧ first = second ∧ rest = rest' := by
  have hr := h.ok ha rest
  rw [he, h.ok hb rest'] at hr
  obtain ⟨rfl, rfl⟩ := Prod.mk.inj (Except.ok.inj hr)
  exact ⟨rfl, List.append_cancel_right he, rfl⟩

/-- Bytes can be cut in one way only into parts that spell something, if none of them is empty. -/
theorem unique_parts (h : Reads read spells) (hn : ∀ {a}, ¬spells a []) {xs ys : List α}
    {parts parts' : List Bytes} (hx : List.Forall₂ spells xs parts)
    (hy : List.Forall₂ spells ys parts') (he : parts.flatten = parts'.flatten) :
    xs = ys ∧ parts = parts' := by
  induction hx generalizing ys parts' with
  | nil =>
    cases hy with
    | nil => exact ⟨rfl, rfl⟩
    | cons hb _ =>
      rw [List.flatten_nil, List.flatten_cons] at he
      rw [(List.append_eq_nil_iff.mp he.symm).1] at hb
      exact absurd hb hn
  | cons ha _ ih =>
    cases hy with
    | nil =>
      rw [List.flatten_nil, List.flatten_cons] at he
      rw [(List.append_eq_nil_iff.mp he).1] at ha
      exact absurd ha hn
    | cons hb hy =>
      rw [List.flatten_cons, List.flatten_cons] at he
      obtain ⟨rfl, rfl, ht⟩ := h.unique ha hb he
      obtain ⟨rfl, rfl⟩ := ih hy ht
      exact ⟨rfl, rfl⟩

end Reads

section Spelled

variable {α ε : Type} {read : Bytes → Except ε (α × Bytes)} {spells : α → Bytes → Prop}
  {bytes rest : Bytes} {a : α} {xs : List α}

/-- Nothing is spelled by no bytes. -/
theorem spelled_of_nil (hn : ∀ {a}, ¬spells a []) : Spelled spells xs [] ↔ xs = [] := by
  cases xs with
  | nil => simp
  | cons a xs =>
    simp only [spelled_cons, reduceCtorEq, iff_false]
    rintro ⟨first, rest, he, ha, -⟩
    rw [(List.append_eq_nil_iff.mp he.symm).1] at ha
    exact hn ha

/-- What is read first is spelled first. -/
theorem spelled_of_read (h : Reads read spells) (hne : bytes ≠ [])
    (hr : read bytes = .ok (a, rest)) :
    Spelled spells xs bytes ↔ ∃ others, xs = a :: others ∧ Spelled spells others rest := by
  constructor
  · intro hs
    cases xs with
    | nil => exact absurd (spelled_nil.mp hs) hne
    | cons b others =>
      obtain ⟨first, rest', rfl, hb, ho⟩ := spelled_cons.mp hs
      rw [h.ok hb] at hr
      obtain ⟨rfl, rfl⟩ := Prod.mk.inj (Except.ok.inj hr)
      exact ⟨others, rfl, ho⟩
  · rintro ⟨others, rfl, ho⟩
    obtain ⟨taken, rfl, ha⟩ := (h _ _ _).mp hr
    exact spelled_cons.mpr ⟨taken, rest, rfl, ha, ho⟩

/-- Where nothing can be read, nothing is spelled. -/
theorem not_spelled_of_error (h : Reads read spells) (hne : bytes ≠ []) {fault : ε}
    (hr : read bytes = .error fault) : ¬Spelled spells xs bytes := by
  intro hs
  cases xs with
  | nil => exact hne (spelled_nil.mp hs)
  | cons b others =>
    obtain ⟨first, rest, rfl, hb, -⟩ := spelled_cons.mp hs
    rw [h.ok hb] at hr
    cases hr

end Spelled

/-! ## Numbers -/

namespace Varint

/-- The groups of a number, lowest first; the bytes of all but the last have their top bit set. -/
inductive Groups : Nat → Bytes → Prop
  | last {b : UInt8} : b.toNat < 128 → Groups b.toNat [b]
  | more {b : UInt8} {high : Nat} {rest : Bytes} : 128 ≤ b.toNat → Groups high rest →
      Groups (b.toNat - 128 + 128 * high) (b :: rest)

/-- The bytes are a varint of the number. -/
def Spells (n : Nat) (bytes : Bytes) : Prop := Groups n bytes ∧ bytes.length ≤ maxBytes

theorem Groups.ne_nil {n : Nat} {bytes : Bytes} (h : Groups n bytes) : bytes ≠ [] := by
  cases h <;> simp

theorem not_spells_nil {n : Nat} : ¬Spells n [] := fun h => h.1.ne_nil rfl

theorem decodeWithin_iff {limit n : Nat} {bytes rest : Bytes} :
    decodeWithin limit bytes = .ok (n, rest) ↔
      ∃ taken, bytes = taken ++ rest ∧ Groups n taken ∧ taken.length ≤ limit := by
  induction limit generalizing n bytes with
  | zero =>
    constructor
    · intro h
      cases h
    · rintro ⟨taken, -, hg, hl⟩
      exact absurd (List.length_eq_zero_iff.mp (Nat.le_zero.mp hl)) hg.ne_nil
  | succ limit ih =>
    constructor
    · intro h
      cases bytes with
      | nil => cases h
      | cons b tail =>
        simp only [decodeWithin] at h
        split at h
        · rename_i hb
          obtain ⟨rfl, rfl⟩ := Prod.mk.inj (Except.ok.inj h)
          exact ⟨[b], rfl, .last hb, by simp⟩
        · rename_i hb
          split at h
          · rename_i high left hh
            obtain ⟨rfl, rfl⟩ := Prod.mk.inj (Except.ok.inj h)
            obtain ⟨taken, rfl, hg, hl⟩ := ih.mp hh
            exact ⟨b :: taken, rfl, .more (Nat.le_of_not_lt hb) hg, by simpa using hl⟩
          · cases h
    · rintro ⟨taken, rfl, hg, hl⟩
      cases hg with
      | last hb => simp [decodeWithin, hb]
      | @more b high tail hb hg =>
        have hh := ih.mpr ⟨tail, rfl, hg, by simpa using hl⟩
        simp [decodeWithin, Nat.not_lt.mpr hb, hh]

theorem reads_decode : Reads decode Spells := fun _ _ _ => decodeWithin_iff

/-- The varints of a number are the bytes that are decoded as it to their end. -/
theorem spells_iff {n : Nat} {bytes : Bytes} : Spells n bytes ↔ decode bytes = .ok (n, []) := by
  rw [reads_decode]
  simp

theorem decodeAllInto_iff {found : List Nat} {bytes : Bytes} {ns : List Nat} :
    decodeAllInto found bytes = .ok ns ↔
      ∃ ms, ns = found.reverse ++ ms ∧ Spelled Spells ms bytes := by
  induction found, bytes using decodeAllInto.induct generalizing ns with
  | case1 found =>
    rw [decodeAllInto]
    constructor
    · intro h
      exact ⟨[], by simpa using (Except.ok.inj h).symm, spelled_nil.mpr rfl⟩
    · rintro ⟨ms, rfl, hs⟩
      rw [(spelled_of_nil not_spells_nil).mp hs, List.append_nil]
  | case2 found b tail value rest hd _ ih =>
    rw [decodeAllInto]
    split
    · rename_i hd'
      rw [hd] at hd'
      obtain ⟨rfl, rfl⟩ := Prod.mk.inj (Except.ok.inj hd')
      simp only [ih, spelled_of_read reads_decode (List.cons_ne_nil b tail) hd]
      constructor
      · rintro ⟨ms, rfl, hs⟩
        exact ⟨value :: ms, by simp, ms, rfl, hs⟩
      · rintro ⟨ms, rfl, others, rfl, hs⟩
        exact ⟨others, by simp, hs⟩
    · rename_i hd'
      rw [hd] at hd'
      cases hd'
  | case3 found b tail fault hd =>
    rw [decodeAllInto]
    split
    · rename_i hd'
      rw [hd] at hd'
      cases hd'
    · constructor
      · intro h
        cases h
      · rintro ⟨ms, -, hs⟩
        exact absurd hs (not_spelled_of_error reads_decode (List.cons_ne_nil b tail) hd)

/-- Packed varints are whole varints one after the other. -/
theorem decodeAll_iff {bytes : Bytes} {ns : List Nat} :
    decodeAll bytes = .ok ns ↔ Spelled Spells ns bytes := by
  rw [decodeAll, decodeAllInto_iff]
  simp

end Varint

/-- The bytes are a number of fixed width, lowest byte first. -/
def Bytes.Word (width n : Nat) (bytes : Bytes) : Prop :=
  bytes.length = width ∧ Bytes.littleEndian bytes = n

theorem Body.reads_fixed (record : String) (number width : Nat) :
    Reads (Body.fixed record number width) (Bytes.Word width) := by
  intro bytes rest n
  unfold Body.fixed
  dsimp only
  constructor
  · intro h
    split at h
    · cases h
    · rename_i hl
      obtain ⟨rfl, rfl⟩ := Prod.mk.inj (Except.ok.inj h)
      have hw : (bytes.take width).length = width := by
        rw [List.length_take] at hl ⊢
        omega
      exact ⟨bytes.take width, (List.take_append_drop width bytes).symm, hw, rfl⟩
  · rintro ⟨taken, rfl, rfl, rfl⟩
    simp

namespace Bytes

theorem not_word_nil {width n : Nat} (hw : 0 < width) : ¬Word width n [] := by
  rintro ⟨h, -⟩
  simp at h
  omega

theorem length_of_spelled_word {width : Nat} {ns : List Nat} {bytes : Bytes}
    (h : Spelled (Word width) ns bytes) : bytes.length = width * ns.length := by
  induction ns generalizing bytes with
  | nil => rw [spelled_nil.mp h]; rfl
  | cons n ns ih =>
    obtain ⟨first, rest, rfl, ⟨hl, -⟩, hr⟩ := spelled_cons.mp h
    rw [List.length_append, hl, ih hr, List.length_cons, Nat.mul_succ]
    omega

theorem spelled_chunks {width count : Nat} {bytes : Bytes} (h : bytes.length = width * count) :
    Spelled (Word width) ((chunks width count bytes).map littleEndian) bytes := by
  induction count generalizing bytes with
  | zero => simpa [chunks] using h
  | succ count ih =>
    rw [Nat.mul_succ] at h
    refine spelled_cons.mpr ⟨bytes.take width, bytes.drop width,
      (List.take_append_drop width bytes).symm, ⟨?_, rfl⟩, ih ?_⟩
    · rw [List.length_take]
      omega
    · rw [List.length_drop]
      omega

/-- Packed words are whole words one after the other. -/
theorem spelled_word_iff {width : Nat} (hw : 0 < width) {ns : List Nat} {bytes : Bytes} :
    Spelled (Word width) ns bytes ↔ bytes.length % width = 0 ∧
      (chunks width (bytes.length / width) bytes).map littleEndian = ns := by
  have hs : bytes.length % width = 0 →
      Spelled (Word width) ((chunks width (bytes.length / width) bytes).map littleEndian) bytes :=
    fun h => spelled_chunks (Nat.mul_div_cancel' (Nat.dvd_of_mod_eq_zero h)).symm
  constructor
  · intro h
    have hm : bytes.length % width = 0 := by
      rw [length_of_spelled_word h]
      exact Nat.mul_mod_right width _
    obtain ⟨parts, hp, he⟩ := h
    obtain ⟨parts', hp', he'⟩ := hs hm
    have hu := (Body.reads_fixed "" 0 width).unique_parts (not_word_nil hw) hp hp'
      (he.trans he'.symm)
    exact ⟨hm, hu.1.symm⟩
  · rintro ⟨hm, rfl⟩
    exact hs hm

end Bytes

/-! ## Contents and fields -/

theorem WireType.ofCode?_eq_some_iff {code : Nat} {wire : WireType} :
    WireType.ofCode? code = some wire ↔ wire.code = code := by
  constructor
  · intro h
    unfold WireType.ofCode? at h
    split at h <;> cases h <;> rfl
  · rintro rfl
    exact WireType.ofCode?_code wire

theorem WireType.code_lt (wire : WireType) : wire.code < 8 := by cases wire <;> decide

/-- The bytes after the key of a field: a varint, eight bytes, four bytes, or a length and as many
bytes. -/
def Content.Spells : Content → Bytes → Prop
  | .varint n => Varint.Spells n
  | .fixed64 n => Bytes.Word 8 n
  | .fixed32 n => Bytes.Word 4 n
  | .delimited inner => fun bytes =>
      ∃ length, bytes = length ++ inner ∧ Varint.Spells inner.length length

/-- The bytes of a field: a key of its number and its wire type, and its content. -/
def WireField.Spells (f : WireField) (bytes : Bytes) : Prop :=
  ∃ key content, bytes = key ++ content ∧ 0 < f.number ∧
    Varint.Spells (8 * f.number + f.content.wireType.code) key ∧ f.content.Spells content

theorem Content.length_lt_of_spells {inner bytes : Bytes}
    (h : (Content.delimited inner).Spells bytes) : inner.length < bytes.length := by
  obtain ⟨length, rfl, hl⟩ := h
  have hne := List.length_pos_iff.mpr hl.1.ne_nil
  rw [List.length_append]
  omega

theorem WireField.not_spells_nil {f : WireField} : ¬f.Spells [] := by
  rintro ⟨key, content, he, -, hk, -⟩
  exact hk.1.ne_nil (List.append_eq_nil_iff.mp he.symm).1

namespace Body

variable {record : String} {number : Nat}

theorem reads_varint (record : String) : Reads (varint record) Varint.Spells := by
  intro bytes rest n
  rw [← Varint.reads_decode]
  unfold varint
  cases Varint.decode bytes with
  | ok read => exact ⟨fun h => by cases h; rfl, fun h => by cases h; rfl⟩
  | error fault => exact ⟨nofun, nofun⟩

/-- A number on the wire is a content of its wire type. -/
theorem reads_number (make : Nat → Content) {read : Bytes → Except RecordProblem (Nat × Bytes)}
    {wire : WireType} (h : Reads read fun n => (make n).Spells)
    (hc : ∀ c : Content, c.wireType = wire ↔ ∃ n, make n = c) :
    Reads (fun bytes => (read bytes).map fun (n, rest) => (make n, rest))
      fun c bytes => c.wireType = wire ∧ c.Spells bytes := by
  intro bytes rest c
  refine (h.of_map make).trans ?_
  constructor
  · rintro ⟨n, taken, rfl, hs, rfl⟩
    exact ⟨taken, rfl, (hc _).mpr ⟨n, rfl⟩, hs⟩
  · rintro ⟨taken, rfl, hw, hs⟩
    obtain ⟨n, rfl⟩ := (hc c).mp hw
    exact ⟨n, taken, rfl, hs, rfl⟩

theorem reads_content (record : String) (number : Nat) (wire : WireType) :
    Reads (content record number wire) fun c bytes => c.wireType = wire ∧ c.Spells bytes := by
  cases wire with
  | varint =>
    refine reads_number .varint (reads_varint record) fun c => ?_
    cases c <;> simp [Content.wireType]
  | fixed64 =>
    refine reads_number .fixed64 (reads_fixed record number 8) fun c => ?_
    cases c <;> simp [Content.wireType]
  | fixed32 =>
    refine reads_number .fixed32 (reads_fixed record number 4) fun c => ?_
    cases c <;> simp [Content.wireType]
  | delimited =>
    intro bytes rest c
    unfold content
    dsimp only
    constructor
    · intro h
      split at h
      · cases h
      · rename_i size left hv
        split at h
        · cases h
        · rename_i hl
          obtain ⟨rfl, rfl⟩ := Prod.mk.inj (Except.ok.inj h)
          obtain ⟨length, rfl, hs⟩ := (reads_varint record _ _ _).mp hv
          have hn : (left.take size).length = size := by
            rw [List.length_take] at hl ⊢
            omega
          refine ⟨length ++ left.take size, ?_, rfl, length, rfl, ?_⟩
          · rw [List.append_assoc, List.take_append_drop]
          · rw [hn]
            exact hs
    · rintro ⟨taken, rfl, hw, hs⟩
      cases c with
      | varint n | fixed64 n | fixed32 n => cases hw
      | delimited inner =>
        obtain ⟨length, rfl, hl⟩ := hs
        rw [List.append_assoc, (reads_varint record).ok hl]
        simp

theorem reads_field (record : String) : Reads (field record) WireField.Spells := by
  intro bytes rest f
  unfold field
  constructor
  · intro h
    split at h
    · cases h
    · rename_i key left hv
      obtain ⟨first, rfl, hk⟩ := (reads_varint record _ _ _).mp hv
      split at h
      · cases h
      · rename_i hn
        split at h
        · cases h
        · rename_i wire hw
          have hcode := WireType.ofCode?_eq_some_iff.mp hw
          obtain ⟨c, taken, rfl, ⟨rfl, hc⟩, rfl⟩ :=
            ((reads_content record _ _).of_map (WireField.mk (key / 8))).mp h
          refine ⟨first ++ taken, (List.append_assoc ..).symm, first, taken, rfl,
            Nat.pos_of_ne_zero hn, ?_, hc⟩
          dsimp only
          rw [hcode, Nat.div_add_mod]
          exact hk
  · rintro ⟨taken, rfl, key, last, rfl, hn, hk, hc⟩
    have hlt := f.content.wireType.code_lt
    have hdiv : (8 * f.number + f.content.wireType.code) / 8 = f.number := by omega
    have hmod : (8 * f.number + f.content.wireType.code) % 8 = f.content.wireType.code := by omega
    have hread := (reads_content record f.number f.content.wireType).ok ⟨rfl, hc⟩ rest
    rw [List.append_assoc, (reads_varint record).ok hk]
    simp only [hdiv, hmod, if_neg (Nat.ne_of_gt hn), WireType.ofCode?_code, hread]
    rfl

/-- The field in front of a body is added to what has been found. -/
theorem splitInto_of_field {found : List WireField} {body rest : Bytes} {f : WireField}
    (h : field record body = .ok (f, rest)) :
    splitInto record found body = splitInto record (f :: found) rest := by
  cases body with
  | nil => cases h
  | cons b tail =>
    rw [splitInto]
    split
    · rename_i hd
      rw [h] at hd
      obtain ⟨rfl, rfl⟩ := Prod.mk.inj (Except.ok.inj hd)
      rfl
    · rename_i hd
      rw [h] at hd
      cases hd

/-- A problem in front of a body leaves what has been found. -/
theorem splitInto_of_error {found : List WireField} {b : UInt8} {tail : Bytes}
    {problem : RecordProblem} (h : field record (b :: tail) = .error problem) :
    splitInto record found (b :: tail) = ⟨found.reverse, some problem⟩ := by
  rw [splitInto]
  split
  · rename_i hd
    rw [h] at hd
    cases hd
  · rename_i hd
    rw [h] at hd
    rw [Except.error.inj hd]

/-- A body is cut to its end exactly if it is spelled as fields one after the other. -/
theorem splitInto_iff {found fields : List WireField} {body : Bytes} :
    splitInto record found body = ⟨fields, none⟩ ↔
      ∃ others, fields = found.reverse ++ others ∧ Spelled WireField.Spells others body := by
  induction found, body using splitInto.induct record generalizing fields with
  | case1 found =>
    rw [splitInto]
    constructor
    · intro h
      injection h with hf
      exact ⟨[], by simpa using hf.symm, spelled_nil.mpr rfl⟩
    · rintro ⟨others, rfl, hs⟩
      rw [(spelled_of_nil WireField.not_spells_nil).mp hs, List.append_nil]
  | case2 found b tail f rest hd _ ih =>
    rw [splitInto_of_field hd, ih]
    simp only [spelled_of_read (reads_field record) (List.cons_ne_nil b tail) hd]
    constructor
    · rintro ⟨others, rfl, hs⟩
      exact ⟨f :: others, by simp, others, rfl, hs⟩
    · rintro ⟨_, rfl, others, rfl, hs⟩
      exact ⟨others, by simp, hs⟩
  | case3 found b tail problem hd =>
    rw [splitInto_of_error hd]
    constructor
    · intro h
      injection h with _ hp
      cases hp
    · rintro ⟨others, -, hs⟩
      exact absurd hs (not_spelled_of_error (reads_field record) (List.cons_ne_nil b tail) hd)

theorem split_iff {fields : List WireField} {body : Bytes} :
    split record body = ⟨fields, none⟩ ↔ Spelled WireField.Spells fields body := by
  rw [split, splitInto_iff]
  simp

theorem length_lt_of_field_delimited {body rest inner : Bytes} {f : WireField}
    (h : field record body = .ok (f, rest)) (hc : f.content = .delimited inner) :
    inner.length < body.length := by
  obtain ⟨taken, rfl, key, last, rfl, -, -, hs⟩ := (reads_field record _ _ _).mp h
  rw [hc] at hs
  have hl := Content.length_lt_of_spells hs
  rw [List.length_append, List.length_append]
  omega

/-- What stands inside a field of a body is shorter than the body, also where the body cannot be cut
to its end. -/
theorem length_lt_of_mem_split {body inner : Bytes} {f : WireField}
    (hf : f ∈ (split record body).fields) (hc : f.content = .delimited inner) :
    inner.length < body.length := by
  have hinto : ∀ (found : List WireField) (body : Bytes),
      f ∈ (splitInto record found body).fields → f ∈ found ∨ inner.length < body.length := by
    intro found body
    induction found, body using splitInto.induct record with
    | case1 found =>
      intro h
      rw [splitInto] at h
      exact .inl (List.mem_reverse.mp h)
    | case2 found b tail g rest hd hlt ih =>
      intro h
      rw [splitInto_of_field hd] at h
      rcases ih h with hm | hl
      · rcases List.mem_cons.mp hm with rfl | hm
        · exact .inr (length_lt_of_field_delimited hd hc)
        · exact .inl hm
      · exact .inr (Nat.lt_trans hl hlt)
    | case3 found b tail problem hd =>
      intro h
      rw [splitInto_of_error hd] at h
      exact .inl (List.mem_reverse.mp h)
  exact (hinto [] body hf).resolve_left List.not_mem_nil

end Body

end Checkpoint
