import Checkpoint.Proofs.Emission
import Checkpoint.Proofs.Pieces
import Checkpoint.Proofs.Readback

/-! # Attribute values

Nothing of an attribute value is lost. A value that encodes a text is shown as the text, and every
other one in hexadecimal, so the bytes can be told from the tag and the text in the document. -/
namespace Checkpoint

namespace Bytes

/-- The bytes whose hexadecimal digits are given, two for each. -/
def ofHexDigits : List Char → Bytes
  | high :: low :: rest => UInt8.ofNat (16 * Xml.hexValue high + Xml.hexValue low) ::
    ofHexDigits rest
  | _ => []

/-- The bytes of a hexadecimal text. -/
def ofHex (text : String) : Bytes := ofHexDigits text.toList

theorem ofHex_hex (bytes : Bytes) : ofHex (hex bytes) = bytes := by
  rw [ofHex, hex, String.toList_ofList]
  induction bytes with
  | nil => rfl
  | cons b rest ih =>
    have hb := b.toNat_lt
    have hbyte : UInt8.ofNat (16 * (b.toNat / 16) + b.toNat % 16) = b :=
      Utf8.ofNat_eq (Nat.div_add_mod b.toNat 16)
    rw [List.flatMap_cons, List.cons_append, List.singleton_append, ofHexDigits,
      Xml.hexValue_digitChar (by omega), Xml.hexValue_digitChar (by omega), hbyte, ih]

theorem hex_injective : Function.Injective hex :=
  Function.LeftInverse.injective ofHex_hex

end Bytes

namespace XattrValue

/-- Bytes are shown as the text that they encode, or else in hexadecimal. -/
theorem ofBytes_cases (bytes : Bytes) :
    (∃ s, ofBytes bytes = .text s ∧ Utf8.encode s = bytes ∧ s = Utf8.decodeLossy bytes) ∨
      ofBytes bytes = .hex (Bytes.hex bytes) ∧ ∀ s, Utf8.encode s ≠ bytes := by
  rw [ofBytes]
  cases h : Utf8.decode? bytes with
  | some s =>
    exact .inl ⟨s, rfl, Utf8.decode?_eq_some_iff.mp h, (Utf8.decodeLossy_of_decode? h).symm⟩
  | none =>
    refine .inr ⟨rfl, fun s hs => ?_⟩
    rw [Utf8.decode?_eq_some_iff.mpr hs] at h
    cases h

theorem val_ne_valHex : "val" ≠ "valHex" := by decide

theorem tag_eq_val_iff (bytes : Bytes) :
    (ofBytes bytes).tag = "val" ↔ Utf8.encode (Utf8.decodeLossy bytes) = bytes := by
  rcases ofBytes_cases bytes with ⟨s, hv, he, hs⟩ | ⟨hv, hn⟩
  · rw [hv, ← hs]
    exact iff_of_true rfl he
  · rw [hv]
    exact iff_of_false val_ne_valHex.symm (hn _)

/-- The tag and the text tell the bytes. -/
theorem eq_of_tag_shown {bytes other : Bytes} (ht : (ofBytes bytes).tag = (ofBytes other).tag)
    (hs : (ofBytes bytes).shown = (ofBytes other).shown) : bytes = other := by
  rcases ofBytes_cases bytes with ⟨s, hv, he, -⟩ | ⟨hv, -⟩ <;>
    rcases ofBytes_cases other with ⟨s', hv', he', -⟩ | ⟨hv', -⟩ <;> rw [hv, hv'] at ht hs
  · obtain rfl : s = s' := hs
    exact he.symm.trans he'
  · exact absurd ht val_ne_valHex
  · exact absurd ht val_ne_valHex.symm
  · exact Bytes.hex_injective hs

end XattrValue

namespace Xattr

variable {table : StringTable} {s : ByteStream} {x : Xattr}

/-- An attribute that is written is an element of three fields. -/
theorem exists_written (h : ((x.scribe table).run s).outcome = .ok ()) :
    ∃ label name, ((x.scribe table).run s).written = Markup.element "xattr" false
      (Markup.field "ns" label ++ (Markup.field "name" name ++
        Markup.field (XattrValue.ofBytes x.value).tag (XattrValue.ofBytes x.value).shown)) := by
  rw [scribe] at h ⊢
  cases hl : (XattrNamespace.ofWord x.word).map XattrNamespace.label with
  | error problem => rw [hl] at h; cases h
  | ok label =>
    cases hn : name x.word table with
    | error problem => rw [hl, hn] at h; cases h
    | ok name => exact ⟨label, name, rfl⟩

theorem row_scribe (h : ((x.scribe table).run s).outcome = .ok ()) :
    Markup.Row ((x.scribe table).run s).written := by
  have hb : ((x.scribe table).run s).Balanced := x.emits s
  rw [Transcript.Balanced, h] at hb
  exact hb.row

/-- Attributes that are written as the same text have the same value. -/
theorem value_eq_of_written {table' : StringTable} {s' : ByteStream} {x' : Xattr}
    (h : ((x.scribe table).run s).outcome = .ok ())
    (h' : ((x'.scribe table').run s').outcome = .ok ())
    (he : Markup.renderAll ((x.scribe table).run s).written =
      Markup.renderAll ((x'.scribe table').run s').written) : x.value = x'.value := by
  have hv := (row_scribe h).visible_eq (row_scribe h') he
  obtain ⟨label, name, hw⟩ := exists_written h
  obtain ⟨label', name', hw'⟩ := exists_written h'
  simp only [hw, hw', Markup.element, List.cons_append, List.append_assoc] at hv
  obtain ⟨-, -, hv⟩ := Markup.visible_field_inj (List.cons.inj hv).2
  obtain ⟨-, -, hv⟩ := Markup.visible_field_inj hv
  obtain ⟨ht, hs, -⟩ := Markup.visible_field_inj hv
  exact XattrValue.eq_of_tag_shown ht hs

end Xattr

/-- Attribute values lose nothing. A value is a text that encodes to the bytes, and is what is read of
them with replacements too, or it is the hexadecimal form of the bytes; it is a text exactly if what
is read of the bytes with replacements encodes to the bytes again. So the tag and the text tell the
bytes, also escaped, and also from the document. What is read of bytes with replacements are
characters, none of them a surrogate: each one is encoded in its segment of the bytes, or is U+FFFD
where no character is encoded; read again, it is the same. -/
theorem attribute_values_lossless :
    (∀ raw, let value := XattrValue.ofBytes raw
      (value.tag = "val" ∧ Utf8.encode value.shown = raw ∧ value.shown = Utf8.decodeLossy raw ∨
        value.tag = "valHex" ∧ Bytes.ofHex value.shown = raw) ∧
      (value.tag = "val" ↔ Utf8.encode (Utf8.decodeLossy raw) = raw)) ∧
    (Function.Injective fun raw =>
      ((XattrValue.ofBytes raw).tag, (XattrValue.ofBytes raw).shown)) ∧
    (Function.Injective fun raw =>
      ((XattrValue.ofBytes raw).tag, Xml.escape (XattrValue.ofBytes raw).shown)) ∧
    (∀ (table table' : StringTable) (x x' : Xattr) (s s' : ByteStream),
      ((x.scribe table).run s).outcome = .ok () → ((x'.scribe table').run s').outcome = .ok () →
      Markup.renderAll ((x.scribe table).run s).written =
        Markup.renderAll ((x'.scribe table').run s').written → x.value = x'.value) ∧
    ∀ raw, (∃ segments, raw = segments.flatten ∧
        List.Forall₂ Utf8.ReadAs (Utf8.decodeLossy raw).toList segments) ∧
      (∀ c ∈ (Utf8.decodeLossy raw).toList, ¬(0xD800 ≤ c.toNat ∧ c.toNat ≤ 0xDFFF)) ∧
      Utf8.decodeLossy (Utf8.encode (Utf8.decodeLossy raw)) = Utf8.decodeLossy raw := by
  refine ⟨fun raw => ⟨?_, XattrValue.tag_eq_val_iff raw⟩, fun raw other h => ?_,
    fun raw other h => ?_, fun _ _ _ _ _ _ => Xattr.value_eq_of_written, fun raw =>
      ⟨Utf8.exists_segments_decodeLossy raw, fun c _ hc => ?_, Utf8.decodeLossy_encode _⟩⟩
  · rcases XattrValue.ofBytes_cases raw with ⟨s, hv, he, hs⟩ | ⟨hv, -⟩
    · rw [hv]
      exact .inl ⟨rfl, he, hs⟩
    · rw [hv]
      exact .inr ⟨rfl, Bytes.ofHex_hex raw⟩
  · obtain ⟨ht, hs⟩ := Prod.mk.inj h
    exact XattrValue.eq_of_tag_shown ht hs
  · obtain ⟨ht, hs⟩ := Prod.mk.inj h
    exact XattrValue.eq_of_tag_shown ht (Xml.escape_injective hs)
  · have hvalid : c.toNat < 0xD800 ∨ 0xDFFF < c.toNat ∧ c.toNat < 0x110000 := c.valid
    omega

/-- An encoded surrogate is shown in hexadecimal, and U+FFFD that stands in the bytes as text. The
bits of a name that mean nothing make no difference. -/
theorem attribute_values_lossless_surrogate :
    XattrValue.ofBytes [0xED, 0xA0, 0x80] = .hex "eda080" ∧
    XattrValue.ofBytes [0xEF, 0xBF, 0xBD] = .text "\uFFFD" ∧
    Utf8.decodeLossy [0xED, 0xA0, 0x80] = "\uFFFD\uFFFD\uFFFD" ∧
    (Xattr.mk 64 [0xED, 0xA0, 0x80]).value = (Xattr.mk 65 [0xED, 0xA0, 0x80]).value := by
  let table := StringTable.ofList 1 [(1, "a")]
  obtain ⟨-, -, -, hscribe, -⟩ := attribute_values_lossless
  refine ⟨by rfl, by rfl, by rfl, ?_⟩
  exact hscribe table table ⟨64, [0xED, 0xA0, 0x80]⟩ ⟨65, [0xED, 0xA0, 0x80]⟩ ⟨[], none⟩ ⟨[], none⟩
    (by rfl) (by rfl) (by rfl)

end Checkpoint
