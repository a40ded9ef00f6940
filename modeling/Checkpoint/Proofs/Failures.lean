import Checkpoint.Proofs.Questions
import Checkpoint.Proofs.Reuse

/-! # How conversions fail

A conversion is completed, or it is rejected before anything has been written, or it stops in the
first section that cannot be completed. Nothing else can go wrong: what is taken from records is
there, what is looked up in a table is in it, and a number of fixed width has as many bytes. -/
namespace Checkpoint

/-! ## Counts -/

namespace Tally

/-- The tally holds the counts, those of one name taken together, and no other names. -/
structure Holds (tally : Tally) (counts : List (String × Nat)) : Prop where
  count (name : String) :
    tally.count name = total (counts.filter (·.1 == name))
  mem_names (name : String) : name ∈ tally.names ↔ name ∈ counts.map Prod.fst

theorem total_append (tally more : Tally) : total (tally ++ more) = tally.total + more.total := by
  induction tally with
  | nil => simp [total]
  | cons entry rest ih => simp only [List.cons_append, total, ih, Nat.add_assoc]

theorem Holds.nil : Holds [] [] where
  count _ := rfl
  mem_names _ := Iff.rfl

theorem Holds.add {tally : Tally} {counts : List (String × Nat)} (h : tally.Holds counts)
    (name : String) (n : Nat) : (tally.add name n).Holds (counts ++ [(name, n)]) where
  count other := by
    rw [count_add, h.count, List.filter_append, total_append]
    by_cases hn : name = other <;> simp [hn, total]
  mem_names other := by
    rw [mem_names_add, h.mem_names, List.map_append, List.mem_append]
    simp

end Tally

/-! ## Completed sections -/

/-- The section is completed: its records are read, and after them the end of the section is reached
or, if this is forgiven, there are bytes left over. -/
def SectionKind.Completes (kind : SectionKind) (strict : Bool) (s : ByteStream)
    (strings : Option StringTable) (count : Nat) (after : Option StringTable) : Prop :=
  ∃ written rest, (kind.scribe strings).run s = ⟨written, .ok (count, after), rest⟩ ∧
    rest.Passable ∧ (strict = true → rest.unread = [])

/-- All sections of known kinds are completed, with their counts by name and the string table before
and after them. -/
inductive Completed (strict : Bool) (streamOf : SectionEntry → ByteStream) :
    List SectionEntry → Option StringTable → List (String × Nat) → Option StringTable → Prop
  | nil {strings} : Completed strict streamOf [] strings [] strings
  | skipped {entry rest strings counts after} : entry.kind = none →
      Completed strict streamOf rest strings counts after →
      Completed strict streamOf (entry :: rest) strings counts after
  | read {entry rest kind strings count between counts after} : entry.kind = some kind →
      kind.Completes strict (streamOf entry) strings count between →
      Completed strict streamOf rest between counts after →
      Completed strict streamOf (entry :: rest) strings ((entry.name, count) :: counts) after

/-- A visit of sections goes through all of them, or it stops in the first one that is not
completed. The problem is none of the format, and what has been counted are the sections before. -/
inductive Visit.Goes (strict : Bool) (streamOf : SectionEntry → ByteStream)
    (entries : List SectionEntry) (strings : Option StringTable) (earlier : List (String × Nat))
    (visit : Visit) : Prop
  | through {counts : List (String × Nat)} {after : Option StringTable} :
      Completed strict streamOf entries strings counts after → visit.failure = none →
      visit.session.records.Holds (earlier ++ counts) →
      Goes strict streamOf entries strings earlier visit
  | stopped {before rest : List SectionEntry} {entry : SectionEntry} {kind : SectionKind}
      {counts : List (String × Nat)} {between : Option StringTable} {problem : Problem} :
      entries = before ++ entry :: rest → entry.kind = some kind →
      Completed strict streamOf before strings counts between →
      (∀ count after, ¬kind.Completes strict (streamOf entry) between count after) →
      visit.failure = some ⟨problem, some entry.name⟩ → (∀ cause, problem ≠ .format cause) →
      visit.session.records.Holds (earlier ++ counts) →
      Goes strict streamOf entries strings earlier visit

namespace Visit.Goes

variable {strict : Bool} {streamOf : SectionEntry → ByteStream} {entries : List SectionEntry}
  {strings : Option StringTable} {earlier : List (String × Nat)} {visit visit' : Visit}

/-- Only how the visit ends and what it has counted matter. -/
theorem congr (h : visit.Goes strict streamOf entries strings earlier)
    (hf : visit'.failure = visit.failure)
    (hs : visit'.session.records = visit.session.records) :
    visit'.Goes strict streamOf entries strings earlier := by
  cases h with
  | through hc hn hr => exact .through hc (hf.trans hn) (hs ▸ hr)
  | stopped he hk hc hn hp hne hr => exact .stopped he hk hc hn (hf.trans hp) hne (hs ▸ hr)

/-- What is done after the sections does not change how they went. -/
theorem andThen {next : Session → Visit} (h : visit.Goes strict streamOf entries strings earlier)
    (hn : ∀ session, (next session).failure = none ∧ (next session).session = session) :
    (visit.andThen next).Goes strict streamOf entries strings earlier := by
  cases hf : visit.failure with
  | some failure =>
    rw [andThen_of_failure hf]
    exact h
  | none =>
    obtain ⟨hq, hs⟩ := hn visit.session
    rw [andThen_of_none hf]
    exact h.congr (hq.trans hf.symm) (congrArg Session.records hs)

end Visit.Goes

theorem Problem.MetWith.ne_format {strings : Option StringTable} {problem : Problem}
    (h : problem.MetWith strings) (cause : FormatProblem) : problem ≠ .format cause := by
  rintro rfl
  exact h

namespace Session

variable {settings : Settings} {streamOf : SectionEntry → ByteStream} {entry : SectionEntry}
  {entries : List SectionEntry} {kind : SectionKind} {session : Session}

/-- A section whose records have been read is completed, or there is a problem behind them. -/
theorem close_cases (session : Session) (count : Nat) (rest : ByteStream) :
    (rest.Passable ∧ (settings.strict = true → rest.unread = []) ∧
      (session.close settings entry count rest).failure = none ∧
      (session.close settings entry count rest).session =
        { session with records := session.records.add entry.name count }) ∨
    (¬(rest.Passable ∧ (settings.strict = true → rest.unread = [])) ∧
      ∃ problem : Problem, (∀ cause, problem ≠ .format cause) ∧
        session.close settings entry count rest = session.failIn entry.name problem) := by
  obtain ⟨unread, fault⟩ := rest
  cases unread with
  | nil =>
    cases fault with
    | none => exact .inl ⟨fun _ => rfl, fun _ => rfl, rfl, rfl⟩
    | some problem =>
      refine .inr ⟨?_, .malformed problem, nofun, rfl⟩
      rintro ⟨hp, -⟩
      cases hp rfl
  | cons b unread =>
    cases hs : settings.strict with
    | true =>
      refine .inr ⟨?_, .count .leftover, nofun, ?_⟩
      · rintro ⟨-, hu⟩
        cases hu rfl
      · show (if settings.strict then _ else _ : Visit) = _
        rw [if_pos hs]
    | false =>
      have hc : session.close settings entry count ⟨b :: unread, fault⟩ =
          ({ session, events := [.forgiven .leftover] } : Visit).andThen
            (finish entry.name count) := by
        show (if settings.strict then _ else _ : Visit) = _
        rw [hs, if_neg Bool.false_ne_true]
      rw [hc]
      exact .inl ⟨nofun, nofun, rfl, rfl⟩

/-- A section is completed and counted, or the visit ends in it. -/
theorem visitKnown_cases (session : Session) :
    (∃ count after, kind.Completes settings.strict (streamOf entry) session.strings count after ∧
      (session.visitKnown settings streamOf entry kind).failure = none ∧
      (session.visitKnown settings streamOf entry kind).session =
        ⟨after, session.records.add entry.name count⟩) ∨
    ((∀ count after,
      ¬kind.Completes settings.strict (streamOf entry) session.strings count after) ∧
      ∃ problem : Problem, (∀ cause, problem ≠ .format cause) ∧
        (session.visitKnown settings streamOf entry kind).failure =
          some ⟨problem, some entry.name⟩ ∧
        (session.visitKnown settings streamOf entry kind).session.records = session.records) := by
  rcases hr : (kind.scribe session.strings).run (streamOf entry) with ⟨written, outcome, rest⟩
  cases outcome with
  | error problem =>
    have hp := (SectionKind.composed session.strings kind).regular.error hr
    refine .inr ⟨?_, problem, hp.ne_format, ?_⟩
    · rintro count after ⟨written', rest', hr', -⟩
      rw [hr] at hr'
      cases hr'
    · rw [visitKnown_of_error hr, Visit.andThen_of_none rfl]
      exact ⟨rfl, rfl⟩
  | ok read =>
    obtain ⟨count, after⟩ := read
    rw [visitKnown_of_ok hr, Visit.andThen_of_none rfl]
    rcases close_cases { session with strings := after } count rest with
      ⟨hp, hu, hf, hs⟩ | ⟨hn, problem, hne, hc⟩
    · exact .inl ⟨count, after, ⟨written, rest, hr, hp, hu⟩, hf, hs⟩
    · refine .inr ⟨?_, problem, hne, ?_⟩
      · rintro count' after' ⟨written', rest', hr', hp, hu⟩
        rw [hr] at hr'
        cases hr'
        exact hn ⟨hp, hu⟩
      · dsimp only [begun]
        rw [hc]
        exact ⟨rfl, rfl⟩

theorem visitEntries_goes (session : Session) {earlier : List (String × Nat)}
    (h : session.records.Holds earlier) : (session.visitEntries settings streamOf entries).Goes
      settings.strict streamOf entries session.strings earlier := by
  -- what has been counted before is carried along in `earlier`
  induction entries generalizing session earlier with
  | nil => exact .through .nil rfl ((List.append_nil earlier).symm ▸ h)
  | cons entry entries ih =>
    rw [visitEntries, visitEntry]
    cases hk : entry.kind with
    | none =>
      rw [Visit.andThen_of_none rfl]
      cases ih session h with
      | through hc hf hr => exact .through (.skipped hk hc) hf hr
      | stopped he hk' hc hn hf hp hr =>
        exact .stopped (congrArg (entry :: ·) he) hk' (.skipped hk hc) hn hf hp hr
    | some kind =>
      dsimp only
      rcases visitKnown_cases session with ⟨count, after, hc, hf, hs⟩ | ⟨hn, problem, hp, hf, hs⟩
      · rw [Visit.andThen_of_none hf, hs]
        have hr := h.add entry.name count
        cases ih ⟨after, _⟩ hr with
        | through hc' hf' hr' => exact .through (.read hk hc hc') hf' (by simpa using hr')
        | stopped he hk' hc' hn' hf' hp' hr' =>
          exact .stopped (congrArg (entry :: ·) he) hk' (.read hk hc hc') hn' hf' hp'
            (by simpa using hr')
      · rw [Visit.andThen_of_failure hf]
        exact .stopped (List.nil_append _) hk .nil hn hf hp (by simpa [hs] using h)

end Session

/-! ## Documents -/

namespace Summary

/-- The text that a document starts with. -/
def heading (summary : Summary) (revision : String) : String :=
  "<?xml version=\"1.0\"?>\n" ++ "<fsimage>" ++ "<version>" ++
    "<layoutVersion>" ++ Xml.escape (toString summary.layoutVersion) ++ "</layoutVersion>" ++
    "<onDiskVersion>" ++ Xml.escape (toString summary.ondiskVersion) ++ "</onDiskVersion>" ++
    "<oivRevision>" ++ Xml.escape revision ++ "</oivRevision></version>\n"

theorem renderAll_markup (summary : Summary) (revision : String) :
    Markup.renderAll (summary.markup revision) = summary.heading revision := by
  simp only [markup, Markup.element, Markup.number, Markup.field, List.cons_append,
    List.nil_append, Markup.renderAll_cons, Markup.renderAll_nil, Markup.render,
    String.reduceAppend]
  unfold heading
  simp only [String.append_assoc]

/-- What starts with the markup of a summary starts with its text. -/
theorem exists_document (summary : Summary) {revision : String} {visit : Visit}
    (h : summary.markup revision <+: visit.written) :
    ∃ rest, visit.document = summary.heading revision ++ rest := by
  obtain ⟨rest, hw⟩ := h
  exact ⟨_, by rw [Visit.document, ← hw, Markup.renderAll_append, renderAll_markup]⟩

end Summary

/-- How the conversion of an image ends. -/
inductive Visit.Ends (settings : Settings) (image : Bytes) (visit : Visit) : Prop
  /-- Nothing has been written, and the failure belongs to no section. -/
  | rejected {cause : FormatProblem} : visit.failure = some ⟨.format cause, none⟩ →
      visit.document = "" → visit.session.records = [] → Ends settings image visit
  /-- The start of the document has been written, and the sections have been visited in their
  order. -/
  | opened {summary : Summary} {codec : CodecChoice} : Summary.read image = .ok summary →
      settings.codecs.choose summary.codec = .ok codec →
      (∃ rest, visit.document = summary.heading settings.revision ++ rest) →
      visit.Goes settings.strict (codec.stream image) (SectionEntry.visitOrder summary.sections)
        none [] →
      Ends settings image visit

theorem convert_ends (settings : Settings) (image : Bytes) :
    (convert settings image).Ends settings image := by
  have rejected : ∀ cause, convert settings image =
      { session := {}, failure := some ⟨.format cause, none⟩ } →
      (convert settings image).Ends settings image := by
    intro cause hv
    rw [hv]
    exact .rejected rfl rfl rfl
  cases hr : Summary.read image with
  | error cause => exact rejected cause (by simp only [convert, Session.visit, hr])
  | ok summary =>
    cases hc : settings.codecs.choose summary.codec with
    | error cause => exact rejected cause (by simp only [convert, Session.visit, hr, hc])
    | ok codec =>
      rw [convert, Session.visit_of_read {} settings hr hc]
      refine .opened hr hc (summary.exists_document ?_) ?_
      · refine List.IsPrefix.trans ?_ Visit.written_prefix_andThen
        rw [Visit.andThen_of_none rfl]
        exact List.prefix_append _ _
      · refine .andThen ?_ fun _ => ⟨rfl, rfl⟩
        exact (Session.visitEntries_goes {} .nil).congr rfl rfl

/-! ## Records, words and tables -/

/-- A record that has been read from a stream gives the answer that is taken from it. -/
theorem Inquiry.ask_of_readRecord? (inquiry : Inquiry) {s t : ByteStream} {r : Record}
    (h : ByteStream.readRecord? inquiry.schema s = .ok (some r) t) :
    inquiry.question.ask r = .ok (inquiry.taken r) := by
  obtain ⟨frame, -, length, body, -, -, -, hp⟩ := ByteStream.exists_frame_of_readRecord? h
  exact inquiry.ask_eq hp

/-- The subject that a code stands for, if it is one. -/
def AclSubject.ofCode? : Nat → Option AclSubject
  | 0 => some user
  | 1 => some group
  | 2 => some mask
  | 3 => some other
  | _ => none

/-- What is shown for an action, by its bits. -/
def AclEntry.actionTexts : List String :=
  ["---", "--x", "-w-", "-wx", "r--", "r-x", "rw-", "rwx"]

/-- The number in bytes that are exactly as many as it is wide. -/
def Bytes.unpack? (width : Nat) (bytes : Bytes) : Option Nat :=
  if bytes.length = width then some (littleEndian bytes) else none

theorem bitField_lt (word offset width : Nat) : bitField word offset width < 1 <<< width := by
  have hpos : 0 < 1 <<< width := by
    rw [Nat.one_shiftLeft]
    exact Nat.two_pow_pos width
  exact Nat.mod_lt _ hpos

/-- Two bits are always the code of a subject. -/
theorem AclSubject.ofCode?_bitField (word : Nat) :
    ofCode? (bitField word 3 2) = some (AclEntry.ofWord word).subject := by
  have hall : ∀ code < 4, ofCode? code = some (ofBits code) := by decide
  exact hall _ (bitField_lt word 3 2)

/-- Three bits are always a place in the table of actions. -/
theorem AclEntry.actionTexts_bitField (word : Nat) :
    actionTexts[bitField word 0 3]? = some (actionText (ofWord word).action) := by
  have hall : ∀ action : Fin 8, actionTexts[action.val]? = some (actionText action) := by
    decide +kernel
  exact hall (ofWord word).action

namespace Bytes

variable {width : Nat}

theorem unpack?_of_word {n : Nat} {bytes : Bytes} (h : Word width n bytes) :
    unpack? width bytes = some n := by
  rw [unpack?, if_pos h.1, h.2]

theorem map_unpack?_chunks {count : Nat} {bytes : Bytes} (h : bytes.length = width * count) :
    (chunks width count bytes).map (unpack? width) =
      (chunks width count bytes).map fun piece => some (littleEndian piece) := by
  induction count generalizing bytes with
  | zero => rfl
  | succ count ih =>
    rw [Nat.mul_succ] at h
    have hw : (bytes.take width).length = width := by
      rw [List.length_take]
      omega
    have hd : (bytes.drop width).length = width * count := by
      rw [List.length_drop]
      omega
    rw [chunks, List.map_cons, List.map_cons, ih hd, unpack?, if_pos hw]

end Bytes

/-- A number of fixed width is unpacked from exactly as many bytes. -/
theorem Body.unpack?_of_fixed {record : String} {number width n : Nat} {body rest : Bytes}
    (h : Body.fixed record number width body = .ok (n, rest)) :
    Bytes.unpack? width (body.take width) = some n := by
  obtain ⟨taken, rfl, hw⟩ := (Body.reads_fixed record number width _ _ _).mp h
  rw [List.take_append_of_le_length (Nat.le_of_eq hw.1.symm),
    List.take_of_length_le (Nat.le_of_eq hw.1)]
  exact Bytes.unpack?_of_word hw

/-- Packed numbers of fixed width are unpacked from pieces of exactly as many bytes. -/
theorem LayoutOf.unpack?_of_words {record field : String} {packed : Bytes} {width : Nat}
    {ns : List Nat} (h : unpack.words record field packed width = .ok ns) :
    (Bytes.chunks width (packed.length / width) packed).map (Bytes.unpack? width) =
      ns.map some := by
  rw [unpack.words] at h
  split at h
  · cases h
  · rename_i hm
    have hl := Nat.mul_div_cancel' (Nat.dvd_of_mod_eq_zero (Decidable.not_not.mp hm))
    obtain rfl := Except.ok.inj h
    rw [Bytes.map_unpack?_chunks hl.symm, List.map_map]
    rfl

/-- The length of a summary is unpacked from exactly four bytes. -/
theorem Summary.length_drop_of_checkMagic {image : Bytes} (h : checkMagic image = .ok ()) :
    (image.drop (image.length - lengthBytes)).length = lengthBytes := by
  rw [checkMagic] at h
  split at h
  · cases h
  · rename_i hl
    rw [List.length_drop]
    omega

/-- No section starts before its image. -/
theorem CodecChoice.stream?_of_read {image : Bytes} {summary : Summary}
    (h : Summary.read image = .ok summary) (codec : CodecChoice) :
    ∀ entry ∈ summary.sections, codec.stream? image entry = some (codec.stream image entry) := by
  intro entry he
  obtain ⟨limit, -, hf⟩ := Summary.fits_of_read h
  rw [stream?, if_neg (Int.not_lt.mpr (hf entry he).1)]

/-- A conversion is completed, rejected before anything has been written, or stopped in the first
section that is not completed. In its course every record that is read answers what is asked of it,
every number of fixed width has its bytes, every section has its place in the image, and every code
in a packed word is in its table. -/
theorem convert_outcome (settings : Settings) (image : Bytes) :
    (convert settings image).Ends settings image ∧
    (∀ inquiry ∈ Catalog.inquiries, ∀ s r t,
      ByteStream.readRecord? inquiry.schema s = .ok (some r) t →
      inquiry.question.ask r = .ok (inquiry.taken r)) ∧
    (∀ record number width body n rest, Body.fixed record number width body = .ok (n, rest) →
      Bytes.unpack? width (body.take width) = some n) ∧
    (∀ record field packed width ns, LayoutOf.unpack.words record field packed width = .ok ns →
      (Bytes.chunks width (packed.length / width) packed).map (Bytes.unpack? width) =
        ns.map some) ∧
    (Summary.checkMagic image = .ok () →
      (image.drop (image.length - Summary.lengthBytes)).length = Summary.lengthBytes) ∧
    (∀ summary, Summary.read image = .ok summary → ∀ (codec : CodecChoice),
      ∀ entry ∈ summary.sections, codec.stream? image entry = some (codec.stream image entry)) ∧
    ∀ word, AclSubject.ofCode? (bitField word 3 2) = some (AclEntry.ofWord word).subject ∧
      AclEntry.actionTexts[bitField word 0 3]? =
        some (AclEntry.actionText (AclEntry.ofWord word).action) :=
  ⟨convert_ends settings image, fun inquiry _ _ _ _ => inquiry.ask_of_readRecord?,
    fun _ _ _ _ _ _ => Body.unpack?_of_fixed, fun _ _ _ _ _ => LayoutOf.unpack?_of_words,
    Summary.length_drop_of_checkMagic, fun _ => CodecChoice.stream?_of_read,
    fun word => ⟨AclSubject.ofCode?_bitField word, AclEntry.actionTexts_bitField word⟩⟩

end Checkpoint
