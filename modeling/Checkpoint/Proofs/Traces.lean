import Checkpoint.Proofs.DiagnosticLines
import Checkpoint.Proofs.Failures
import Checkpoint.Proofs.Logging

/-! # Traces

The diagnostic lines of a conversion tell its course: a line for the image, then for each section
that is come to a line if it is passed over, and otherwise one before it is read and one after it,
with the number of its records. Only the section in which a conversion fails has no line after it,
and the records of a conversion are what the lines say. -/
namespace Checkpoint

/-! ## Counts by name -/

namespace Tally

/-- The counts by name, in the order in which the names first come up, those of one name taken
together. -/
def ofCounts (counts : List (String × Nat)) : Tally :=
  (counts.map Prod.fst).eraseDups.map fun name => (name, total (counts.filter (·.1 == name)))

/-- The tally after counts that are added one after the other. -/
def addAll : List (String × Nat) → Tally → Tally
  | [], tally => tally
  | (name, n) :: rest, tally => addAll rest (tally.add name n)

/-- The first name of a tally collects its counts, and the others go to the rest. -/
theorem addAll_cons (counts : List (String × Nat)) (name : String) (n : Nat) (tally : Tally) :
    addAll counts ((name, n) :: tally) = (name, n + total (counts.filter (·.1 == name))) ::
      addAll (counts.filter (!·.1 == name)) tally := by
  induction counts generalizing n tally with
  | nil => rfl
  | cons count rest ih =>
    obtain ⟨other, m⟩ := count
    by_cases h : name = other
    · subst h
      simp [addAll, add, ih, total, Nat.add_assoc]
    · simp [addAll, add, ih, h, Ne.symm h]

theorem ofCounts_cons (name : String) (n : Nat) (counts : List (String × Nat)) :
    ofCounts ((name, n) :: counts) = (name, n + total (counts.filter (·.1 == name))) ::
      ofCounts (counts.filter (!·.1 == name)) := by
  have hnames : (counts.map Prod.fst).filter (!· == name) =
      (counts.filter (!·.1 == name)).map Prod.fst := List.filter_map
  rw [ofCounts, ofCounts, List.map_cons, List.eraseDups_cons, List.map_cons, hnames]
  congr 1
  · simp [total]
  · refine List.map_congr_left fun other ho => ?_
    obtain ⟨count, hc, rfl⟩ := List.mem_map.mp (List.mem_eraseDups.mp ho)
    have hne : count.1 ≠ name := by simpa using (List.mem_filter.mp hc).2
    have hsame : counts.filter (·.1 == count.1) =
        (counts.filter (!·.1 == name)).filter (·.1 == count.1) := by
      rw [List.filter_filter]
      refine List.filter_congr fun other _ => ?_
      by_cases h : other.1 = count.1 <;> simp [h, hne]
    rw [List.filter_cons_of_neg (by simpa using hne.symm), hsame]

/-- Adding counts one after the other takes those of one name together. -/
theorem addAll_nil (counts : List (String × Nat)) : addAll counts [] = ofCounts counts := by
  -- by the length, since all counts of the first name leave the list together
  induction hl : counts.length using Nat.strongRecOn generalizing counts with
  | ind length ih =>
    cases counts with
    | nil => rfl
    | cons count rest =>
      have hlt : (rest.filter (!·.1 == count.1)).length < length := by
        have := List.length_filter_le (!·.1 == count.1) rest
        rw [List.length_cons] at hl
        omega
      rw [ofCounts_cons, ← ih _ hlt _ rfl]
      exact addAll_cons rest count.1 count.2 []

end Tally

/-! ## Sections -/

/-- The diagnostic lines of a visit of sections, the counts on those of completed sections, and the
failure that ends it. -/
inductive Traces (strict : Bool) (streamOf : SectionEntry → ByteStream) :
    List SectionEntry → Option StringTable → List String → List (String × Nat) → Option Failure →
      Prop
  | nil {strings} : Traces strict streamOf [] strings [] [] none
  | skipped {entry rest strings lines counts failure} : entry.kind = none →
      Traces strict streamOf rest strings lines counts failure →
      Traces strict streamOf (entry :: rest) strings (entry.skipLine :: lines) counts failure
  | completed {entry rest kind strings count between lines counts failure} :
      entry.kind = some kind → kind.Completes strict (streamOf entry) strings count between →
      Traces strict streamOf rest between lines counts failure →
      Traces strict streamOf (entry :: rest) strings
        (entry.startLine :: entry.completionLine count :: lines) ((entry.name, count) :: counts)
        failure
  /-- The visit ends in the section, and nothing of it is logged or counted. -/
  | failed {entry rest kind strings problem} : entry.kind = some kind →
      (∀ count after, ¬kind.Completes strict (streamOf entry) strings count after) →
      Traces strict streamOf (entry :: rest) strings [entry.startLine] []
        (some ⟨problem, some entry.name⟩)

namespace Traces

variable {strict : Bool} {streamOf : SectionEntry → ByteStream} {entries : List SectionEntry}
  {strings : Option StringTable} {lines : List String} {counts : List (String × Nat)}
  {failure : Option Failure}

/-- The last line announces a section only if the visit has failed. -/
theorem announces_getLast? (h : Traces strict streamOf entries strings lines counts failure)
    {first : String} (hf : announces first = false) :
    (first :: lines).getLast?.any announces = failure.isSome := by
  induction h generalizing first with
  | nil => simpa using hf
  | @skipped entry rest strings lines counts failure hk _ ih =>
    rw [List.getLast?_cons_cons]
    exact ih entry.announces_skipLine
  | @completed entry rest kind strings count between lines counts failure hk hc _ ih =>
    rw [List.getLast?_cons_cons, List.getLast?_cons_cons]
    exact ih (entry.announces_completionLine count)
  | @failed entry => exact entry.announces_startLine

/-- The counts can be read back from the lines. -/
theorem filterMap_completion? (h : Traces strict streamOf entries strings lines counts failure) :
    lines.filterMap completion? = counts := by
  induction h with
  | nil => rfl
  | @skipped entry rest strings lines counts failure hk _ ih =>
    rw [List.filterMap_cons_none entry.completion?_skipLine, ih]
  | @completed entry rest kind strings count between lines counts failure hk hc _ ih =>
    rw [List.filterMap_cons_none entry.completion?_startLine,
      List.filterMap_cons_some (SectionEntry.completion?_completionLine hk count), ih]
  | @failed entry => exact List.filterMap_cons_none entry.completion?_startLine

/-- Where a visit has failed, the last line announces the section in which it has. -/
theorem getLast?_of_failure (h : Traces strict streamOf entries strings lines counts failure)
    {cause : Failure} (hf : failure = some cause) (first : String) :
    ∃ entry ∈ entries, cause.foundIn = some entry.name ∧
      (first :: lines).getLast? = some entry.startLine := by
  induction h generalizing first with
  | nil => cases hf
  | @skipped entry rest strings lines counts failure hk _ ih =>
    obtain ⟨last, hm, hn, hl⟩ := ih hf entry.skipLine
    exact ⟨last, List.mem_cons_of_mem _ hm, hn, List.getLast?_cons_cons.trans hl⟩
  | @completed entry rest kind strings count between lines counts failure hk hc _ ih =>
    obtain ⟨last, hm, hn, hl⟩ := ih hf (entry.completionLine count)
    refine ⟨last, List.mem_cons_of_mem _ hm, hn, ?_⟩
    rw [List.getLast?_cons_cons, List.getLast?_cons_cons, hl]
  | @failed entry =>
    cases hf
    exact ⟨entry, List.mem_cons_self, rfl, rfl⟩

end Traces

namespace Session

variable {settings : Settings} {streamOf : SectionEntry → ByteStream} {entry : SectionEntry}
  {kind : SectionKind} {session : Session}

/-- A completed section is noted before and after, whether or not anything of it is forgiven. -/
theorem messages_of_completes {count : Nat} {after : Option StringTable}
    (h : kind.Completes settings.strict (streamOf entry) session.strings count after) :
    Event.messages .diag (session.visitKnown settings streamOf entry kind).events =
      [entry.startLine, entry.completionLine count] := by
  obtain ⟨written, ⟨unread, fault⟩, hr, hp, hu⟩ := h
  rw [visitKnown_of_ok hr, Visit.andThen_of_none rfl]
  cases unread with
  | nil =>
    obtain rfl : fault = none := hp rfl
    rfl
  | cons b unread =>
    -- only a lenient visit completes a section with bytes left, and then warns in between
    have hs : settings.strict = false := by
      cases hs : settings.strict with
      | true => cases hu hs
      | false => rfl
    change Event.messages .diag
      ([.started entry] ++ (if settings.strict then _ else _ : Visit).events) = _
    rw [hs]
    rfl

/-- A section in which the visit ends is noted before only. -/
theorem messages_of_failure {failure : Failure}
    (h : (session.visitKnown settings streamOf entry kind).failure = some failure) :
    Event.messages .diag (session.visitKnown settings streamOf entry kind).events =
      [entry.startLine] := by
  rcases hr : (kind.scribe session.strings).run (streamOf entry) with ⟨written, outcome, rest⟩
  cases outcome with
  | error problem =>
    rw [visitKnown_of_error hr, Visit.andThen_of_none rfl]
    rfl
  | ok read =>
    obtain ⟨count, after⟩ := read
    rw [visitKnown_of_ok hr, Visit.andThen_of_none rfl] at h ⊢
    rcases @close_cases settings entry { session with strings := after } count rest with
      ⟨-, -, hf, -⟩ | ⟨-, problem, -, hc⟩
    · cases hf.symm.trans h
    · dsimp only [begun]
      rw [hc]
      rfl

/-- The lines of a visit of sections are a trace of it, and what it has counted is on them. -/
theorem visitEntries_traces (settings : Settings) (streamOf : SectionEntry → ByteStream)
    (entries : List SectionEntry) (session : Session) :
    let visit := session.visitEntries settings streamOf entries
    ∃ counts, Traces settings.strict streamOf entries session.strings
        (Event.messages .diag visit.events) counts visit.failure ∧
      visit.session.records = session.records.addAll counts := by
  induction entries generalizing session with
  | nil => exact ⟨[], .nil, rfl⟩
  | cons entry rest ih =>
    dsimp only
    rw [visitEntries, visitEntry]
    cases hk : entry.kind with
    | none =>
      obtain ⟨counts, ht, hr⟩ := ih session
      rw [Visit.andThen_of_none rfl]
      exact ⟨counts, .skipped hk ht, hr⟩
    | some kind =>
      dsimp only
      rcases visitKnown_cases session with ⟨count, after, hc, hf, hs⟩ | ⟨hn, problem, -, hf, hs⟩
      · obtain ⟨counts, ht, hr⟩ := ih ⟨after, session.records.add entry.name count⟩
        refine ⟨(entry.name, count) :: counts, ?_, ?_⟩
        · rw [Visit.andThen_of_none hf, hs]
          dsimp only
          rw [Event.messages_append, messages_of_completes hc]
          exact .completed hk hc ht
        · rw [Visit.andThen_of_none hf, hs]
          exact hr
      · refine ⟨[], ?_, ?_⟩
        · rw [Visit.andThen_of_failure hf, messages_of_failure hf, hf]
          exact .failed hk hn
        · rw [Visit.andThen_of_failure hf]
          exact hs

end Session

/-- Writing at the end changes nothing but what is written. -/
theorem Visit.andThen_write (visit : Visit) (items : List Markup) :
    let ended := visit.andThen fun session => { session, written := items }
    ended.events = visit.events ∧ ended.failure = visit.failure ∧
      ended.session = visit.session := by
  dsimp only
  cases hf : visit.failure with
  | some failure =>
    rw [andThen_of_failure hf]
    exact ⟨rfl, hf, rfl⟩
  | none =>
    rw [andThen_of_none hf]
    exact ⟨List.append_nil _, rfl, rfl⟩

/-- The diagnostic lines of an image that can be opened. -/
theorem convert_traces (settings : Settings) {image : Bytes} {summary : Summary}
    {codec : CodecChoice} (hr : Summary.read image = .ok summary)
    (hc : settings.codecs.choose summary.codec = .ok codec) :
    let visit := convert settings image
    ∃ lines counts, Event.messages .diag visit.events = summary.line :: lines ∧
      Traces settings.strict (codec.stream image) (SectionEntry.visitOrder summary.sections) none
        lines counts visit.failure ∧
      visit.session.records = Tally.ofCounts counts := by
  dsimp only
  rw [convert, Session.visit_of_read {} settings hr hc, Visit.andThen_assoc,
    Visit.andThen_of_none rfl]
  obtain ⟨counts, ht, hs⟩ := Session.visitEntries_traces settings (codec.stream image)
    (SectionEntry.visitOrder summary.sections) {}
  obtain ⟨he, hf, hn⟩ := Visit.andThen_write (Session.visitEntries settings (codec.stream image)
    (SectionEntry.visitOrder summary.sections) {}) [.closing "fsimage" true]
  dsimp only at he hf hn ⊢
  refine ⟨_, counts, ?_, hf ▸ ht, ?_⟩
  · rw [he, Event.messages_append]
    rfl
  · rw [hn, hs]
    exact Tally.addAll_nil counts

/-- The diagnostic log of a conversion is a trace of it, and has no effect. If the image can be
opened, the log starts with a line for it, and goes on with the lines of its sections in the order
in which they are visited: one for a section that is passed over, one before and one after each
section that is completed, with the number of its records, and one before the section in which the
conversion fails. The last line announces a section only in that case. The counts of the records are
those read back from the lines, taken together by name. Without diagnostics, none of these lines are
kept, and the document, the counts, all other messages and the outcome are the same. -/
theorem convert_traced (settings : Settings) (image : Bytes) (echoes : Bool) :
    let loud := settings.convertLogging { keepsDiag := true, echoes } image
    let quiet := settings.convertLogging { keepsDiag := false, echoes } image
    (∀ summary codec, Summary.read image = .ok summary →
      settings.codecs.choose summary.codec = .ok codec →
      ∃ lines counts, loud.log.messages .diag = summary.line :: lines ∧
        Traces settings.strict (codec.stream image) (SectionEntry.visitOrder summary.sections) none
          lines counts loud.failure ∧
        (loud.log.messages .diag).filterMap completion? = counts ∧
        loud.records = Tally.ofCounts counts ∧
        (∀ failure, loud.failure = some failure → ∃ entry ∈ summary.sections,
          failure.foundIn = some entry.name ∧
            (loud.log.messages .diag).getLast? = some entry.startLine) ∧
        (loud.failure = none → ∀ entry : SectionEntry,
          (loud.log.messages .diag).getLast? ≠ some entry.startLine)) ∧
    quiet.log.messages .diag = [] ∧ quiet.document = loud.document ∧
    quiet.records = loud.records ∧ quiet.failure = loud.failure ∧
    (∀ level, level ≠ .diag → quiet.log.messages level = loud.log.messages level) ∧
    ∀ log, settings.convertLogging log image =
      let visit := convert settings image
      ⟨visit.document, visit.session.records, visit.logTo log, visit.failure⟩ := by
  have heq := fun log => settings.convertLogging_eq log image
  have hlog := fun keepsDiag => settings.messages_convertLogging image keepsDiag echoes
  dsimp only at heq ⊢
  refine ⟨fun summary codec hr hc => ?_, hlog false .diag, by rw [heq, heq], by rw [heq, heq],
    by rw [heq, heq], fun level hl => ?_, heq⟩
  · obtain ⟨lines, counts, hm, ht, hs⟩ := convert_traces settings hr hc
    rw [(hlog true .diag).trans hm, heq]
    dsimp only
    have hread : (summary.line :: lines).filterMap completion? = counts := by
      rw [List.filterMap_cons_none summary.completion?_line, ht.filterMap_completion?]
    refine ⟨lines, counts, rfl, ht, hread, hs, fun failure hf => ?_, fun hf entry hl => ?_⟩
    · obtain ⟨entry, he, hn, hl⟩ := ht.getLast?_of_failure hf summary.line
      exact ⟨entry, SectionEntry.mem_visitOrder.mp he, hn, hl⟩
    · have hann := ht.announces_getLast? summary.announces_line
      rw [hl, hf] at hann
      simp [SectionEntry.announces_startLine] at hann
  · have hk : (level != .diag) = true := by simpa using hl
    rw [hlog false, hlog true, hk]
    rfl

/-- The small image, with a byte after the last inode and an unknown name instead of `INODE_DIR`. -/
def longerImage : Bytes := (smallImage.set 72 22).set 87 88

def longerSummary : Summary where
  ondiskVersion := 1
  layoutVersion := -60
  codec := ""
  sections := [⟨"INODE", 8, 22⟩, ⟨"INODE_DIX", 29, 10⟩, ⟨"STRING_TABLE", 39, 9⟩]

theorem read_longerImage : Summary.read longerImage = .ok longerSummary := by decide +kernel

/-- A lenient conversion traces all three sections, and a strict one ends in the inodes. -/
theorem convert_traced_longerImage :
    let lenient := ({ strict := false } : Settings).convertLogging { keepsDiag := true } longerImage
    let strict := ({} : Settings).convertLogging { keepsDiag := true } longerImage
    (∃ lines counts, lenient.log.messages .diag = longerSummary.line :: lines ∧
      Traces false (CodecChoice.stored.stream longerImage)
        [⟨"STRING_TABLE", 39, 9⟩, ⟨"INODE", 8, 22⟩, ⟨"INODE_DIX", 29, 10⟩] none lines counts
        lenient.failure ∧
      (lenient.log.messages .diag).filterMap completion? = counts ∧
      lenient.records = Tally.ofCounts counts) ∧
    (strict.log.messages .diag).getLast? = some "Section INODE at 8 (22 bytes)" := by
  intro lenient strict
  obtain ⟨hlenient, -⟩ := convert_traced { strict := false } longerImage true
  obtain ⟨hstrict, -, -, -, -, -, hrun⟩ := convert_traced {} longerImage true
  obtain ⟨lines, counts, hl, ht, hread, hs, -, -⟩ :=
    hlenient longerSummary .stored read_longerImage rfl
  obtain ⟨-, -, -, -, -, -, hfailed, -⟩ := hstrict longerSummary .stored read_longerImage rfl
  have hfailure : strict.failure = some ⟨.count .leftover, some "INODE"⟩ :=
    (congrArg Logged.failure (hrun { keepsDiag := true })).trans (by decide +kernel)
  refine ⟨⟨lines, counts, hl, ht, hread, hs⟩, ?_⟩
  obtain ⟨entry, he, hn, hlast⟩ := hfailed _ hfailure
  have hmem : entry = ⟨"INODE", 8, 22⟩ ∨ entry = ⟨"INODE_DIX", 29, 10⟩ ∨
      entry = ⟨"STRING_TABLE", 39, 9⟩ := by simpa [longerSummary] using he
  rcases hmem with rfl | rfl | rfl
  · exact hlast.trans (by decide +kernel)
  · exact absurd hn (by decide)
  · exact absurd hn (by decide)

end Checkpoint
