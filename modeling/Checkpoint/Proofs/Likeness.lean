import Checkpoint.Proofs.Container
import Checkpoint.Proofs.Visits

/-! # Visits that are alike

Of the sections of an image only the streams of the known kinds matter to a visit, and those in the
order in which they are visited. Two visits that find the same streams write the same, log the same
warnings and end alike, wherever the sections stand and whatever else there is. -/
namespace Checkpoint

/-! ## Messages -/

/-- Only messages of one level change what messages of that level there are. -/
theorem Log.messages_add (log : Log) (level other : LogLevel) (message : String) :
    (log.add level message).messages other =
      log.messages other ++ if level = other ∧ log.keeps level then [message] else [] := by
  unfold Log.add
  by_cases hk : log.keeps level = true
  · rw [if_pos hk]
    simp only [messages, List.filter_append, List.map_append, hk, and_true]
    by_cases hl : level = other
    · simp [hl]
    · simp [hl]
  · rw [if_neg hk]
    simp [hk]

@[simp]
theorem Log.keeps_add (log : Log) (level other : LogLevel) (message : String) :
    (log.add level message).keeps other = log.keeps other := by
  unfold add
  split <;> rfl

/-- What is logged at a level. -/
def Event.messages (level : LogLevel) (events : List Event) : List String :=
  (events.filter (·.level == level)).map message

theorem Event.messages_append (level : LogLevel) (first second : List Event) :
    messages level (first ++ second) = messages level first ++ messages level second := by
  simp [messages]

/-- All messages of a level are kept, or none. -/
theorem Log.messages_foldl (log : Log) (level : LogLevel) (events : List Event) :
    (events.foldl Event.logTo log).messages level =
      log.messages level ++ if log.keeps level then Event.messages level events else [] := by
  induction events generalizing log with
  | nil => simp [Event.messages]
  | cons event rest ih =>
    rw [List.foldl_cons, ih, Event.logTo, messages_add, keeps_add, List.append_assoc]
    by_cases hl : event.level = level
    · subst hl
      cases hk : log.keeps event.level <;> simp [Event.messages]
    · simp [Event.messages, hl]

/-- The warnings among the events of a visit. -/
def Event.warnings (events : List Event) : List String :=
  (events.filter (·.level == .warn)).map message

/-- A log has the warnings of a visit after those that it had before, whatever else it keeps. -/
theorem Visit.messages_logTo (visit : Visit) (log : Log) :
    (visit.logTo log).messages .warn = log.messages .warn ++ Event.warnings visit.events :=
  log.messages_foldl .warn visit.events

namespace Visit

/-- The warnings that a visit logs. -/
def warnings (visit : Visit) : List String := (visit.logTo {}).messages .warn

theorem warnings_eq (visit : Visit) : visit.warnings = Event.warnings visit.events :=
  visit.messages_logTo {}

theorem warnings_eq_nil {visit : Visit} (h : visit.events.all (·.level != .warn) = true) :
    visit.warnings = [] := by
  have hf : visit.events.filter (·.level == .warn) = [] := by
    rw [List.filter_eq_nil_iff]
    intro event he
    have hn := List.all_eq_true.mp h event he
    simpa using hn
  rw [warnings_eq, Event.warnings, hf, List.map_nil]

variable {first first' v w x : Visit} {next next' : Session → Visit}

theorem andThen_of_failure {failure : Failure} (h : first.failure = some failure) :
    first.andThen next = first := by
  rw [andThen, h]

theorem andThen_of_none (h : first.failure = none) : first.andThen next = { next first.session with
    written := first.written ++ (next first.session).written
    events := first.events ++ (next first.session).events } := by
  rw [andThen, h]

theorem warnings_andThen (h : first.failure = none) :
    (first.andThen next).warnings = first.warnings ++ (next first.session).warnings := by
  simp only [andThen_of_none h, warnings_eq, Event.warnings, List.filter_append, List.map_append]

/-- Two visits that write the same, log the same warnings, end alike and leave the same. -/
structure Alike (v w : Visit) : Prop where
  written : v.written = w.written
  warnings : v.warnings = w.warnings
  failure : v.failure = w.failure
  session : v.session = w.session

namespace Alike

theorem refl (v : Visit) : Alike v v := ⟨rfl, rfl, rfl, rfl⟩

/-- Visits may be alike though they have taken note of other things. -/
theorem of_quiet (hw : v.written = w.written) (hf : v.failure = w.failure)
    (hs : v.session = w.session) (hv : v.events.all (·.level != .warn) = true)
    (hv' : w.events.all (·.level != .warn) = true) : Alike v w :=
  ⟨hw, (warnings_eq_nil hv).trans (warnings_eq_nil hv').symm, hf, hs⟩

theorem symm (h : Alike v w) : Alike w v :=
  ⟨h.written.symm, h.warnings.symm, h.failure.symm, h.session.symm⟩

theorem trans (h : Alike v w) (h' : Alike w x) : Alike v x :=
  ⟨h.written.trans h'.written, h.warnings.trans h'.warnings, h.failure.trans h'.failure,
    h.session.trans h'.session⟩

/-- Alike visits write the same document. -/
theorem document (h : Alike v w) : v.document = w.document := congrArg Markup.renderAll h.written

theorem andThen (hf : Alike first first') (hn : ∀ session, Alike (next session) (next' session)) :
    Alike (first.andThen next) (first'.andThen next') := by
  cases hz : first.failure with
  | some failure =>
    have hz' : first'.failure = some failure := hf.failure ▸ hz
    rw [andThen_of_failure hz, andThen_of_failure hz']
    exact hf
  | none =>
    have hz' : first'.failure = none := hf.failure ▸ hz
    have hs := hn first.session
    refine ⟨?_, ?_, ?_, ?_⟩
    · rw [andThen_of_none hz, andThen_of_none hz', ← hf.session]
      exact congrArg₂ (· ++ ·) hf.written hs.written
    · rw [warnings_andThen hz, warnings_andThen hz', ← hf.session, hf.warnings, hs.warnings]
    · rw [andThen_of_none hz, andThen_of_none hz', ← hf.session]
      exact hs.failure
    · rw [andThen_of_none hz, andThen_of_none hz', ← hf.session]
      exact hs.session

end Alike

end Visit

/-! ## Streams of known sections -/

namespace Session

variable {settings : Settings} {streamOf streamOf' : SectionEntry → ByteStream}
  {entries entries' : List SectionEntry}

/-- Sections of unknown kinds are only noted. -/
theorem visitEntries_filter (settings : Settings) (streamOf : SectionEntry → ByteStream)
    (entries : List SectionEntry) (session : Session) :
    (session.visitEntries settings streamOf entries).Alike
      (session.visitEntries settings streamOf (entries.filter (·.kind.isSome))) := by
  induction entries generalizing session with
  | nil => exact .refl _
  | cons entry rest ih =>
    cases hk : entry.kind with
    | none =>
      have hf : (entry :: rest).filter (·.kind.isSome) = rest.filter (·.kind.isSome) := by
        simp [hk]
      have he : (session.visitEntries settings streamOf (entry :: rest)).Alike
          (session.visitEntries settings streamOf rest) := by
        rw [visitEntries, visitEntry, hk]
        refine ⟨rfl, ?_, rfl, rfl⟩
        rw [Visit.warnings_andThen rfl, Visit.warnings_eq_nil rfl]
        exact List.nil_append _
      rw [hf]
      exact he.trans (ih session)
    | some kind =>
      have hf : (entry :: rest).filter (·.kind.isSome) = entry :: rest.filter (·.kind.isSome) := by
        simp [hk]
      rw [hf]
      exact .andThen (.refl _) ih

theorem visitKnown_alike {entry entry' : SectionEntry} {kind : SectionKind}
    (hn : entry.name = entry'.name) (hs : streamOf entry = streamOf' entry') (session : Session) :
    (session.visitKnown settings streamOf entry kind).Alike
      (session.visitKnown settings streamOf' entry' kind) := by
  unfold visitKnown
  rw [hs]
  refine .andThen (.of_quiet rfl rfl rfl rfl rfl) fun session => ?_
  split
  · unfold failIn
    rw [hn]
    exact .refl _
  · unfold close
    rw [hn]
    exact .refl _

/-- The name and the stream of every section. -/
def streams (streamOf : SectionEntry → ByteStream) (entries : List SectionEntry) :
    List (String × ByteStream) :=
  entries.map fun entry => (entry.name, streamOf entry)

theorem visitEntries_alike_of_streams
    (h : streams streamOf entries = streams streamOf' entries') (session : Session) :
    (session.visitEntries settings streamOf entries).Alike
      (session.visitEntries settings streamOf' entries') := by
  induction entries generalizing entries' session with
  | nil =>
    cases entries' with
    | nil => exact .refl _
    | cons entry' rest' => cases h
  | cons entry rest ih =>
    cases entries' with
    | nil => cases h
    | cons entry' rest' =>
      obtain ⟨he, hr⟩ := List.cons.inj h
      obtain ⟨hn, hs⟩ := Prod.mk.inj he
      have hk : entry.kind = entry'.kind := congrArg SectionKind.ofName? hn
      refine .andThen ?_ fun session => ih hr session
      unfold visitEntry
      rw [← hk]
      cases entry.kind with
      | none => exact .of_quiet rfl rfl rfl rfl rfl
      | some kind => exact visitKnown_alike hn hs session

end Session

namespace SectionEntry

/-- The known sections come in the order of their kinds, and those of one kind as in the table. -/
theorem filter_visitOrder (table : List SectionEntry) :
    (visitOrder table).filter (·.kind.isSome) =
      SectionKind.all.flatMap fun kind => table.filter (·.kind == some kind) := by
  have hknown : ∀ entry ∈ SectionKind.all.flatMap fun kind => table.filter (·.kind == some kind),
      entry.kind.isSome = true := by
    intro entry he
    obtain ⟨kind, -, he⟩ := List.mem_flatMap.mp he
    have hk : entry.kind = some kind := by simpa using (List.mem_filter.mp he).2
    rw [hk]
    rfl
  have hunknown : ∀ entry ∈ table.filter (·.kind == none), ¬entry.kind.isSome = true := by
    intro entry he
    have hk : entry.kind = none := by simpa using (List.mem_filter.mp he).2
    rw [hk]
    exact Bool.false_ne_true
  rw [visitOrder, List.filter_append, List.filter_eq_self.mpr hknown,
    List.filter_eq_nil_iff.mpr hunknown, List.append_nil]

end SectionEntry

namespace Session

/-- Two images in which the sections of each kind have the same streams, one after the other, are
visited alike. -/
theorem visitOrder_alike {settings : Settings} {streamOf streamOf' : SectionEntry → ByteStream}
    {table table' : List SectionEntry}
    (h : ∀ kind : SectionKind, streams streamOf (table.filter (·.kind == some kind)) =
      streams streamOf' (table'.filter (·.kind == some kind))) (session : Session) :
    (session.visitEntries settings streamOf (SectionEntry.visitOrder table)).Alike
      (session.visitEntries settings streamOf' (SectionEntry.visitOrder table')) := by
  have hs : streams streamOf ((SectionEntry.visitOrder table).filter (·.kind.isSome)) =
      streams streamOf' ((SectionEntry.visitOrder table').filter (·.kind.isSome)) := by
    simp only [SectionEntry.filter_visitOrder, streams, List.map_flatMap]
    exact List.flatMap_congr fun kind _ => h kind
  have hfirst := visitEntries_filter settings streamOf (SectionEntry.visitOrder table) session
  have hlast := visitEntries_filter settings streamOf' (SectionEntry.visitOrder table') session
  exact (hfirst.trans (visitEntries_alike_of_streams hs session)).trans hlast.symm

/-- Two images of one layout version are visited alike if their codecs make the same streams of the
sections of each kind. -/
theorem visit_alike {settings : Settings} {image image' : Bytes} {summary summary' : Summary}
    {codec codec' : CodecChoice} (hr : Summary.read image = .ok summary)
    (hr' : Summary.read image' = .ok summary')
    (hl : summary.layoutVersion = summary'.layoutVersion)
    (hc : settings.codecs.choose summary.codec = .ok codec)
    (hc' : settings.codecs.choose summary'.codec = .ok codec')
    (h : ∀ kind : SectionKind,
      streams (codec.stream image) (summary.sections.filter (·.kind == some kind)) =
        streams (codec'.stream image') (summary'.sections.filter (·.kind == some kind)))
    (session : Session) :
    (session.visit settings image).Alike (session.visit settings image') := by
  have hv : summary.ondiskVersion = summary'.ondiskVersion :=
    (Summary.ondiskVersion_of_read hr).trans (Summary.ondiskVersion_of_read hr').symm
  have hm : summary.markup settings.revision = summary'.markup settings.revision := by
    unfold Summary.markup
    rw [hl, hv]
  rw [session.visit_of_read settings hr hc, session.visit_of_read settings hr' hc']
  refine .andThen (.andThen (.of_quiet hm rfl rfl rfl rfl) fun session =>
    visitOrder_alike h session) ?_
  exact fun session => .refl _

end Session

end Checkpoint
