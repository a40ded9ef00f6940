import Checkpoint.Codec.Table
import Checkpoint.Proofs.Members

/-! # Read sizes

What a compressed section gives does not depend on how much is asked for at a time. Which chunks are
fed, and what comes of them, is settled by the section alone; reads only divide the output of the
chunks among them. So any two ways of reading a section give the same bytes, a read gives nothing
only where the last member has ended with the section, and a fault is met after all output of the
chunks before it. Every read ends, for each chunk leaves less to be done. -/
namespace Checkpoint.Decompressor

variable {d : Decompressor} {source got : Bytes} {problem : RecordProblem}

namespace Inflow

variable {r s t : Inflow} {outputs : List Bytes}

/-! ## One chunk -/

/-- The chunks that the open member has been fed. -/
def before (r : Inflow) : List Bytes :=
  match r.phase with
  | .between _ => []
  | .inside before => before

/-- The chunk that is fed next, if there is one. -/
def chunk (r : Inflow) : Bytes :=
  match r.phase with
  | .between (b :: left) => b :: left
  | .between [] | .inside _ => r.source.take chunkSize

/-- What the source has after that chunk. -/
def beyond (r : Inflow) : Bytes :=
  match r.phase with
  | .between (_ :: _) => r.source
  | .between [] | .inside _ => r.source.drop chunkSize

/-- What becomes of a section with the next chunk. -/
inductive Step (d : Decompressor) (r : Inflow) : Inflow → Prop
  /-- There is no chunk, and no member is open. -/
  | close : r.phase = .between [] → r.source = [] →
      Step d r { r with pending := [], atEnd := true }
  | more {output : Bytes} : r.chunk ≠ [] → d r.before r.chunk = .more output →
      Step d r ⟨r.beyond, .inside (r.before ++ [r.chunk]), output, r.atEnd⟩
  | ended {output : Bytes} {used : Nat} {nonempty : r.before ≠ [] ∨ 0 < used} : r.chunk ≠ [] →
      d r.before r.chunk = .ended output used nonempty →
      Step d r ⟨r.beyond, .between (r.chunk.drop used), output, r.atEnd⟩

/-- Why the next chunk cannot be fed. -/
inductive Fails (d : Decompressor) (r : Inflow) : RecordProblem → Prop
  | rejected {reason : String} : r.chunk ≠ [] → d r.before r.chunk = .rejected reason →
    Fails d r (.corruptMember reason)
  /-- There is no chunk, but a member is open. -/
  | unfinished {before : List Bytes} : r.phase = .inside before → r.source = [] →
      Fails d r .truncatedMember

theorem source_eq_nil_of_take (h : (source.take chunkSize).isEmpty = true) : source = [] := by
  simpa [chunkSize] using h

/-- Feeding a chunk is feeding `r.chunk` to the member that has had `r.before`. -/
theorem fill_of_chunk (hc : r.chunk ≠ []) : r.fill d =
    Inflow.absorb { r with source := r.beyond } r.before r.chunk (d r.before r.chunk) := by
  obtain ⟨source, phase, pending, atEnd⟩ := r
  cases phase with
  | between left =>
    cases left with
    | cons b left => rfl
    | nil => exact if_neg fun he => hc (List.isEmpty_iff.mp he)
  | inside before => exact if_neg fun he => hc (List.isEmpty_iff.mp he)

/-- Without a chunk the source is used up, and nothing has been left over. -/
theorem of_chunk_eq_nil (hc : r.chunk = []) :
    r.source = [] ∧ (r.phase = .between [] ∨ ∃ before, r.phase = .inside before) := by
  obtain ⟨source, phase, pending, atEnd⟩ := r
  cases phase with
  | between left =>
    cases left with
    | cons b left => cases hc
    | nil => exact ⟨source_eq_nil_of_take (List.isEmpty_iff.mpr hc), .inl rfl⟩
  | inside before => exact ⟨source_eq_nil_of_take (List.isEmpty_iff.mpr hc), .inr ⟨before, rfl⟩⟩

theorem fill_of_close (hp : r.phase = .between []) (hs : r.source = []) :
    r.fill d = .ok { r with pending := [], atEnd := true } := by
  obtain ⟨source, phase, pending, atEnd⟩ := r
  obtain rfl : phase = .between [] := hp
  obtain rfl : source = [] := hs
  rfl

theorem fill_of_unfinished {before : List Bytes} (hp : r.phase = .inside before)
    (hs : r.source = []) : r.fill d = .error .truncatedMember := by
  obtain ⟨source, phase, pending, atEnd⟩ := r
  obtain rfl : phase = .inside before := hp
  obtain rfl : source = [] := hs
  rfl

theorem step_of_fill (h : r.fill d = .ok s) : r.Step d s := by
  by_cases hc : r.chunk = []
  · obtain ⟨hs, hp | ⟨before, hp⟩⟩ := of_chunk_eq_nil hc
    · rw [fill_of_close hp hs] at h
      cases h
      exact .close hp hs
    · rw [fill_of_unfinished hp hs] at h
      cases h
  · rw [fill_of_chunk hc] at h
    cases hf : d r.before r.chunk with
    | rejected reason => rw [hf] at h; cases h
    | more output => rw [hf] at h; cases h; exact .more hc hf
    | ended output used hu => rw [hf] at h; cases h; exact .ended hc hf

theorem fill_eq_error_iff : r.fill d = .error problem ↔ r.Fails d problem := by
  constructor
  · intro h
    by_cases hc : r.chunk = []
    · obtain ⟨hs, hp | ⟨before, hp⟩⟩ := of_chunk_eq_nil hc
      · rw [fill_of_close hp hs] at h
        cases h
      · rw [fill_of_unfinished hp hs] at h
        cases h
        exact .unfinished hp hs
    · rw [fill_of_chunk hc] at h
      cases hf : d r.before r.chunk with
      | rejected reason => rw [hf] at h; cases h; exact .rejected hc hf
      | more output => rw [hf] at h; cases h
      | ended output used hu => rw [hf] at h; cases h
  · rintro (⟨hc, hf⟩ | ⟨hp, hs⟩)
    · rw [fill_of_chunk hc, hf]
      rfl
    · exact fill_of_unfinished hp hs

/-- What has not been read does not matter to the next chunk. -/
theorem fill_with_pending (r : Inflow) (pending : Bytes) :
    fill d { r with pending } = r.fill d := by
  obtain ⟨source, phase, _, atEnd⟩ := r
  cases phase with
  | between left => cases left <;> rfl
  | inside before => rfl

/-! ## The chunks of a section -/

/-- The chunks up to `s` have given these outputs. Nothing is said here of reads. -/
inductive Fills (d : Decompressor) (r : Inflow) : List Bytes → Inflow → Prop
  | nil : Fills d r [] r
  | concat {outputs : List Bytes} {s t : Inflow} : Fills d r outputs s → s.atEnd = false →
      s.fill d = .ok t → Fills d r (outputs ++ [t.pending]) t

theorem Fills.contentInto (h : r.Fills d outputs s) (found : List Bytes) :
    r.contentInto d found = s.contentInto d (outputs.reverse ++ found) := by
  induction h with
  | nil => rfl
  | concat _ he hf ih => rw [ih, contentInto_of_ok he hf, List.reverse_concat, List.cons_append]

/-- What has been found stands at the start of what there is. -/
theorem prefix_contentInto (r : Inflow) (found : List Bytes) :
    found.reverse.flatten <+: (r.contentInto d found).unread := by
  cases he : r.atEnd with
  | true => exact ⟨[], by rw [contentInto_of_end he, List.append_nil]⟩
  | false =>
    cases hf : r.fill d with
    | error problem => exact ⟨[], by rw [contentInto_of_error he hf, List.append_nil]⟩
    | ok s =>
      have hlt := measure_fill_lt he hf
      have ih := prefix_contentInto s (s.pending :: found)
      rw [List.reverse_cons, List.flatten_concat] at ih
      rw [contentInto_of_ok he hf]
      exact (List.prefix_append _ _).trans ih
termination_by r.measure

theorem Fills.prefix_content (h : Fills d { source } outputs s) :
    outputs.flatten <+: (content d source).unread := by
  have hp := prefix_contentInto (d := d) s outputs.reverse
  rw [List.reverse_reverse] at hp
  rw [content, h.contentInto, List.append_nil]
  exact hp

theorem Fills.content_of_end (h : Fills d { source } outputs s) (he : s.atEnd = true) :
    content d source = ⟨outputs.flatten, none⟩ := by
  rw [content, h.contentInto, contentInto_of_end he, List.append_nil, List.reverse_reverse]

theorem Fills.content_of_fails (h : Fills d { source } outputs s) (he : s.atEnd = false)
    (hf : s.Fails d problem) : content d source = ⟨outputs.flatten, some problem⟩ := by
  rw [content, h.contentInto, contentInto_of_error he (fill_eq_error_iff.mpr hf), List.append_nil,
    List.reverse_reverse]

/-- The next chunk ends the last member, with this output and nothing left over. -/
structure Closes (d : Decompressor) (r : Inflow) (output : Bytes) : Prop where
  nonempty : r.chunk ≠ []
  last : r.beyond = []
  ended : ∃ used hu, d r.before r.chunk = .ended output used hu ∧ r.chunk.drop used = []

/-- The section ends only where nothing was there from the start, or a member has ended with it. -/
theorem Fills.closed (h : Fills d { source } outputs t) (he : t.atEnd = true) :
    t.source = [] ∧ t.phase = .between [] ∧ t.pending = [] ∧
      (source = [] ∨ ∃ earlier u output, Fills d { source } earlier u ∧ u.Closes d output ∧
        outputs.flatten = earlier.flatten ++ output) := by
  cases h with
  | nil => cases he
  | @concat outputs s _ hs hopen hf =>
    rcases step_of_fill hf with ⟨hp, hsource⟩ | ⟨hc, hfed⟩ | ⟨hc, hfed⟩
    · refine ⟨hsource, hp, rfl, ?_⟩
      cases hs with
      | nil => exact .inl hsource
      | @concat earlier u _ hu hopen' hf' =>
        refine .inr ⟨earlier, u, s.pending, hu, ?_, by simp⟩
        -- the chunk before the end left a place where no member is open
        rcases step_of_fill hf' with ⟨-, -⟩ | ⟨hc, hfed⟩ | ⟨hc, hfed⟩
        · cases hopen
        · cases hp
        · exact ⟨hc, hsource, _, _, hfed, Phase.between.inj hp⟩
    · rw [hopen] at he
      cases he
    · rw [hopen] at he
      cases he

/-- There is no fault at the end of a section. -/
theorem Fills.open_of_fails (h : Fills d { source } outputs t) (hf : t.Fails d problem) :
    t.atEnd = false := by
  cases he : t.atEnd with
  | false => rfl
  | true =>
    obtain ⟨hs, hp, -, -⟩ := h.closed he
    have hok := (fill_of_close (d := d) hp hs).symm.trans (fill_eq_error_iff.mpr hf)
    cases hok

/-! ## Reads -/

/-- The rounds of a read: chunks are fed while there is nothing to give and the section has not
ended. The number counts the chunks that were tried. -/
inductive Rounds (d : Decompressor) : Inflow → Nat → Except RecordProblem Inflow → Prop
  | done {r : Inflow} : r.pending ≠ [] ∨ r.atEnd = true → Rounds d r 0 (.ok r)
  | failed {r : Inflow} {problem : RecordProblem} : r.pending = [] → r.atEnd = false →
      r.fill d = .error problem → Rounds d r 1 (.error problem)
  | again {r s : Inflow} {rounds : Nat} {result : Except RecordProblem Inflow} : r.pending = [] →
      r.atEnd = false → r.fill d = .ok s → Rounds d s rounds result →
      Rounds d r (rounds + 1) result

theorem refill_of_done (h : r.pending ≠ [] ∨ r.atEnd = true) : r.refill d = .ok r := by
  unfold refill
  split
  · rfl
  · rename_i hp
    split
    · rfl
    · rename_i he
      rcases h with h | h
      · exact absurd h hp
      · rw [he] at h
        cases h

theorem refill_of_error (hp : r.pending = []) (he : r.atEnd = false)
    (hf : r.fill d = .error problem) : r.refill d = .error problem := by
  unfold refill
  rw [if_neg (not_not_intro hp)]
  split
  · rename_i hend
    rw [he] at hend
    cases hend
  · split
    · rename_i hf'
      rw [hf] at hf'
      cases hf'
      rfl
    · rename_i hf'
      rw [hf] at hf'
      cases hf'

theorem refill_of_ok (hp : r.pending = []) (he : r.atEnd = false) (hf : r.fill d = .ok s) :
    r.refill d = s.refill d := by
  rw [refill, if_neg (not_not_intro hp)]
  split
  · rename_i hend
    rw [he] at hend
    cases hend
  · split
    · rename_i hf'
      rw [hf] at hf'
      cases hf'
    · rename_i hf'
      rw [hf] at hf'
      cases hf'
      rfl

/-- A read ends, and tries no more chunks than there is to be done. -/
theorem rounds_refill (d : Decompressor) (r : Inflow) :
    ∃ rounds ≤ r.measure, Rounds d r rounds (r.refill d) := by
  by_cases hp : r.pending = []
  · cases he : r.atEnd with
    | true =>
      rw [refill_of_done (.inr he)]
      exact ⟨0, Nat.zero_le _, .done (.inr he)⟩
    | false =>
      cases hf : r.fill d with
      | error problem =>
        rw [refill_of_error hp he hf]
        exact ⟨1, by simp [measure, he], .failed hp he hf⟩
      | ok s =>
        have hlt := measure_fill_lt he hf
        obtain ⟨rounds, hle, hrounds⟩ := rounds_refill d s
        rw [refill_of_ok hp he hf]
        exact ⟨rounds + 1, Nat.lt_of_le_of_lt hle hlt, .again hp he hf hrounds⟩
  · rw [refill_of_done (.inl hp)]
    exact ⟨0, Nat.zero_le _, .done (.inl hp)⟩
termination_by r.measure

/-- Reads have given the bytes `got` of a section and have come to `s`. -/
def Given (d : Decompressor) (source got : Bytes) (s : Inflow) : Prop :=
  ∃ outputs pending, Fills d { source } outputs { s with pending } ∧
    got ++ s.pending = outputs.flatten

theorem Given.start (d : Decompressor) (source : Bytes) : Given d source [] { source } :=
  ⟨[], [], .nil, rfl⟩

theorem Given.prefix_content (h : Given d source got s) : got <+: (content d source).unread := by
  obtain ⟨outputs, pending, hfills, hgot⟩ := h
  have hp : got <+: outputs.flatten := ⟨s.pending, hgot⟩
  exact hp.trans hfills.prefix_content

/-- Where there is nothing to give, all output so far has been given. -/
theorem Given.eq_flatten (h : Given d source got s) (hp : s.pending = []) :
    ∃ outputs pending, Fills d { source } outputs { s with pending } ∧ got = outputs.flatten := by
  obtain ⟨outputs, pending, hfills, hgot⟩ := h
  rw [hp, List.append_nil] at hgot
  exact ⟨outputs, pending, hfills, hgot⟩

theorem Given.fill (h : Given d source got s) (hp : s.pending = []) (he : s.atEnd = false)
    (hf : s.fill d = .ok t) : Given d source got t := by
  obtain ⟨outputs, pending, hfills, rfl⟩ := h.eq_flatten hp
  have hnext : Inflow.fill d { s with pending } = .ok t := (fill_with_pending s pending).trans hf
  exact ⟨outputs ++ [t.pending], t.pending, hfills.concat he hnext, by simp⟩

theorem Given.take (h : Given d source got s) (n : Nat) :
    Given d source (got ++ s.pending.take n) { s with pending := s.pending.drop n } := by
  obtain ⟨outputs, pending, hfills, hgot⟩ := h
  exact ⟨outputs, pending, hfills, by simpa using hgot⟩

/-- Rounds that end without a failure leave something to give, unless the section has ended. -/
theorem Given.rounds {rounds : Nat} {result : Except RecordProblem Inflow}
    (hr : Rounds d s rounds result) (h : Given d source got s) (hok : result = .ok t) :
    Given d source got t ∧ (t.pending ≠ [] ∨ t.atEnd = true) := by
  induction hr with
  | done hdone => cases hok; exact ⟨h, hdone⟩
  | failed => cases hok
  | again hp he hf _ ih => exact ih (h.fill hp he hf) hok

/-- Rounds that fail come to a chunk that cannot be fed, and all output before it has been given. -/
theorem Given.fault {rounds : Nat} {result : Except RecordProblem Inflow}
    (hr : Rounds d s rounds result) (h : Given d source got s) (he : result = .error problem) :
    ∃ outputs t, Fills d { source } outputs t ∧ t.Fails d problem ∧ got = outputs.flatten := by
  induction hr with
  | done => cases he
  | @failed s _ hp hopen hf =>
    cases he
    obtain ⟨outputs, pending, hfills, hgot⟩ := h.eq_flatten hp
    have hnext : Inflow.fill d { s with pending } = .error problem :=
      (fill_with_pending s pending).trans hf
    exact ⟨outputs, _, hfills, fill_eq_error_iff.mp hnext, hgot⟩
  | again hp hopen hf _ ih => exact ih (h.fill hp hopen hf) he

theorem Given.readInto_ok {n : Nat} {piece : Bytes} (h : Given d source got s)
    (hr : s.readInto d n = .ok (piece, t)) :
    Given d source (got ++ piece) t ∧ (0 < n → piece = [] → t.atEnd = true ∧ t.pending = []) := by
  obtain ⟨rounds, -, hrounds⟩ := rounds_refill d s
  rw [readInto] at hr
  cases hf : s.refill d with
  | error problem => rw [hf] at hr; cases hr
  | ok u =>
    rw [hf] at hr hrounds
    cases hr
    obtain ⟨hu, hdone⟩ := h.rounds hrounds rfl
    refine ⟨hu.take n, fun hn hnil => ?_⟩
    have hp : u.pending = [] := (List.take_eq_nil_iff.mp hnil).resolve_left (Nat.ne_of_gt hn)
    rcases hdone with hdone | hdone
    · exact absurd hp hdone
    · exact ⟨hdone, by rw [hp, List.drop_nil]⟩

theorem Given.readInto_error {n : Nat} (h : Given d source got s)
    (hr : s.readInto d n = .error problem) :
    ∃ outputs t, Fills d { source } outputs t ∧ t.Fails d problem ∧ got = outputs.flatten := by
  obtain ⟨rounds, -, hrounds⟩ := rounds_refill d s
  rw [readInto] at hr
  cases hf : s.refill d with
  | ok u => rw [hf] at hr; cases hr
  | error problem' =>
    rw [hf] at hr hrounds
    cases hr
    exact h.fault hrounds rfl

/-- Nothing is read any more once the section has ended. -/
theorem readInto_of_end (n : Nat) (he : s.atEnd = true) (hp : s.pending = []) :
    s.readInto d n = .ok ([], s) := by
  rw [readInto, refill_of_done (.inr he)]
  obtain ⟨source, phase, pending, atEnd⟩ := s
  obtain rfl : pending = [] := hp
  simp [Except.map]

/-! ## One read after the other -/

/-- What reads of these sizes give one after the other, up to a failure, and where they come to. -/
def reads (d : Decompressor) : List Nat → Inflow → List Bytes × Except RecordProblem Inflow
  | [], r => ([], .ok r)
  | n :: sizes, r =>
    match r.readInto d n with
    | .error problem => ([], .error problem)
    | .ok (piece, s) => ((piece :: (s.reads d sizes).1), (s.reads d sizes).2)

variable {sizes : List Nat}

theorem reads_of_end (sizes : List Nat) (he : s.atEnd = true) (hp : s.pending = []) :
    s.reads d sizes = (sizes.map fun _ => [], .ok s) := by
  induction sizes with
  | nil => rfl
  | cons n sizes ih => simp [reads, readInto_of_end n he hp, ih]

theorem Given.reads_ok (h : Given d source got s) (hr : (s.reads d sizes).2 = .ok t) :
    Given d source (got ++ (s.reads d sizes).1.flatten) t := by
  induction sizes generalizing got s with
  | nil =>
    cases hr
    simpa [reads] using h
  | cons n sizes ih =>
    rw [reads] at hr ⊢
    cases hread : s.readInto d n with
    | error problem => rw [hread] at hr; cases hr
    | ok read =>
      obtain ⟨piece, u⟩ := read
      rw [hread] at hr
      have hrest := ih (h.readInto_ok hread).1 hr
      simpa using hrest

theorem Given.reads_error (h : Given d source got s) (hr : (s.reads d sizes).2 = .error problem) :
    ∃ outputs t, Fills d { source } outputs t ∧ t.Fails d problem ∧
      got ++ (s.reads d sizes).1.flatten = outputs.flatten := by
  induction sizes generalizing got s with
  | nil => cases hr
  | cons n sizes ih =>
    rw [reads] at hr ⊢
    cases hread : s.readInto d n with
    | error problem =>
      rw [hread] at hr
      cases hr
      simpa using h.readInto_error hread
    | ok read =>
      obtain ⟨piece, u⟩ := read
      rw [hread] at hr
      have hrest := ih (h.readInto_ok hread).1 hr
      simpa using hrest

theorem Given.reads_prefix (h : Given d source got s) (sizes : List Nat) :
    got ++ (s.reads d sizes).1.flatten <+: (content d source).unread := by
  cases hr : (s.reads d sizes).2 with
  | ok t => exact (h.reads_ok hr).prefix_content
  | error problem =>
    obtain ⟨outputs, t, hfills, -, heq⟩ := h.reads_error hr
    rw [heq]
    exact hfills.prefix_content

theorem Given.content_of_end (h : Given d source got s) (he : s.atEnd = true)
    (hp : s.pending = []) : content d source = ⟨got, none⟩ := by
  obtain ⟨outputs, pending, hfills, rfl⟩ := h.eq_flatten hp
  exact hfills.content_of_end he

/-- More reads than there are bytes come to the end or to the fault. -/
theorem Given.reads_all (hs : ∀ n ∈ sizes, 0 < n) (h : Given d source got s)
    (hlong : (content d source).unread.length < got.length + sizes.length) :
    got ++ (s.reads d sizes).1.flatten = (content d source).unread ∧
      ∀ problem, (content d source).fault = some problem →
        (s.reads d sizes).2 = .error problem := by
  induction sizes generalizing got s with
  | nil =>
    have hle := h.prefix_content.length_le
    exact absurd hlong (Nat.not_lt.mpr hle)
  | cons n sizes ih =>
    obtain ⟨hn, hs⟩ := List.forall_mem_cons.mp hs
    rw [reads]
    cases hread : s.readInto d n with
    | error problem =>
      obtain ⟨outputs, t, hfills, hf, rfl⟩ := h.readInto_error hread
      rw [hfills.content_of_fails (hfills.open_of_fails hf) hf]
      exact ⟨by simp, fun _ he => by cases he; rfl⟩
    | ok read =>
      obtain ⟨piece, t⟩ := read
      obtain ⟨ht, hend⟩ := h.readInto_ok hread
      by_cases hpiece : piece = []
      · -- the section has ended, and with it all further reads
        obtain ⟨he, hp⟩ := hend hn hpiece
        subst hpiece
        rw [List.append_nil] at ht
        rw [ht.content_of_end he hp]
        refine ⟨?_, fun _ hfault => by cases hfault⟩
        simp [reads_of_end sizes he hp]
      · have hpos := List.length_pos_iff.mpr hpiece
        have hrest := ih hs ht (by
          simp only [List.length_append, List.length_cons] at hlong ⊢
          omega)
        simpa using hrest

end Inflow

open Inflow in
/-- Reading a section in pieces of any sizes. What two ways of reading it give is the same as far as
both go, and is the content of the section if there are reads enough. A read gives nothing only
where the source is used up and nothing was ever in it or its last member has ended with it, and
then no later read gives anything. If a chunk cannot be fed, all output of the chunks before it is
read first and only then the read fails; and reads fail only there. Every read ends after a bounded
number of chunks, even if none of them gives any output. -/
theorem reads_any_sizes (d : Decompressor) (source : Bytes) {sizes : List Nat}
    (hs : ∀ n ∈ sizes, 0 < n) (others : List Nat) :
    ((reads d sizes { source }).1.flatten <+: (reads d others { source }).1.flatten ∨
      (reads d others { source }).1.flatten <+: (reads d sizes { source }).1.flatten) ∧
    ((reads d sizes { source }).1.flatten <+: (content d source).unread ∧
      ((content d source).unread.length < sizes.length →
        (reads d sizes { source }).1.flatten = (content d source).unread)) ∧
    (∀ s n t, (reads d sizes { source }).2 = .ok s → 0 < n → s.readInto d n = .ok ([], t) →
      t.source = [] ∧ t.phase = .between [] ∧
      (source = [] ∨ ∃ earlier u output, Fills d { source } earlier u ∧ u.Closes d output ∧
        (reads d sizes { source }).1.flatten = earlier.flatten ++ output) ∧
      ∀ later, t.reads d later = (later.map fun _ => [], .ok t)) ∧
    (∀ outputs t problem, Fills d { source } outputs t → t.Fails d problem →
      (reads d sizes { source }).1.flatten <+: outputs.flatten ∧
      (outputs.flatten.length < sizes.length → (reads d sizes { source }).2 = .error problem)) ∧
    (∀ problem, (reads d sizes { source }).2 = .error problem →
      ∃ outputs t, Fills d { source } outputs t ∧ t.Fails d problem ∧
        (reads d sizes { source }).1.flatten = outputs.flatten) ∧
    ∀ s, (reads d sizes { source }).2 = .ok s →
      ∃ rounds ≤ 2 * s.unused + 2, Rounds d s rounds (s.refill d) := by
  have hstart := Given.start d source
  have hstarts : ∀ sizes, (reads d sizes { source }).1.flatten <+: (content d source).unread :=
    fun sizes => hstart.reads_prefix sizes
  have hall (hlong : (content d source).unread.length < sizes.length) :=
    hstart.reads_all hs (by simpa using hlong)
  refine ⟨List.prefix_or_prefix_of_prefix (hstarts sizes) (hstarts others),
    ⟨hstarts sizes, fun hlong => (hall hlong).1⟩, fun s n t hr hn hread => ?_,
    fun outputs t problem hfills hf => ?_, fun problem hr => hstart.reads_error hr,
    fun s _ => ?_⟩
  · obtain ⟨ht, hend⟩ := (hstart.reads_ok hr).readInto_ok hread
    obtain ⟨he, hp⟩ := hend hn rfl
    obtain ⟨outputs, pending, hfills, hgot⟩ := ht.eq_flatten hp
    obtain ⟨hsource, hphase, -, hlast⟩ := hfills.closed he
    simp only [List.nil_append, List.append_nil] at hgot
    rw [hgot]
    exact ⟨hsource, hphase, hlast, fun later => reads_of_end later he hp⟩
  · have hcontent := hfills.content_of_fails (hfills.open_of_fails hf) hf
    rw [hcontent] at hall
    refine ⟨?_, fun hlong => (hall hlong).2 problem rfl⟩
    have hp := hstarts sizes
    rw [hcontent] at hp
    exact hp
  · obtain ⟨rounds, hle, hrounds⟩ := rounds_refill d s
    refine ⟨rounds, Nat.le_trans hle ?_, hrounds⟩
    simp only [Inflow.measure]
    split <;> split <;> omega

/-- Two members with a text of two bytes and one of one byte. -/
def shoutedText : Bytes :=
  [120, 1, 1, 2, 0, 253, 255, 104, 105, 1, 59, 0, 210, 120, 1, 1, 1, 0, 254, 255, 33, 0, 34, 0, 34]

open Inflow in
theorem reads_any_sizes_shoutedText :
    (reads Codec.zlib.decompressor [1, 1, 1, 1] { source := shoutedText }).1.flatten =
      [104, 105, 33] := by
  have hcontent : content Codec.zlib.decompressor shoutedText = ⟨[104, 105, 33], none⟩ := by
    decide +kernel
  have hs : ∀ n ∈ [1, 1, 1, 1], 0 < n := by decide
  have hall := (reads_any_sizes Codec.zlib.decompressor shoutedText hs [2, 5]).2.1.2
  rw [hcontent] at hall
  exact hall (by decide)

end Checkpoint.Decompressor
