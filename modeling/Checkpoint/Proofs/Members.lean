import Checkpoint.Codec.Decompressor

/-! # Members

What a compressed section expands to, said member by member, and what is asked of a decompressor so
that reading in chunks comes to the same: a member gives the same output however it is divided, its
end is seen where it is, and only complete members end. -/
namespace Checkpoint.Decompressor

theorem Fed.ended_congr {before : List Bytes} {output output' : Bytes} {used used' : Nat}
    (ho : output = output') (hu : used = used') (h : before ≠ [] ∨ 0 < used)
    (h' : before ≠ [] ∨ 0 < used') :
    Fed.ended output used h = .ended output' used' h' := by
  subst ho hu
  rfl

/-- The bytes are a complete member that expands to the output. -/
def Member (d : Decompressor) (bytes output : Bytes) : Prop :=
  ∃ h, d [] bytes = .ended output bytes.length h

instance (d : Decompressor) (bytes output : Bytes) : Decidable (d.Member bytes output) :=
  match h : d [] bytes with
  | .ended found used hu =>
    if he : found = output ∧ used = bytes.length then
      isTrue ⟨he.2 ▸ hu, by rw [h]; exact Fed.ended_congr he.1 he.2 _ _⟩
    else isFalse fun ⟨hp, hm⟩ => he (by rw [h] at hm; injection hm with ho hu; exact ⟨ho, hu⟩)
  | .more _ => isFalse fun ⟨hp, hm⟩ => by rw [h] at hm; cases hm
  | .rejected _ => isFalse fun ⟨hp, hm⟩ => by rw [h] at hm; cases hm

/-- Complete members one after the other, and what they expand to. -/
inductive Expands (d : Decompressor) : (source payload : Bytes) → Prop
  | nil : Expands d [] []
  | member {bytes output rest others : Bytes} : d.Member bytes output → Expands d rest others →
      Expands d (bytes ++ rest) (output ++ others)

/-- A member is open after these chunks, which have given so much output. -/
inductive Open (d : Decompressor) : (before : List Bytes) → (given : Bytes) → Prop
  | start : Open d [] []
  | more {before : List Bytes} {given chunk output : Bytes} : Open d before given → chunk ≠ [] →
      d before chunk = .more output → Open d (before ++ [chunk]) (given ++ output)

/-- A decompressor to which it does not matter how members are divided into chunks. -/
structure Lawful (d : Decompressor) : Prop where
  /-- A member goes on up to its end. -/
  more : ∀ {before given chunk bytes output}, d.Open before given → chunk ≠ [] →
    d.Member bytes output → before.flatten ++ chunk <+: bytes → before.flatten ++ chunk ≠ bytes →
    ∃ found, d before chunk = .more found
  /-- The end of a member is seen in the chunk in which it stands, and all output has come by then;
  the bytes after it are not used. -/
  ended : ∀ {before given chunk bytes output}, d.Open before given → d.Member bytes output →
    before.flatten <+: bytes → before.flatten ≠ bytes → bytes <+: before.flatten ++ chunk →
    ∃ found used h, d before chunk = .ended found used h ∧
      before.flatten.length + used = bytes.length ∧ given ++ found = output
  /-- Only a complete member ends. -/
  complete : ∀ {before given chunk found used h}, d.Open before given → chunk ≠ [] →
    d before chunk = .ended found used h →
    used ≤ chunk.length ∧ d.Member (before.flatten ++ chunk.take used) (given ++ found)

variable {d : Decompressor} {before : List Bytes} {given chunk bytes output rest payload : Bytes}

theorem Member.ne_nil (h : d.Member bytes output) : bytes ≠ [] := by
  obtain ⟨hpos, -⟩ := h
  exact List.length_pos_iff.mp (hpos.resolve_left fun hne => hne rfl)

theorem Expands.eq_nil (h : d.Expands [] payload) : payload = [] := by
  generalize hs : ([] : Bytes) = source at h
  cases h with
  | nil => rfl
  | member hm _ => exact absurd (List.append_eq_nil_iff.mp hs.symm).1 hm.ne_nil

/-- What does not end starts with a complete member. -/
theorem Expands.exists_member {source : Bytes} (h : d.Expands source payload) (hs : source ≠ []) :
    ∃ bytes output rest others, source = bytes ++ rest ∧ payload = output ++ others ∧
      d.Member bytes output ∧ d.Expands rest others := by
  cases h with
  | nil => exact absurd rfl hs
  | member hm hr => exact ⟨_, _, _, _, rfl, rfl, hm, hr⟩

theorem Open.flatten_ne_nil (h : d.Open before given) (hb : before ≠ []) :
    before.flatten ≠ [] := by
  cases h with
  | start => exact absurd rfl hb
  | more _ hc _ =>
    rw [List.flatten_concat]
    exact List.append_ne_nil_of_right_ne_nil _ hc

namespace Lawful

/-- No member has ended in the chunks after which one is open. -/
theorem not_prefix (hd : d.Lawful) (ho : d.Open before given) (hm : d.Member bytes output) :
    ¬bytes <+: before.flatten := by
  induction ho with
  | start =>
    intro hp
    exact hm.ne_nil (List.prefix_nil.mp hp)
  | @more before given chunk found ho hc hf ih =>
    intro hp
    rw [List.flatten_concat] at hp
    rcases List.prefix_or_prefix_of_prefix hp (List.prefix_append before.flatten chunk) with hb | hb
    · exact ih hb
    · have hne : before.flatten ≠ bytes := fun he => ih (he ▸ List.prefix_rfl)
      obtain ⟨_, _, _, he, -⟩ := hd.ended ho hm hb hne hp
      rw [hf] at he
      cases he

/-- Of the bytes of a member, the chunks before its end have given a part of its output. -/
theorem given_prefix (hd : d.Lawful) (ho : d.Open before given) (hm : d.Member bytes output)
    (hb : before.flatten <+: bytes) : given <+: output := by
  have hne : before.flatten ≠ bytes := fun he => hd.not_prefix ho hm (he ▸ List.prefix_rfl)
  obtain ⟨rest, hr⟩ := hb
  have hp : bytes <+: before.flatten ++ rest := hr ▸ List.prefix_rfl
  obtain ⟨found, -, -, -, -, hg⟩ := hd.ended ho hm ⟨rest, hr⟩ hne hp
  exact ⟨found, hg⟩

/-- No member is the start of another one. -/
theorem member_unique (hd : d.Lawful) {bytes' output' whole : Bytes} (hm : d.Member bytes output)
    (hm' : d.Member bytes' output') (hp : bytes <+: whole) (hp' : bytes' <+: whole) :
    bytes = bytes' ∧ output = output' := by
  obtain ⟨found, used, _, he, hu, hg⟩ :=
    hd.ended .start hm List.nil_prefix hm.ne_nil.symm (List.nil_append whole ▸ hp)
  obtain ⟨found', used', _, he', hu', hg'⟩ :=
    hd.ended .start hm' List.nil_prefix hm'.ne_nil.symm (List.nil_append whole ▸ hp')
  rw [he] at he'
  cases he'
  have hl : bytes.length = bytes'.length := hu.symm.trans hu'
  refine ⟨?_, hg.symm.trans hg'⟩
  rw [List.prefix_iff_eq_take.mp hp, List.prefix_iff_eq_take.mp hp', hl]

/-- What comes of a chunk, where it and what follows it are members that go on from the chunks
before. -/
theorem fed_of_expands (hd : d.Lawful) (ho : d.Open before given) (hc : chunk ≠ [])
    (h : d.Expands (before.flatten ++ chunk ++ rest) payload) :
    (∃ found, d before chunk = .more found ∧ given ++ found <+: payload) ∨
    ∃ found used hu others, d before chunk = .ended found used hu ∧
      payload = given ++ found ++ others ∧ d.Expands (chunk.drop used ++ rest) others := by
  have hne : before.flatten ++ chunk ≠ [] := List.append_ne_nil_of_right_ne_nil _ hc
  obtain ⟨bytes, output, after, others, hs, rfl, hm, hx⟩ :=
    h.exists_member (List.append_ne_nil_of_left_ne_nil hne _)
  have hwhole : bytes <+: before.flatten ++ chunk ++ rest := ⟨after, hs.symm⟩
  have hbefore : before.flatten ≠ bytes := fun he => hd.not_prefix ho hm (he ▸ List.prefix_rfl)
  by_cases hp : bytes <+: before.flatten ++ chunk
  · -- the member ends in the chunk
    have hb : before.flatten <+: bytes := by
      have hstart : before.flatten <+: before.flatten ++ chunk := List.prefix_append _ _
      rcases List.prefix_or_prefix_of_prefix hstart hp with hb | hb
      · exact hb
      · exact absurd hb (hd.not_prefix ho hm)
    obtain ⟨found, used, hu, he, hl, rfl⟩ := hd.ended ho hm hb hbefore hp
    refine .inr ⟨found, used, hu, others, he, rfl, ?_⟩
    have hused : used ≤ chunk.length := (hd.complete ho hc he).1
    have hafter : after = chunk.drop used ++ rest := by
      have hdrop := congrArg (List.drop bytes.length) hs
      rw [List.drop_left, ← hl, List.append_assoc, List.drop_length_add_append,
        List.drop_append_of_le_length hused] at hdrop
      exact hdrop.symm
    exact hafter ▸ hx
  · -- the member goes on after the chunk
    have hb : before.flatten ++ chunk <+: bytes := by
      rcases List.prefix_or_prefix_of_prefix hwhole (List.prefix_append _ rest) with hb | hb
      · exact absurd hb hp
      · exact hb
    have hlast : before.flatten ++ chunk ≠ bytes := fun he => hp (he ▸ List.prefix_rfl)
    obtain ⟨found, he⟩ := hd.more ho hc hm hb hlast
    refine .inl ⟨found, he, ?_⟩
    have hg : given ++ found <+: output :=
      hd.given_prefix (.more ho hc he) hm (by rw [List.flatten_concat]; exact hb)
    exact hg.trans (List.prefix_append _ _)

end Lawful

/-! ## Reading members -/

namespace Inflow

variable {r s : Inflow} {problem : RecordProblem}

/-- The compressed bytes of the open member, or those that the last member left over. -/
def held (r : Inflow) : Bytes :=
  match r.phase with
  | .between left => left
  | .inside before => before.flatten

/-- The open member has given so much output. -/
def Gives (d : Decompressor) (r : Inflow) (given : Bytes) : Prop :=
  match r.phase with
  | .between _ => given = []
  | .inside before => before ≠ [] ∧ d.Open before given

/-- A place to which reading can come. -/
structure Reached (d : Decompressor) (r : Inflow) (given : Bytes) : Prop where
  gives : r.Gives d given
  ended : r.atEnd = true → r.held ++ r.source = [] ∧ given = []

/-- What has been read of a section and what comes are what it expands to. -/
theorem expands_of_absorb (hd : d.Lawful) (ho : d.Open before given) (hc : chunk ≠ [])
    (he : r.atEnd = false) (h : r.absorb before chunk (d before chunk) = .ok s) :
    ∃ more, s.Reached d more ∧ ∀ payload,
      d.Expands (before.flatten ++ chunk ++ r.source) (given ++ payload) ↔
        ∃ others, payload = s.pending ++ others ∧
          d.Expands (s.held ++ s.source) (more ++ others) := by
  cases hf : d before chunk with
  | rejected reason =>
    rw [hf] at h
    cases h
  | more found =>
    rw [hf] at h
    cases h
    have hopen : d.Open (before ++ [chunk]) (given ++ found) := .more ho hc hf
    refine ⟨given ++ found, ⟨⟨by simp, hopen⟩, fun hend => ?_⟩, fun payload => ?_⟩
    · rw [he] at hend
      cases hend
    · have hheld : (before ++ [chunk]).flatten = before.flatten ++ chunk := List.flatten_concat ..
      constructor
      · intro hx
        rcases hd.fed_of_expands ho hc hx with ⟨_, he', hp⟩ | ⟨_, _, _, _, he', -⟩
        · rw [hf] at he'
          cases he'
          obtain ⟨others, rfl⟩ := (List.prefix_append_right_inj given).mp hp
          refine ⟨others, rfl, ?_⟩
          change d.Expands ((before ++ [chunk]).flatten ++ r.source) (given ++ found ++ others)
          rw [hheld, List.append_assoc given]
          exact hx
        · rw [hf] at he'
          cases he'
      · rintro ⟨others, rfl, hx⟩
        change d.Expands ((before ++ [chunk]).flatten ++ r.source) (given ++ found ++ others) at hx
        rw [hheld, List.append_assoc given] at hx
        exact hx
  | ended found used hu =>
    rw [hf] at h
    cases h
    obtain ⟨hused, hm⟩ := hd.complete ho hc hf
    refine ⟨[], ⟨rfl, fun hend => ?_⟩, fun payload => ?_⟩
    · rw [he] at hend
      cases hend
    · constructor
      · intro hx
        rcases hd.fed_of_expands ho hc hx with ⟨_, he', -⟩ | ⟨_, _, _, others, he', hp, hx⟩
        · rw [hf] at he'
          cases he'
        · rw [hf] at he'
          cases he'
          rw [List.append_assoc] at hp
          exact ⟨others, List.append_cancel_left hp, hx⟩
      · rintro ⟨others, rfl, hx⟩
        have hparts : before.flatten ++ chunk ++ r.source =
            before.flatten ++ chunk.take used ++ (chunk.drop used ++ r.source) := by
          simp only [List.append_assoc, List.append_cancel_left_eq]
          rw [← List.append_assoc, List.take_append_drop]
        rw [hparts, ← List.append_assoc given]
        exact .member hm hx

theorem not_expands_of_absorb (hd : d.Lawful) (ho : d.Open before given) (hc : chunk ≠ [])
    (h : r.absorb before chunk (d before chunk) = .error problem) (payload : Bytes) :
    ¬d.Expands (before.flatten ++ chunk ++ r.source) payload := by
  intro hx
  rcases hd.fed_of_expands ho hc hx with ⟨_, he, -⟩ | ⟨_, _, _, _, he, -⟩
  · rw [he] at h
    cases h
  · rw [he] at h
    cases h

/-- A chunk that is taken from the source is what stands at its start. -/
theorem expands_of_fill (hd : d.Lawful) (hr : r.Reached d given) (he : r.atEnd = false)
    (h : r.fill d = .ok s) :
    ∃ more, s.Reached d more ∧ ∀ payload,
      d.Expands (r.held ++ r.source) (given ++ payload) ↔
        ∃ others, payload = s.pending ++ others ∧
          d.Expands (s.held ++ s.source) (more ++ others) := by
  obtain ⟨source, phase, pending, atEnd⟩ := r
  obtain rfl : atEnd = false := he
  have hsplit := List.take_append_drop chunkSize source
  cases phase with
  | between left =>
    obtain rfl : given = [] := hr.gives
    cases left with
    | cons b left =>
      exact expands_of_absorb hd .start (List.cons_ne_nil b left) rfl h
    | nil =>
      simp only [fill] at h
      split at h
      · rename_i hc
        cases h
        obtain rfl : source = [] := by simpa [chunkSize] using hc
        refine ⟨[], ⟨rfl, fun _ => ⟨rfl, rfl⟩⟩, fun payload => ?_⟩
        simp [held]
      · rename_i hc
        have hx := expands_of_absorb hd .start (by simpa using hc) rfl h
        simp only [List.flatten_nil, List.nil_append, hsplit] at hx
        exact hx
  | inside before =>
    obtain ⟨-, ho⟩ := hr.gives
    simp only [fill] at h
    split at h
    · cases h
    · rename_i hc
      have hx := expands_of_absorb hd ho (by simpa using hc) rfl h
      simp only [List.append_assoc, hsplit] at hx
      exact hx

theorem not_expands_of_fill (hd : d.Lawful) (hr : r.Reached d given)
    (h : r.fill d = .error problem) : ¬d.Expands (r.held ++ r.source) (given ++ payload) := by
  obtain ⟨source, phase, pending, atEnd⟩ := r
  have hsplit := List.take_append_drop chunkSize source
  cases phase with
  | between left =>
    cases left with
    | cons b left => exact not_expands_of_absorb hd .start (List.cons_ne_nil b left) h _
    | nil =>
      simp only [fill] at h
      split at h
      · cases h
      · rename_i hc
        have hx := not_expands_of_absorb hd .start (by simpa using hc) h (given ++ payload)
        simp only [List.flatten_nil, List.nil_append, hsplit] at hx
        exact hx
  | inside before =>
    obtain ⟨hb, ho⟩ := hr.gives
    simp only [fill] at h
    split at h
    · -- the source ends in a member
      rename_i hc
      obtain rfl : source = [] := by simpa [chunkSize] using hc
      intro hx
      have hne : before.flatten ++ [] ≠ [] := by
        rw [List.append_nil]
        exact ho.flatten_ne_nil hb
      obtain ⟨bytes, _, after, _, hs, -, hm, -⟩ := hx.exists_member hne
      exact hd.not_prefix ho hm ⟨after, hs.symm.trans (List.append_nil _)⟩
    · rename_i hc
      have hx := not_expands_of_absorb hd ho (by simpa using hc) h (given ++ payload)
      simp only [List.append_assoc, hsplit] at hx
      exact hx

theorem contentInto_of_end {found : List Bytes} (he : r.atEnd = true) :
    r.contentInto d found = ⟨found.reverse.flatten, none⟩ := by
  unfold contentInto
  split
  · rfl
  · rename_i hr
    rw [he] at hr
    cases hr

theorem contentInto_of_error {found : List Bytes} (he : r.atEnd = false)
    (h : r.fill d = .error problem) :
    r.contentInto d found = ⟨found.reverse.flatten, some problem⟩ := by
  unfold contentInto
  split
  · rename_i hr
    rw [he] at hr
    cases hr
  · split
    · rename_i hf
      rw [h] at hf
      cases hf
      rfl
    · rename_i hf
      rw [h] at hf
      cases hf

theorem contentInto_of_ok {found : List Bytes} (he : r.atEnd = false) (h : r.fill d = .ok s) :
    r.contentInto d found = s.contentInto d (s.pending :: found) := by
  rw [contentInto]
  split
  · rename_i hr
    rw [he] at hr
    cases hr
  · split
    · rename_i hf
      rw [h] at hf
      cases hf
    · rename_i hf
      rw [h] at hf
      cases hf
      rfl

/-- What is left of a section is read to its end exactly if it is made of complete members, and
gives then what they expand to. -/
theorem contentInto_eq_iff (hd : d.Lawful) {r : Inflow} {given all : Bytes} {found : List Bytes}
    (hr : r.Reached d given) : r.contentInto d found = ⟨all, none⟩ ↔
      ∃ payload, all = found.reverse.flatten ++ payload ∧
        d.Expands (r.held ++ r.source) (given ++ payload) := by
  cases he : r.atEnd with
  | true =>
    obtain ⟨hs, rfl⟩ := hr.ended he
    rw [contentInto_of_end he, hs]
    constructor
    · intro h
      cases h
      exact ⟨[], (List.append_nil _).symm, .nil⟩
    · rintro ⟨payload, rfl, hx⟩
      obtain rfl : payload = [] := hx.eq_nil
      rw [List.append_nil]
  | false =>
    cases hf : r.fill d with
    | error problem =>
      rw [contentInto_of_error he hf]
      constructor
      · intro h
        cases h
      · rintro ⟨payload, -, hx⟩
        exact absurd hx (not_expands_of_fill hd hr hf)
    | ok s =>
      obtain ⟨more, hs, hx⟩ := expands_of_fill hd hr he hf
      have hlt := measure_fill_lt he hf
      have hfound : (s.pending :: found).reverse.flatten = found.reverse.flatten ++ s.pending := by
        rw [List.reverse_cons, List.flatten_concat]
      rw [contentInto_of_ok he hf, contentInto_eq_iff hd hs, hfound]
      constructor
      · rintro ⟨others, rfl, ho⟩
        exact ⟨s.pending ++ others, List.append_assoc .., (hx _).mpr ⟨others, rfl, ho⟩⟩
      · rintro ⟨payload, rfl, hp⟩
        obtain ⟨others, rfl, ho⟩ := (hx payload).mp hp
        exact ⟨others, (List.append_assoc ..).symm, ho⟩
termination_by r.measure

end Inflow

/-- A compressed section is read to its end, without a fault, exactly if its bytes are complete
members, and is then what they expand to. -/
theorem content_eq_iff (hd : d.Lawful) {source : Bytes} :
    content d source = ⟨payload, none⟩ ↔ d.Expands source payload := by
  have hr : Inflow.Reached d { source } [] := ⟨rfl, fun h => by cases h⟩
  rw [content, Inflow.contentInto_eq_iff hd hr]
  constructor
  · rintro ⟨payload, rfl, hx⟩
    exact hx
  · intro hx
    exact ⟨payload, rfl, hx⟩

end Checkpoint.Decompressor
