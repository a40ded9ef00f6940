import Checkpoint.Proofs.Counts

/-! # Loading a string table

What a table is loaded from, and what is found in it. A load takes the header and as many entries as
it declares from the front of a stream, whatever follows them; of two entries with one identifier
the later one holds. A load that fails comes to the end of the stream too early, or to something that
is not an entry of the table. -/
namespace Checkpoint

open Transcriber

namespace StringTable

variable {bound : Nat} {header : Record} {rows : List Record} {first taken : Bytes}

/-! ## What is found -/

/-- Of the texts under one identifier the last one is found. -/
theorem getElem?_insert_all (entries : List (Nat × String)) (table : StringTable) (id : Nat) :
    (entries.foldl (fun table (id, text) => table.insert id text) table).texts[id]? =
      ((entries.filter (·.1 == id)).getLast?.map (·.2)).or table.texts[id]? := by
  induction entries generalizing table with
  | nil => rfl
  | cons entry entries ih =>
    obtain ⟨other, text⟩ := entry
    rw [List.foldl_cons, ih]
    simp only [StringTable.insert, Std.TreeMap.getElem?_insert,
      Std.LawfulEqCmp.compare_eq_iff_eq]
    by_cases h : other = id
    · rw [if_pos h, List.filter_cons_of_pos (by simpa using h), List.getLast?_cons]
      cases (entries.filter (·.1 == id)).getLast? <;> rfl
    · rw [if_neg h, List.filter_cons_of_neg (by simpa using h)]

/-- What a table of entries gives for an identifier. -/
theorem lookup_ofList_rows (h : ∀ row ∈ rows, Fits bound row) (id : Int) :
    (ofList bound (rows.map fun row => ((row.int 1).toNat, row.text 2))).lookup id =
      if 0 ≤ id ∧ id ≤ bound then
        .ok ((rows.filter (·.int 1 == id)).getLast?.map (·.text 2))
      else .error (.idOutOfRange id) := by
  have hbound : (empty bound).bound = bound := rfl
  rw [lookup, ofList, bound_insert_all, hbound]
  by_cases hid : 0 ≤ id ∧ id ≤ bound
  · -- the identifiers of entries are not negative, so they may be compared as natural numbers
    have hfilter : rows.filter (fun row => (row.int 1).toNat == id.toNat) =
        rows.filter (·.int 1 == id) := by
      refine List.filter_congr fun row hr => ?_
      have hrow := (h row hr).1
      rw [Bool.eq_iff_iff, beq_iff_eq, beq_iff_eq]
      omega
    rw [if_pos hid, if_pos hid, getElem?_insert_all, List.filter_map]
    simp [Function.comp_def, hfilter, empty]
  · rw [if_neg hid, if_neg hid]

/-! ## The loop over entries -/

instance (bound : Nat) (row : Record) : Decidable (Fits bound row) :=
  inferInstanceAs (Decidable (_ ∧ _))

/-- The loop over the entries of a table that is still to take `left` of them. -/
def entriesFrom (bound left found : Nat) : Transcriber (Nat × String) Nat :=
  countedInto entrySchema bound (fun row => do Transcriber.write [← entry bound row]) left found []

/-- A round of the loop reads a record and lists it, if it fits. -/
theorem run_entriesFrom_succ (left found : Nat) (s : ByteStream) :
    (entriesFrom bound (left + 1) found).run s =
      match ByteStream.readRecord? entrySchema s with
      | .error problem t => ⟨[], .error problem, t⟩
      | .ok none t => ⟨[], .error (.count (.shortfall entrySchema.name bound found)), t⟩
      | .ok (some row) t =>
        if Fits bound row then
          ((entriesFrom bound left (found + 1)).run t).after [((row.int 1).toNat, row.text 2)]
        else ⟨[], .error (.malformed (.entryIdOutside (row.int 1) bound)), t⟩ := by
  have hn := @run_nextRecord (Nat × String) s entrySchema
    (.count (.shortfall entrySchema.name bound found))
  rw [entriesFrom, countedInto_succ]
  cases hr : ByteStream.readRecord? entrySchema s with
  | error problem t =>
    rw [hr] at hn
    exact run_bind_error hn
  | ok read t =>
    rw [hr] at hn
    cases read with
    | none => exact run_bind_error hn
    | some row =>
      rw [run_bind_ok hn]
      dsimp only
      by_cases hf : Fits bound row
      · rw [entry_of_fits hf, if_pos hf]
        rfl
      · rw [entry_of_not_fits hf, if_neg hf]
        rfl

/-- The loop goes through the entries that the stream starts with. -/
theorem run_entriesFrom_append (hs : Spelled (Framed entrySchema) rows taken)
    (hf : ∀ row ∈ rows, Fits bound row) (left found : Nat) (rest : ByteStream) :
    (entriesFrom bound (rows.length + left) found).run ⟨taken ++ rest.unread, rest.fault⟩ =
      ((entriesFrom bound left (found + rows.length)).run rest).after
        (rows.map fun row => ((row.int 1).toNat, row.text 2)) := by
  induction rows generalizing taken found with
  | nil =>
    rw [spelled_nil.mp hs]
    simp [Transcript.after]
  | cons row rows ih =>
    obtain ⟨frame, others, rfl, hframe, hothers⟩ := spelled_cons.mp hs
    obtain ⟨hrow, hrows⟩ := List.forall_mem_cons.mp hf
    have hl : (row :: rows).length + left = rows.length + left + 1 := by
      rw [List.length_cons]
      omega
    rw [hl, run_entriesFrom_succ, List.append_assoc, ByteStream.readRecord?_of_framed hframe]
    dsimp only
    rw [if_pos hrow]
    rw [ih hothers hrows (found + 1)]
    simp [Transcript.after, Nat.add_comm, Nat.add_left_comm]

/-- No entry of the table stands in front. -/
def Stops (bound : Nat) (s : ByteStream) : Prop :=
  ∀ row t, ByteStream.readRecord? entrySchema s = .ok (some row) t → ¬Fits bound row

/-- Where no entry stands in front, the loop fails: with a shortfall at the end of the stream, and
everywhere else with what is wrong there. -/
theorem run_entriesFrom_of_stops {s : ByteStream} (h : Stops bound s) (left found : Nat) :
    ∃ problem t, (entriesFrom bound (left + 1) found).run s = ⟨[], .error problem, t⟩ ∧
      (s = ⟨[], none⟩ → problem = .count (.shortfall entrySchema.name bound found)) ∧
      (s ≠ ⟨[], none⟩ → ∃ cause, problem = .malformed cause) := by
  rw [run_entriesFrom_succ]
  cases hr : ByteStream.readRecord? entrySchema s with
  | error problem t =>
    refine ⟨_, t, rfl, ?_, fun _ => ⟨problem, rfl⟩⟩
    rintro rfl
    cases hr
  | ok read t =>
    cases read with
    | none => exact ⟨_, t, rfl, fun _ => rfl, (absurd (ByteStream.eq_end_of_readRecord? hr).1 ·)⟩
    | some row =>
      dsimp only
      rw [if_neg (h row t hr)]
      refine ⟨_, t, rfl, ?_, fun _ => ⟨_, rfl⟩⟩
      rintro rfl
      cases hr

/-- As many entries as there are to be taken stand in front, or fewer and then something else. -/
theorem exists_rows (bound left : Nat) (s : ByteStream) : ∃ rows taken rest,
    s = ⟨taken ++ rest.unread, rest.fault⟩ ∧ Spelled (Framed entrySchema) rows taken ∧
      (∀ row ∈ rows, Fits bound row) ∧
        (rows.length = left ∨ rows.length < left ∧ Stops bound rest) := by
  induction left generalizing s with
  | zero => exact ⟨[], [], s, rfl, spelled_nil.mpr rfl, nofun, .inl rfl⟩
  | succ left ih =>
    by_cases hs : Stops bound s
    · exact ⟨[], [], s, rfl, spelled_nil.mpr rfl, nofun, .inr ⟨Nat.succ_pos _, hs⟩⟩
    · simp only [Stops, not_forall, Decidable.not_not] at hs
      obtain ⟨row, t, hr, hrow⟩ := hs
      obtain ⟨frame, rfl, hframe⟩ := ByteStream.exists_frame_of_readRecord? hr
      obtain ⟨rows, taken, rest, rfl, hrows, hfits, hl⟩ := ih t
      refine ⟨row :: rows, frame ++ taken, rest, by simp,
        spelled_cons.mpr ⟨frame, taken, rfl, hframe, hrows⟩, List.forall_mem_cons.mpr ⟨hrow, hfits⟩,
        ?_⟩
      rw [List.length_cons]
      rcases hl with hl | ⟨hl, hstops⟩
      · exact .inl (congrArg _ hl)
      · exact .inr ⟨Nat.succ_lt_succ hl, hstops⟩

/-! ## The load -/

/-- A load of which the header has been read goes on with the loop over entries. -/
theorem load_of_header (hf : Framed schema header first) (rest : ByteStream) :
    load ⟨first ++ rest.unread, rest.fault⟩ =
      let body := (entriesFrom (header.int 1).toNat (header.int 1).toNat 0).run rest
      (body.outcome.map fun _ => ofList (header.int 1).toNat body.written, body.stream) := by
  have hr : ByteStream.readHeader schema ⟨first ++ rest.unread, rest.fault⟩ = .ok header rest := by
    rw [ByteStream.readHeader, ByteStream.bind_ok (ByteStream.readRecord?_of_framed hf _ _)]
    rfl
  rw [load, hr]
  rfl

/-- A load takes a table from the front of a stream, and leaves the stream right behind it. -/
theorem load_of_spells (h : (SectionContent.stringTable header rows).Spells taken)
    (rest : ByteStream) : load ⟨taken ++ rest.unread, rest.fault⟩ =
      (.ok (ofList (header.int 1).toNat
        (rows.map fun row => ((row.int 1).toNat, row.text 2))), rest) := by
  obtain ⟨first, others, rfl, hfirst, hl, hfits, hrows⟩ := h
  have hloop := run_entriesFrom_append hrows hfits 0 0 rest
  have hload := load_of_header hfirst ⟨others ++ rest.unread, rest.fault⟩
  rw [Nat.add_zero, hl] at hloop
  rw [List.append_assoc, hload, hloop]
  simp [entriesFrom, countedInto_zero, Transcript.after, Except.map]

/-- A load that comes to something else than an entry before it has as many as are declared fails
there. -/
theorem load_of_stops {others : Bytes} {rest : ByteStream} (hf : Framed schema header first)
    (hrows : Spelled (Framed entrySchema) rows others)
    (hfits : ∀ row ∈ rows, Fits (header.int 1).toNat row)
    (hl : rows.length < (header.int 1).toNat) (hstops : Stops (header.int 1).toNat rest) :
    ∃ problem t, load ⟨first ++ (others ++ rest.unread), rest.fault⟩ = (.error problem, t) ∧
      (rest = ⟨[], none⟩ → problem =
        .count (.shortfall entrySchema.name (header.int 1).toNat rows.length)) ∧
      (rest ≠ ⟨[], none⟩ → ∃ cause, problem = .malformed cause) := by
  obtain ⟨left, hleft⟩ := Nat.exists_eq_add_of_lt hl
  have hloop := run_entriesFrom_append hrows hfits (left + 1) 0 rest
  have hload := load_of_header hf ⟨others ++ rest.unread, rest.fault⟩
  obtain ⟨problem, t, hstop, hproblem⟩ := run_entriesFrom_of_stops hstops left (0 + rows.length)
  rw [← Nat.add_assoc, ← hleft, hstop] at hloop
  rw [hloop] at hload
  rw [Nat.zero_add] at hproblem
  exact ⟨problem, t, hload, hproblem⟩

/-- A load without a header fails. -/
theorem load_of_headless {s : ByteStream}
    (h : ∀ header t, ByteStream.readRecord? schema s ≠ .ok (some header) t) :
    ∃ cause t, load s = (.error (.malformed cause), t) := by
  rw [load, ByteStream.readHeader]
  cases hr : ByteStream.readRecord? schema s with
  | error problem t =>
    rw [ByteStream.bind_error hr]
    exact ⟨problem, t, rfl⟩
  | ok read t =>
    rw [ByteStream.bind_ok hr]
    cases read with
    | none => exact ⟨_, t, rfl⟩
    | some header => exact absurd hr (h header t)

/-- The stream is a header and fewer entries than it declares, all of them within its bound, and it
ends right behind the last of them. -/
def EndsEarly (s : ByteStream) : Prop :=
  s.fault = none ∧ ∃ header rows, Led schema header (fun rest =>
    rows.length < (header.int 1).toNat ∧ (∀ row ∈ rows, Fits (header.int 1).toNat row) ∧
      Spelled (Framed entrySchema) rows rest) s.unread

/-- How a stream stands to a table that is to be loaded from it. -/
inductive Course (s : ByteStream) : Prop
  | headless : (∀ header t, ByteStream.readRecord? schema s ≠ .ok (some header) t) → Course s
  | whole {header : Record} {rows : List Record} {taken : Bytes} {rest : ByteStream} :
      s = ⟨taken ++ rest.unread, rest.fault⟩ →
      (SectionContent.stringTable header rows).Spells taken → Course s
  | stopped {header : Record} {rows : List Record} {first others : Bytes} {rest : ByteStream} :
      s = ⟨first ++ (others ++ rest.unread), rest.fault⟩ → Framed schema header first →
      Spelled (Framed entrySchema) rows others →
      (∀ row ∈ rows, Fits (header.int 1).toNat row) →
      rows.length < (header.int 1).toNat → Stops (header.int 1).toNat rest → Course s

theorem course (s : ByteStream) : Course s := by
  by_cases hs : ∃ header t, ByteStream.readRecord? schema s = .ok (some header) t
  · obtain ⟨header, t, hr⟩ := hs
    obtain ⟨first, rfl, hf⟩ := ByteStream.exists_frame_of_readRecord? hr
    obtain ⟨rows, others, rest, rfl, hrows, hfits, hl | ⟨hl, hstops⟩⟩ :=
      exists_rows (header.int 1).toNat (header.int 1).toNat t
    · have hs : (⟨first ++ (others ++ rest.unread), rest.fault⟩ : ByteStream) =
          ⟨first ++ others ++ rest.unread, rest.fault⟩ := by
        rw [List.append_assoc]
      exact .whole hs ⟨first, others, rfl, hf, hl, hfits, hrows⟩
    · exact .stopped rfl hf hrows hfits hl hstops
  · simp only [not_exists] at hs
    exact .headless hs

/-- Only a table is loaded, and the stream is left right behind it. -/
theorem spells_of_load {s t : ByteStream} {table : StringTable} (h : load s = (.ok table, t)) :
    ∃ header rows taken, s = ⟨taken ++ t.unread, t.fault⟩ ∧
      (SectionContent.stringTable header rows).Spells taken := by
  cases course s with
  | headless hs =>
    obtain ⟨cause, u, hload⟩ := load_of_headless hs
    rw [hload] at h
    cases h
  | @whole header rows taken rest hs hspells =>
    subst hs
    rw [load_of_spells hspells] at h
    cases h
    exact ⟨header, rows, taken, rfl, hspells⟩
  | stopped hs hf hrows hfits hl hstops =>
    subst hs
    obtain ⟨problem, u, hload, -⟩ := load_of_stops hf hrows hfits hl hstops
    rw [hload] at h
    cases h

/-- A stream that ends too early leaves a load short of entries. -/
theorem EndsEarly.load {s : ByteStream} (h : EndsEarly s) :
    ∃ cause t, StringTable.load s = (.error (.count cause), t) := by
  obtain ⟨unread, fault⟩ := s
  obtain ⟨rfl, header, rows, first, others, rfl, hf, hl, hfits, hrows⟩ := h
  have hend : Stops (header.int 1).toNat ⟨[], none⟩ := fun _ _ hr => by cases hr
  obtain ⟨problem, t, hload, hproblem, -⟩ := load_of_stops hf hrows hfits hl hend
  obtain rfl := hproblem rfl
  rw [List.append_nil] at hload
  exact ⟨_, t, hload⟩

theorem malformed_of_load {s t : ByteStream} {problem : Problem}
    (h : load s = (.error problem, t)) :
    problem.IsMalformed ∧ ((∃ cause, problem = .count cause) ↔ EndsEarly s) := by
  have hearly : EndsEarly s → ∃ cause, problem = .count cause := by
    intro he
    obtain ⟨cause, u, hload⟩ := he.load
    rw [hload] at h
    cases h
    exact ⟨cause, rfl⟩
  have hcause : ∀ cause, problem = .malformed cause →
      problem.IsMalformed ∧ ((∃ cause, problem = .count cause) ↔ EndsEarly s) := by
    rintro cause rfl
    exact ⟨trivial, nofun, hearly⟩
  cases course s with
  | headless hs =>
    obtain ⟨cause, u, hload⟩ := load_of_headless hs
    rw [hload] at h
    cases h
    exact hcause cause rfl
  | whole hs hspells =>
    subst hs
    rw [load_of_spells hspells] at h
    cases h
  | @stopped header rows first others rest hs hf hrows hfits hl hstops =>
    subst hs
    obtain ⟨found, u, hload, hend, helse⟩ := load_of_stops hf hrows hfits hl hstops
    rw [hload] at h
    cases h
    by_cases hrest : rest = ⟨[], none⟩
    · subst hrest
      obtain rfl := hend rfl
      refine ⟨trivial, fun _ => ?_, hearly⟩
      exact ⟨rfl, header, rows, first, others, by simp, hf, hl, hfits, hrows⟩
    · obtain ⟨cause, hproblem⟩ := helse hrest
      exact hcause cause hproblem

/-- A load succeeds exactly if the stream starts with a header and as many entries as it declares,
with identifiers from zero to that number. It leaves the stream right behind them. The table gives
for an identifier the text of the last entry that has it, or nothing if none has, and is at fault
for identifiers out of range; its size is the number of different ones. A load that fails is
malformed, and it is the count that is at fault exactly if the stream ends too early. -/
theorem load_reads (s : ByteStream) :
    ((∃ table t, load s = (.ok table, t)) ↔ ∃ header rows taken rest, s.unread = taken ++ rest ∧
      (SectionContent.stringTable header rows).Spells taken) ∧
    (∀ header rows taken rest, s.unread = taken ++ rest →
      (SectionContent.stringTable header rows).Spells taken →
      ∃ table, load s = (.ok table, ⟨rest, s.fault⟩) ∧
        (∀ id, table.lookup id = if 0 ≤ id ∧ id ≤ (header.int 1).toNat then
          .ok ((rows.filter (·.int 1 == id)).getLast?.map (·.text 2))
          else .error (.idOutOfRange id)) ∧
        table.size = (rows.map (·.int 1)).dedup.length) ∧
    ∀ problem t, load s = (.error problem, t) →
      problem.IsMalformed ∧ ((∃ cause, problem = .count cause) ↔ EndsEarly s) := by
  obtain ⟨unread, fault⟩ := s
  refine ⟨⟨?_, ?_⟩, ?_, fun problem t => malformed_of_load⟩
  · rintro ⟨table, t, h⟩
    obtain ⟨header, rows, taken, hs, hspells⟩ := spells_of_load h
    exact ⟨header, rows, taken, t.unread, congrArg ByteStream.unread hs, hspells⟩
  · rintro ⟨header, rows, taken, rest, rfl, hspells⟩
    exact ⟨_, _, load_of_spells hspells ⟨rest, fault⟩⟩
  · rintro header rows taken rest rfl hspells
    have ⟨_, _, _, _, _, hfits, _⟩ := hspells
    exact ⟨_, load_of_spells hspells ⟨rest, fault⟩, lookup_ofList_rows hfits,
      size_ofList_rows hfits⟩

/-- Two entries, for the identifiers one and zero. -/
def twoEntries : Bytes := [2, 8, 1] ++ [0]

theorem spelled_twoEntries :
    Spelled (Framed entrySchema) [[(1, [.int 1])], []] twoEntries := by
  have hfirst : Framed entrySchema [(1, [.int 1])] [2, 8, 1] :=
    ⟨[2], [8, 1], rfl, by cbv, by decide, by cbv⟩
  have hlast : Framed entrySchema [] [0] := ⟨[0], [], rfl, by cbv, by decide, by cbv⟩
  exact ⟨[[2, 8, 1], [0]], .cons hfirst (.cons hlast .nil), rfl⟩

/-- They are a table where two are declared, and end early where there are to be three. -/
theorem load_reads_twoEntries :
    (∃ table, load ⟨[2, 8, 2] ++ twoEntries ++ [9], none⟩ = (.ok table, ⟨[9], none⟩) ∧
      table.lookup 1 = .ok (some "") ∧ table.lookup 2 = .ok none ∧
      table.lookup 3 = .error (.idOutOfRange 3) ∧ table.size = 2) ∧
    ∃ problem t, load ⟨[2, 8, 3] ++ twoEntries, none⟩ = (.error problem, t) ∧
      problem.IsMalformed ∧ ∃ cause, problem = .count cause := by
  have htwo : Framed schema [(1, [.int 2])] [2, 8, 2] :=
    ⟨[2], [8, 2], rfl, by cbv, by decide, by cbv⟩
  have hthree : Framed schema [(1, [.int 3])] [2, 8, 3] :=
    ⟨[2], [8, 3], rfl, by cbv, by decide, by cbv⟩
  have hspells : (SectionContent.stringTable [(1, [.int 2])] [[(1, [.int 1])], []]).Spells
      ([2, 8, 2] ++ twoEntries) := ⟨_, _, rfl, htwo, rfl, by decide, spelled_twoEntries⟩
  have hends : EndsEarly ⟨[2, 8, 3] ++ twoEntries, none⟩ :=
    ⟨rfl, _, _, _, _, rfl, hthree, by decide, by decide, spelled_twoEntries⟩
  obtain ⟨table, hload, hlookup, hsize⟩ :=
    (load_reads ⟨[2, 8, 2] ++ twoEntries ++ [9], none⟩).2.1 _ _ _ [9] rfl hspells
  obtain ⟨cause, t, hcut⟩ := hends.load
  obtain ⟨hmalformed, hcount⟩ := (load_reads _).2.2 _ t hcut
  exact ⟨⟨table, hload, hlookup 1, hlookup 2, hlookup 3, hsize⟩, _, t, hcut, hmalformed,
    hcount.mpr hends⟩

end StringTable

end Checkpoint
