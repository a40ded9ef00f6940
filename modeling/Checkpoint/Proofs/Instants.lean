import Mathlib.Data.List.TakeWhile
import Checkpoint.Proofs.Gregorian

/-! # Instants

What an instant is as a date and a time of day, and what its text is read back as: nothing is lost,
and later instants have later dates and times. -/
namespace Checkpoint

namespace DateTime

/-- There is such a date, and such a time of day. -/
structure Valid (t : DateTime) : Prop where
  date : t.date.Valid
  hour : t.hour < 24
  minute : t.minute < 60
  second : t.second < 60
  millisecond : t.millisecond < 1000

/-- The milliseconds from midnight to a time of day. -/
def sinceMidnight (t : DateTime) : Nat :=
  3600000 * t.hour + 60000 * t.minute + 1000 * t.second + t.millisecond

/-- The milliseconds from the start of 1970 to a date and time. -/
def toMillis (t : DateTime) : Int := millisPerDay * t.date.toDays + t.sinceMidnight

/-- Dates and times are ordered by their dates, then by their hours, minutes, seconds and
milliseconds. -/
def Before (t u : DateTime) : Prop :=
  t.date.Before u.date ∨ t.date = u.date ∧
    (t.hour < u.hour ∨ t.hour = u.hour ∧
      (t.minute < u.minute ∨ t.minute = u.minute ∧
        (t.second < u.second ∨ t.second = u.second ∧ t.millisecond < u.millisecond)))

variable {t u : DateTime}

theorem valid_ofMillis (millis : Int) : (ofMillis millis).Valid := by
  have htime : (Int.fmod millis millisPerDay).toNat < 86400000 := by
    rw [Int.fmod_eq_emod_of_nonneg _ (by decide), millisPerDay]
    omega
  refine ⟨Date.valid_ofDays _, ?_, ?_, ?_, ?_⟩
  · change (Int.fmod millis millisPerDay).toNat / 3600000 < 24
    omega
  · exact Nat.mod_lt _ (by decide)
  · exact Nat.mod_lt _ (by decide)
  · exact Nat.mod_lt _ (by decide)

/-- The milliseconds are divided into days and parts of a day without a rest. -/
theorem toMillis_ofMillis (millis : Int) : (ofMillis millis).toMillis = millis := by
  unfold toMillis ofMillis sinceMidnight
  rw [Date.toDays_ofDays]
  rw [Int.fdiv_eq_ediv_of_nonneg _ (by decide), Int.fmod_eq_emod_of_nonneg _ (by decide)]
  dsimp only [millisPerDay]
  omega

theorem sinceMidnight_lt (h : t.Valid) : t.sinceMidnight < millisPerDay := by
  obtain ⟨-, hh, hm, hs, hms⟩ := h
  unfold sinceMidnight millisPerDay
  omega

/-- More milliseconds pass to the later of two dates and times. -/
theorem toMillis_lt_of_before (ht : t.Valid) (hu : u.Valid) (h : t.Before u) :
    t.toMillis < u.toMillis := by
  unfold toMillis
  rcases h with hdate | ⟨hdate, htime⟩
  · have hdays := Date.toDays_lt_of_before ht.date hu.date hdate
    have hlt := sinceMidnight_lt ht
    unfold millisPerDay at hlt ⊢
    omega
  · have hlt : t.sinceMidnight < u.sinceMidnight := by
      obtain ⟨-, -, hm, hs, hms⟩ := ht
      unfold sinceMidnight
      omega
    rw [hdate]
    omega

/-- Of two dates and times that differ, one is before the other. -/
theorem before_trichotomy (t u : DateTime) : t.Before u ∨ t = u ∨ u.Before t := by
  rcases Date.before_trichotomy t.date u.date with h | h | h
  · exact .inl (.inl h)
  · obtain ⟨date, hour, minute, second, millisecond⟩ := t
    obtain ⟨date', hour', minute', second', millisecond'⟩ := u
    obtain rfl : date = date' := h
    simp only [Before, DateTime.mk.injEq, true_and]
    omega
  · exact .inr (.inr (.inl h))

/-- No two dates and times are at the same instant. -/
theorem toMillis_injective (ht : t.Valid) (hu : u.Valid) (h : t.toMillis = u.toMillis) : t = u := by
  rcases before_trichotomy t u with hb | he | hb
  · have := toMillis_lt_of_before ht hu hb
    omega
  · exact he
  · have := toMillis_lt_of_before hu ht hb
    omega

theorem before_ofMillis {millis later : Int} (h : millis < later) :
    (ofMillis millis).Before (ofMillis later) := by
  rcases before_trichotomy (ofMillis millis) (ofMillis later) with hb | he | hb
  · exact hb
  · have := congrArg toMillis he
    rw [toMillis_ofMillis, toMillis_ofMillis] at this
    omega
  · have := toMillis_lt_of_before (valid_ofMillis later) (valid_ofMillis millis) hb
    rw [toMillis_ofMillis, toMillis_ofMillis] at this
    omega

end DateTime

/-! ## Reading a text -/

namespace Text

/-- Reads the decimal digits at the start of a text, of which there has to be one. -/
def takeNumber (cs : List Char) : Option (Nat × List Char) :=
  if cs.takeWhile Char.isDigit = [] then none
  else some (Nat.ofDigitChars 10 (cs.takeWhile Char.isDigit) 0, cs.dropWhile Char.isDigit)

/-- Reads digits with or without a sign in front. -/
def takeSigned (cs : List Char) : Option (Int × List Char) :=
  match cs with
  | '-' :: digits => (takeNumber digits).map fun (n, rest) => (-(n : Int), rest)
  | _ => (takeNumber cs).map fun (n, rest) => ((n : Int), rest)

/-- Reads a separator and the digits after it. -/
def takeAfter (separator : Char) : List Char → Option (Nat × List Char)
  | [] => none
  | c :: cs => if c = separator then takeNumber cs else none

/-- Whether a number could go on with the text. -/
def startsWithDigit : List Char → Bool
  | [] => false
  | c :: _ => c.isDigit

variable {width n : Nat} {rest : List Char}

theorem toList_zeroPadded (width n : Nat) : (zeroPadded width n).toList =
    List.replicate (width - (toString n).length) '0' ++ Nat.toDigits 10 n := by
  rw [zeroPadded, padLeft, String.toList_append, String.toList_ofList,
    Nat.toString_eq_ofList_toDigits, String.toList_ofList]

theorem isDigit_of_mem_zeroPadded {c : Char} (h : c ∈ (zeroPadded width n).toList) :
    c.isDigit = true := by
  rw [toList_zeroPadded, List.mem_append] at h
  rcases h with h | h
  · rw [List.eq_of_mem_replicate h]
    rfl
  · exact Nat.isDigit_of_mem_toDigits (by decide) (by decide) h

theorem zeroPadded_ne_nil : (zeroPadded width n).toList ≠ [] := by
  rw [toList_zeroPadded]
  exact List.append_ne_nil_of_right_ne_nil _ Nat.toDigits_ne_nil

/-- Zeros in front do not change a number. -/
theorem ofDigitChars_zeroPadded (width n : Nat) :
    Nat.ofDigitChars 10 (zeroPadded width n).toList 0 = n := by
  rw [toList_zeroPadded, Nat.ofDigitChars_append, Nat.ofDigitChars_replicate_zero, Nat.mul_zero,
    Nat.ofDigitChars_ten_toDigits]

/-- A number is read up to where its digits end. -/
theorem takeNumber_zeroPadded (h : startsWithDigit rest = false) :
    takeNumber ((zeroPadded width n).toList ++ rest) = some (n, rest) := by
  have hall : ∀ c ∈ (zeroPadded width n).toList, c.isDigit = true :=
    fun c => isDigit_of_mem_zeroPadded
  have htake : rest.takeWhile Char.isDigit = [] := by
    cases rest with
    | nil => rfl
    | cons c rest => exact List.takeWhile_cons_of_neg (Bool.eq_false_iff.mp h)
  have hdrop : rest.dropWhile Char.isDigit = rest := by
    cases rest with
    | nil => rfl
    | cons c rest => exact List.dropWhile_cons_of_neg (Bool.eq_false_iff.mp h)
  unfold takeNumber
  rw [List.takeWhile_append_of_pos hall, List.dropWhile_append_of_pos hall, htake, hdrop,
    List.append_nil, if_neg zeroPadded_ne_nil, ofDigitChars_zeroPadded]

theorem takeAfter_zeroPadded {separator : Char} (h : startsWithDigit rest = false) :
    takeAfter separator (separator :: ((zeroPadded width n).toList ++ rest)) = some (n, rest) := by
  rw [takeAfter, if_pos rfl, takeNumber_zeroPadded h]

/-- The sign is told from the digits, which are read up to their end. -/
theorem takeSigned_zeroPaddedInt {n : Int} (h : startsWithDigit rest = false) :
    takeSigned ((zeroPaddedInt width n).toList ++ rest) = some (n, rest) := by
  unfold zeroPaddedInt
  split
  · rename_i hn
    have hneg : -(n.natAbs : Int) = n := by omega
    have hlist : ("-" ++ zeroPadded (width - 1) n.natAbs).toList ++ rest =
        '-' :: ((zeroPadded (width - 1) n.natAbs).toList ++ rest) := by
      rw [String.toList_append]
      rfl
    rw [hlist, takeSigned, takeNumber_zeroPadded h, Option.map_some]
    dsimp only
    rw [hneg]
  · rename_i hn
    have habs : (n.natAbs : Int) = n := by omega
    obtain ⟨c, cs, hcs⟩ := List.exists_cons_of_ne_nil (@zeroPadded_ne_nil width n.natAbs)
    have hc : c ≠ '-' := by
      rintro rfl
      have hmem : '-' ∈ (zeroPadded width n.natAbs).toList := by
        rw [hcs]
        exact List.mem_cons_self
      have hd := isDigit_of_mem_zeroPadded hmem
      cases hd
    have htake := @takeNumber_zeroPadded width n.natAbs rest h
    rw [hcs, List.cons_append] at htake ⊢
    unfold takeSigned
    split
    · rename_i he
      exact absurd (List.cons.inj he).1 hc
    · rw [htake, Option.map_some]
      dsimp only
      rw [habs]

end Text

namespace DateTime

/-- Reads the text of a date and time. -/
def ofText? (text : String) : Option DateTime := do
  let (year, rest) ← Text.takeSigned text.toList
  let (month, rest) ← Text.takeAfter '-' rest
  let (day, rest) ← Text.takeAfter '-' rest
  let (hour, rest) ← Text.takeAfter 'T' rest
  let (minute, rest) ← Text.takeAfter ':' rest
  let (second, rest) ← Text.takeAfter ':' rest
  let (millisecond, rest) ← Text.takeAfter '.' rest
  if rest = [] then some ⟨⟨year, month, day⟩, hour, minute, second, millisecond⟩ else none

/-- A text says what it has been written for. -/
theorem ofText?_render (t : DateTime) : ofText? t.render = some t := by
  have hlist : t.render.toList = (Text.zeroPaddedInt 4 t.date.year).toList ++
      '-' :: ((Text.zeroPadded 2 t.date.month).toList ++
      '-' :: ((Text.zeroPadded 2 t.date.day).toList ++
      'T' :: ((Text.zeroPadded 2 t.hour).toList ++
      ':' :: ((Text.zeroPadded 2 t.minute).toList ++
      ':' :: ((Text.zeroPadded 2 t.second).toList ++
      '.' :: ((Text.zeroPadded 3 t.millisecond).toList ++ [])))))) := by
    simp [render]
  unfold ofText?
  rw [hlist]
  refine Option.bind_eq_some_iff.mpr ⟨_, Text.takeSigned_zeroPaddedInt rfl, ?_⟩
  refine Option.bind_eq_some_iff.mpr ⟨_, Text.takeAfter_zeroPadded rfl, ?_⟩
  refine Option.bind_eq_some_iff.mpr ⟨_, Text.takeAfter_zeroPadded rfl, ?_⟩
  refine Option.bind_eq_some_iff.mpr ⟨_, Text.takeAfter_zeroPadded rfl, ?_⟩
  refine Option.bind_eq_some_iff.mpr ⟨_, Text.takeAfter_zeroPadded rfl, ?_⟩
  refine Option.bind_eq_some_iff.mpr ⟨_, Text.takeAfter_zeroPadded rfl, ?_⟩
  refine Option.bind_eq_some_iff.mpr ⟨_, Text.takeAfter_zeroPadded rfl, ?_⟩
  exact if_pos rfl

/-- A date and time of the calendar stands for every number of milliseconds, and only one: counting
to it by the rule of the calendar gives the number, its text is read back, and it is before that of
every later instant. -/
theorem ofMillis_exact (millis : Int) :
    (ofMillis millis).Valid ∧ (ofMillis millis).toMillis = millis ∧
    (∀ t : DateTime, t.Valid → t.toMillis = millis → t = ofMillis millis) ∧
    ofText? (ofMillis millis).render = some (ofMillis millis) ∧
    ∀ later, millis < later → (ofMillis millis).Before (ofMillis later) := by
  have hvalid := valid_ofMillis millis
  have hmillis := toMillis_ofMillis millis
  refine ⟨hvalid, hmillis, ?_, ofText?_render _, fun later => before_ofMillis⟩
  intro t ht he
  exact toMillis_injective ht hvalid (he.trans hmillis.symm)

/-- The last millisecond of an era, which ends with a leap day. -/
theorem ofMillis_exact_leapDay :
    (⟨⟨-400, 2, 29⟩, 23, 59, 59, 999⟩ : DateTime).Valid ∧
    (⟨⟨-400, 2, 29⟩, 23, 59, 59, 999⟩ : DateTime).toMillis = -74784816000001 ∧
    ofMillis (-74784816000001) = ⟨⟨-400, 2, 29⟩, 23, 59, 59, 999⟩ ∧
    ofText? "-400-02-29T23:59:59.999" = some ⟨⟨-400, 2, 29⟩, 23, 59, 59, 999⟩ ∧
    (-74784816000001 : Int) < -74784816000000 ∧
    (ofMillis (-74784816000001)).Before (ofMillis (-74784816000000)) := by
  obtain ⟨hvalid, hmillis, -, htext, hbefore⟩ := ofMillis_exact (-74784816000001)
  have hdate : ofMillis (-74784816000001) = ⟨⟨-400, 2, 29⟩, 23, 59, 59, 999⟩ := by decide
  have hrender : (ofMillis (-74784816000001)).render = "-400-02-29T23:59:59.999" := by
    rw [hdate]
    cbv
  rw [hrender, hdate] at htext
  rw [hdate] at hvalid hmillis
  exact ⟨hvalid, hmillis, hdate, htext, by decide, hbefore _ (by decide)⟩

end DateTime

end Checkpoint
