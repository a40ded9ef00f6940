import Checkpoint.Codec.Decoder

/-! # Feeds that go on

A decoder is run on the bytes that have come, and run again when there are more of them. What the
first run found is found by the second one, and where the first one stopped for want of bits the
second one goes on. This is proved of each step of a decoder, and carried through their chaining. -/
namespace Checkpoint

/-! ## Moving on in a feed -/

namespace Feed

/-- How many bytes the feed has had. -/
def size (s : Feed) : Nat := s.passed + s.input.length

/-- How many bits are left of it. -/
def left (s : Feed) : Nat := 8 * s.input.length - s.used

/-- The feed with more bytes at its end. -/
def extend (s : Feed) (more : Bytes) : Feed := { s with input := s.input ++ more }

/-- Not all bits of the first byte have been read. -/
structure Sound (s : Feed) : Prop where
  used_lt : s.used < 8
  used_nil : s.input = [] → s.used = 0

/-- A feed after at least `k` bits have been read. -/
structure Reaches (k : Nat) (s t : Feed) : Prop where
  sound : t.Sound
  left : t.left + k ≤ s.left
  size : t.size = s.size
  output : s.output.toList <+: t.output.toList

variable {s t u : Feed} {j k : Nat} {more : Bytes}

theorem Reaches.refl (h : s.Sound) : Reaches 0 s s := ⟨h, Nat.le_refl _, rfl, List.prefix_rfl⟩

theorem Reaches.trans (hs : Reaches j s t) (ht : Reaches k t u) : Reaches (j + k) s u where
  sound := ht.sound
  left := by
    have := hs.left
    have := ht.left
    omega
  size := ht.size.trans hs.size
  output := hs.output.trans ht.output

theorem Reaches.mono (h : Reaches j s t) (hk : k ≤ j) : Reaches k s t where
  sound := h.sound
  left := by
    have := h.left
    omega
  size := h.size
  output := h.output

theorem Sound.extend (h : s.Sound) (hm : more ≠ []) : (s.extend more).Sound where
  used_lt := h.used_lt
  used_nil hn := absurd (List.append_eq_nil_iff.mp hn).2 hm

theorem left_extend (h : s.Sound) : (s.extend more).left = s.left + 8 * more.length := by
  have hu : s.used ≤ 8 * s.input.length := by
    cases hi : s.input with
    | nil => rw [h.used_nil hi]; exact Nat.zero_le _
    | cons b rest =>
      have := h.used_lt
      rw [List.length_cons]
      omega
  simp only [left, Feed.extend, List.length_append]
  omega

end Feed

/-- Reading has stopped only for want of bytes. -/
def Halt.IsOpen : Halt → Prop
  | .starved | .blockEnd _ none => True
  | .corrupt | .blockEnd _ (some _) => False

/-- How many bytes of a member there are at first, and which come after them. -/
structure Cut where
  size : Nat
  more : Bytes
  more_ne : more ≠ []

namespace Decoder

variable {α β : Type}

theorem align_of_used_eq_zero {s : Feed} (h : s.used = 0) : align s = .ok () s := by
  obtain ⟨input, used, passed, output⟩ := s
  subst h
  cases input <;> rfl

theorem exists_of_bind {p : Decoder α} {f : α → Decoder β} {s u : Feed} {b : β}
    (h : (p >>= f) s = .ok b u) : ∃ a t, p s = .ok a t ∧ f a t = .ok b u := by
  change EStateM.bind p f s = _ at h
  unfold EStateM.bind at h
  cases hp : p s with
  | error halt t => rw [hp] at h; cases h
  | ok a t =>
    rw [hp] at h
    exact ⟨a, t, rfl, h⟩

theorem error_of_bind {p : Decoder α} {f : α → Decoder β} {s u : Feed} {halt : Halt}
    (h : (p >>= f) s = .error halt u) :
    p s = .error halt u ∨ ∃ a t, p s = .ok a t ∧ f a t = .error halt u := by
  change EStateM.bind p f s = _ at h
  unfold EStateM.bind at h
  cases hp : p s with
  | error halt t =>
    rw [hp] at h
    cases h
    exact .inl rfl
  | ok a t =>
    rw [hp] at h
    exact .inr ⟨a, t, rfl, h⟩

/-- A step that reads at least `k` bits if it succeeds, and takes back no output. -/
structure Moves (k : Nat) (p : Decoder α) : Prop where
  ok : ∀ {s a t}, s.Sound → p s = .ok a t → s.Reaches k t
  error : ∀ {s h t}, s.Sound → p s = .error h t → s.output.toList <+: t.output.toList

namespace Moves

variable {j k : Nat} {p : Decoder α} {f : α → Decoder β}

theorem mono (h : Moves j p) (hk : k ≤ j) : Moves k p where
  ok hs hr := (h.ok hs hr).mono hk
  error := h.error

theorem bind (hp : Moves j p) (hf : ∀ a, Moves k (f a)) : Moves (j + k) (p >>= f) where
  ok hs hr := by
    obtain ⟨a, t, ht, hu⟩ := exists_of_bind hr
    have hm := hp.ok hs ht
    exact hm.trans ((hf a).ok hm.sound hu)
  error hs hr := by
    rcases error_of_bind hr with ht | ⟨a, t, ht, hu⟩
    · exact hp.error hs ht
    · have hm := hp.ok hs ht
      exact hm.output.trans ((hf a).error hm.sound hu)

theorem pure (a : α) : Moves 0 (pure a : Decoder α) where
  ok hs hr := by cases hr; exact .refl hs
  error _ hr := by cases hr

theorem throw (h : Halt) : Moves k (throw h : Decoder α) where
  ok _ hr := by cases hr
  error _ hr := by cases hr; exact List.prefix_rfl

theorem bit (order : BitOrder) : Moves 1 (bit order) where
  ok {s a t} hs hr := by
    obtain ⟨input, used, passed, output⟩ := s
    have hu : used < 8 := hs.used_lt
    cases input with
    | nil => cases hr
    | cons b rest =>
      simp only [Decoder.bit] at hr
      split at hr
      · cases hr
        refine ⟨⟨by dsimp only; omega, fun h => by cases h⟩, ?_, rfl, List.prefix_rfl⟩
        simp only [Feed.left, List.length_cons]
        omega
      · cases hr
        refine ⟨⟨by dsimp only; omega, fun _ => rfl⟩, ?_, ?_, List.prefix_rfl⟩
        · simp only [Feed.left, List.length_cons]
          omega
        · simp only [Feed.size, List.length_cons]
          omega
  error {s h t} hs hr := by
    obtain ⟨input, used, passed, output⟩ := s
    cases input with
    | nil => cases hr; exact List.prefix_rfl
    | cons b rest =>
      simp only [Decoder.bit] at hr
      split at hr
      · cases hr
      · cases hr

theorem align : Moves 0 align where
  ok {s a t} hs hr := by
    obtain ⟨input, used, passed, output⟩ := s
    have hu : used < 8 := hs.used_lt
    cases input with
    | nil => cases hr; exact .refl hs
    | cons b rest =>
      cases used with
      | zero => cases hr; exact .refl hs
      | succ used =>
        cases hr
        refine ⟨⟨by dsimp only; omega, fun _ => rfl⟩, ?_, ?_, List.prefix_rfl⟩
        · simp only [Feed.left, List.length_cons]
          omega
        · simp only [Feed.size, List.length_cons]
          omega
  error {s h t} hs hr := by
    obtain ⟨input, used, passed, output⟩ := s
    cases input with
    | nil => cases hr
    | cons b rest => cases used <;> cases hr

theorem emit (b : UInt8) : Moves 0 (emit b) where
  ok {s a t} hs hr := by
    cases hr
    refine ⟨⟨hs.used_lt, hs.used_nil⟩, Nat.le_refl _, rfl, ?_⟩
    rw [Array.toList_push]
    exact List.prefix_append _ _
  error hs hr := by cases hr

end Moves

/-- What comes of a step with the first bytes, and what comes of it with all of them. One that stops
with the first bytes for want of others reads them, but for less than `slack` bits, if it succeeds
with all. -/
inductive Follows (c : Cut) (slack : Nat) :
    EStateM.Result Halt Feed α → EStateM.Result Halt Feed α → Prop
  | same (a : α) (t : Feed) : Follows c slack (.ok a t) (.ok a (t.extend c.more))
  | corrupt (h : Halt) (t t' : Feed) : Follows c slack (.error h t) (.error .corrupt t')
  | stopped {h : Halt} {t t' : Feed} (h' : Halt) : h.IsOpen →
      t.output.toList <+: t'.output.toList → Follows c slack (.error h t) (.error h' t')
  | passed {h : Halt} {t t' : Feed} (a : α) : h.IsOpen → t.output.toList <+: t'.output.toList →
      t'.left < 8 * c.more.length + slack → Follows c slack (.error h t) (.ok a t')

/-- Two steps of which the second does with all bytes what the first does with the first ones, as
long as less than `l` bits are left of these. Both read at least `k` bits. -/
structure Sync (c : Cut) (l k slack : Nat) (p q : Decoder α) : Prop where
  short : Moves k p
  long : Moves k q
  follows : ∀ {s}, s.Sound → s.size = c.size → s.left < l →
    Follows c slack (p s) (q (s.extend c.more))

variable {c : Cut} {l l' j k i slack : Nat} {p q : Decoder α} {f g : α → Decoder β} {s : Feed}

/-- A step that has stopped before anything is missed goes on with more bytes. -/
theorem Follows.of_moves {h : Halt} (hq : Moves k q) (hs : s.Sound) (hl : s.left < k + slack)
    (ho : h.IsOpen) : Follows c slack (.error h s) (q (s.extend c.more)) := by
  have hse := hs.extend c.more_ne
  cases hr : q (s.extend c.more) with
  | error h' t => exact .stopped h' ho (hq.error (s := s.extend c.more) hse hr)
  | ok a t =>
    have ht := hq.ok hse hr
    refine .passed a ho ht.output ?_
    have := ht.left
    rw [Feed.left_extend hs] at this
    omega

namespace Sync

theorem mono (h : Sync c l j i p q) (hl : l' ≤ l) (hk : k ≤ j) (hi : i ≤ slack) :
    Sync c l' k slack p q where
  short := h.short.mono hk
  long := h.long.mono hk
  follows {s} hs hc hsl := by
    have hf := h.follows hs hc (Nat.lt_of_lt_of_le hsl hl)
    cases hp : p s with
    | ok a t =>
      rw [hp] at hf
      generalize q (s.extend c.more) = r at hf
      cases hf
      exact .same a t
    | error h t =>
      rw [hp] at hf
      generalize q (s.extend c.more) = r at hf
      cases hf with
      | corrupt => exact .corrupt _ _ _
      | stopped h' ho hout => exact .stopped h' ho hout
      | passed a ho hout hlt => exact .passed a ho hout (by omega)

/-- The bits that the first step reads are not left for the second one; those of them that it may
have missed, the second one reads. -/
theorem bind (hp : Sync c l j i p q) (hf : ∀ a, Sync c l' k slack (f a) (g a)) (hl : l ≤ l' + j)
    (hi : i ≤ slack + k) : Sync c l (j + k) slack (p >>= f) (q >>= g) where
  short := hp.short.bind fun a => (hf a).short
  long := hp.long.bind fun a => (hf a).long
  follows {s} hs hc hsl := by
    have hse := hs.extend c.more_ne
    have hr := hp.follows hs hc hsl
    change Follows c slack (EStateM.bind p f s) (EStateM.bind q g (s.extend c.more))
    unfold EStateM.bind
    cases hps : p s with
    | ok a t =>
      rw [hps] at hr
      have ht := hp.short.ok hs hps
      cases hqs : q (s.extend c.more) with
      | error h t' => rw [hqs] at hr; cases hr
      | ok b t' =>
        rw [hqs] at hr
        cases hr
        have hlt : t.left < l' := by
          have := ht.left
          omega
        exact (hf a).follows ht.sound (ht.size.trans hc) hlt
    | error h t =>
      rw [hps] at hr
      cases hqs : q (s.extend c.more) with
      | error h' t' =>
        rw [hqs] at hr
        cases hr with
        | corrupt => exact .corrupt _ _ _
        | stopped h' ho hout => exact .stopped h' ho hout
      | ok b t' =>
        rw [hqs] at hr
        cases hr with
        | passed b ho hout hlt =>
          have ht := hp.long.ok hse hqs
          dsimp only
          cases hgs : g b t' with
          | error h' u => exact .stopped h' ho (hout.trans ((hf b).long.error ht.sound hgs))
          | ok e u =>
            have hu := (hf b).long.ok ht.sound hgs
            refine .passed e ho (hout.trans hu.output) ?_
            have := hu.left
            omega

/-- One step after the other, with the bits that both read. -/
theorem chain (hp : Sync c l j 0 p q) (hf : ∀ a, Sync c l k slack (f a) (g a)) :
    Sync c l (j + k) slack (p >>= f) (q >>= g) :=
  hp.bind hf (Nat.le_add_right l j) (Nat.zero_le _)

/-- One step after the other, where it does not matter what the first one reads. -/
theorem andThen (hp : Sync c l j 0 p q) (hf : ∀ a, Sync c l k slack (f a) (g a)) :
    Sync c l k slack (p >>= f) (q >>= g) :=
  (hp.chain hf).mono (Nat.le_refl _) (Nat.le_add_left k j) (Nat.le_refl _)

/-- One step after the other, where it does not matter what the second one reads. -/
theorem followed (hp : Sync c l j 0 p q) (hf : ∀ a, Sync c l 0 slack (f a) (g a)) :
    Sync c l j slack (p >>= f) (q >>= g) := hp.chain hf

/-- One step after the other, where the first one reads a bit. -/
theorem taking (hp : Sync c (l + 1) (j + 1) 0 p q) (hf : ∀ a, Sync c l k slack (f a) (g a)) :
    Sync c (l + 1) k slack (p >>= f) (q >>= g) :=
  (hp.bind hf (by omega) (by omega)).mono (Nat.le_refl _) (by omega) (Nat.le_refl _)

/-! ### Single steps -/

theorem pure (a : α) : Sync c l 0 0 (pure a) (pure a) where
  short := .pure a
  long := .pure a
  follows _ _ _ := .same a _

theorem reject : Sync c l k 0 (reject : Decoder α) reject where
  short := .throw _
  long := .throw _
  follows _ _ _ := .corrupt _ _ _

theorem reject_bind : Sync c l k 0 (Decoder.reject >>= f) (Decoder.reject >>= g) :=
  reject

theorem require (b : Bool) : Sync c l 0 0 (require b) (require b) := by
  cases b
  · exact reject
  · exact pure ()

theorem bit (order : BitOrder) : Sync c l 1 0 (bit order) (bit order) where
  short := .bit order
  long := .bit order
  follows {s} hs _ _ := by
    obtain ⟨input, used, passed, output⟩ := s
    cases input with
    | nil =>
      obtain rfl : used = 0 := hs.used_nil rfl
      exact .of_moves (.bit order) hs Nat.one_pos trivial
    | cons b rest =>
      simp only [Feed.extend, List.cons_append, Decoder.bit]
      split
      · exact .same _ _
      · exact .same _ _

theorem align : Sync c l 0 0 align align where
  short := .align
  long := .align
  follows {s} hs _ _ := by
    cases hu : s.used with
    | zero =>
      have hue : (s.extend c.more).used = 0 := hu
      rw [align_of_used_eq_zero hu, align_of_used_eq_zero hue]
      exact .same _ _
    | succ used =>
      obtain ⟨input, _, passed, output⟩ := s
      subst hu
      cases input with
      | nil => exact absurd (hs.used_nil rfl) (Nat.succ_ne_zero used)
      | cons b rest => exact .same _ _

theorem emit (b : UInt8) : Sync c l 0 0 (emit b) (emit b) where
  short := .emit b
  long := .emit b
  follows _ _ _ := .same _ _

/-- What is read off the feed does not depend on the bytes that are to come. -/
theorem get {f g : Feed → Decoder β} (hf : ∀ s s' : Feed, s.output = s'.output →
    s.passed = s'.passed → Sync c l k slack (f s) (g s')) :
    Sync c l k slack (get >>= f) (get >>= g) where
  short := {
    ok := fun hs hr => (hf _ _ rfl rfl).short.ok hs hr
    error := fun hs hr => (hf _ _ rfl rfl).short.error hs hr }
  long := {
    ok := fun hs hr => (hf _ _ rfl rfl).long.ok hs hr
    error := fun hs hr => (hf _ _ rfl rfl).long.error hs hr }
  follows {s} hs hc hl := (hf s (s.extend c.more) rfl rfl).follows hs hc hl

/-- No more bytes have been passed than there are at first. -/
theorem get_passed {γ : Type} (value value' : Nat → γ) (f : γ → Decoder β)
    (hv : ∀ n ≤ c.size, value n = value' n) (hf : ∀ v, Sync c l k slack (f v) (f v)) :
    Sync c l k slack (MonadState.get >>= fun s => f (value s.passed))
      (MonadState.get >>= fun s => f (value' s.passed)) where
  short := {
    ok := fun hs hr => (hf _).short.ok hs hr
    error := fun hs hr => (hf _).short.error hs hr }
  long := {
    ok := fun hs hr => (hf _).long.ok hs hr
    error := fun hs hr => (hf _).long.error hs hr }
  follows {s} hs hc hl := by
    have hp : s.passed ≤ c.size := hc ▸ Nat.le_add_right _ _
    change Follows c slack (f (value s.passed) s) (f (value' s.passed) (s.extend c.more))
    rw [hv _ hp]
    exact (hf _).follows hs hc hl

theorem bits (order : BitOrder) (n : Nat) : Sync c l n 0 (bits order n) (bits order n) := by
  induction n with
  | zero => exact pure 0
  | succ n ih =>
    have hnext : Sync c l (1 + (n + 0)) 0 (Decoder.bits order (n + 1))
        (Decoder.bits order (n + 1)) := by
      refine (bit order).chain fun first => ih.chain fun others => ?_
      cases order
      · exact pure _
      · exact pure _
    exact hnext.mono (Nat.le_refl _) (by omega) (Nat.le_refl _)

theorem map (h : Sync c l k 0 p q) (result : α → β) :
    Sync c l k 0 (result <$> p) (result <$> q) := by
  rw [map_eq_pure_bind, map_eq_pure_bind]
  exact h.followed fun a => pure (result a)

theorem repeatOutput (distance length : Nat) :
    Sync c l 0 0 (repeatOutput distance length) (repeatOutput distance length) := by
  induction length with
  | zero => exact pure ()
  | succ length ih =>
    refine get fun s s' ho _ => ?_
    rw [ho]
    exact (emit _).andThen fun _ => ih

/-! ### Repeated steps -/

theorem mapM {γ : Type} {step : γ → Decoder α} (hs : ∀ a, Sync c l 0 0 (step a) (step a))
    (elements : List γ) : Sync c l 0 0 (elements.mapM step) (elements.mapM step) := by
  induction elements with
  | nil =>
    rw [List.mapM_nil]
    exact pure []
  | cons a rest ih =>
    rw [List.mapM_cons]
    exact (hs a).andThen fun b => ih.andThen fun others => pure (b :: others)

theorem forIn {γ : Type} {step : γ → Decoder Unit} (hs : ∀ a, Sync c l 0 0 (step a) (step a))
    (elements : Array γ) :
    Sync c l 0 0 (forIn elements PUnit.unit fun a _ => do step a; return .yield PUnit.unit)
      (forIn elements PUnit.unit fun a _ => do step a; return .yield PUnit.unit) := by
  rw [← Array.forIn_toList]
  induction elements.toList with
  | nil => exact pure PUnit.unit
  | cons a rest ih =>
    rw [List.forIn_cons]
    refine andThen ((hs a).andThen fun _ => pure _) fun step => ?_
    cases step with
    | done _ => exact pure _
    | yield _ => exact ih

/-! ### Limited steps -/

/-- Steps that are told how many bits may be left, each of which reads one at least. They do not run
out of their limit before they run out of bits. -/
theorem of_limited {ι : Type} {bound : Nat} (loop loop' : Nat → ι → Decoder α) (hb : 0 < bound)
    (hzero : ∀ i, loop 0 i = throw .starved) (hzero' : ∀ i, loop' 0 i = throw .starved)
    (hstep : ∀ {l l'}, l < bound → (∀ i, Sync c l k 0 (loop l i) (loop' l' i)) →
      ∀ i, Sync c (l + 1) k 0 (loop (l + 1) i) (loop' (l' + 1) i))
    (hl : l ≤ l') (hbound : l ≤ bound) : ∀ i, Sync c l k 0 (loop l i) (loop' l' i) := by
  have hnone (m : Nat) (i : ι) (hlong : Moves k (loop' m i)) :
      Sync c 0 k 0 (loop 0 i) (loop' m i) :=
    { short := hzero i ▸ .throw .starved, long := hlong, follows := fun _ _ h => by omega }
  induction l' generalizing l with
  | zero =>
    obtain rfl : l = 0 := Nat.le_zero.mp hl
    exact fun i => hnone 0 i (hzero' i ▸ .throw .starved)
  | succ l' ih =>
    intro i
    cases l with
    | zero => exact hnone (l' + 1) i (hstep hb (ih (Nat.zero_le _) (Nat.zero_le _)) i).long
    | succ l => exact hstep (by omega) (ih (by omega) (by omega)) i

end Sync

end Decoder

end Checkpoint
