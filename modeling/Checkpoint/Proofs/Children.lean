import Checkpoint.Proofs.Emission

/-! # Children

Which elements stand directly inside of an element. Elements that stand deeper are not counted with
them, so a name that is used at two depths is not taken for two children. What a scribe adds to the
element around it is said by their tags, and a counted loop adds one for each record. -/
namespace Checkpoint

namespace Markup

/-- The tags of the elements that stand inside of just one other, in pieces that themselves stand
inside of `depth` elements. -/
def childrenFrom : Nat → List Markup → List String
  | _, [] => []
  | depth, opening tag :: rest =>
    (if depth = 1 then [tag] else []) ++ childrenFrom (depth + 1) rest
  | depth, closing _ _ :: rest => childrenFrom (depth - 1) rest
  | depth, empty tag :: rest => (if depth = 1 then [tag] else []) ++ childrenFrom depth rest
  | depth, text _ :: rest => childrenFrom depth rest
  | depth, verbatim _ :: rest => childrenFrom depth rest

/-- The tags of the elements that stand directly inside of the outermost ones. -/
def children (pieces : List Markup) : List String := childrenFrom 0 pieces

section ChildrenFrom

variable {tag : String} {newline : Bool} {pieces inside : List Markup}

/-- Nested pieces leave the depth as it is for those behind them. -/
theorem Nested.childrenFrom_append (h : Nested pieces) (depth : Nat) (rest : List Markup) :
    childrenFrom depth (pieces ++ rest) = childrenFrom depth pieces ++ childrenFrom depth rest := by
  induction h generalizing depth rest with
  | nil => rfl
  | append _ _ ihf ihb =>
    rw [List.append_assoc, ihf, ihb, ihf, List.append_assoc]
  | empty _ => simp [childrenFrom]
  | field _ => simp [Markup.field, childrenFrom]
  | @element tag newline inside _ _ ih =>
    have hc : ∀ last, childrenFrom depth (Markup.element tag newline inside ++ last) =
        (if depth = 1 then [tag] else []) ++
          (childrenFrom (depth + 1) inside ++ childrenFrom depth last) := by
      intro last
      simp [Markup.element, childrenFrom, ih]
    rw [hc, ← List.append_nil (Markup.element tag newline inside), hc]
    simp [childrenFrom]

/-- An element is one more at its place, with its own children deeper. -/
theorem childrenFrom_element (h : Nested inside) (depth : Nat) :
    childrenFrom depth (Markup.element tag newline inside) =
      (if depth = 1 then [tag] else []) ++ childrenFrom (depth + 1) inside := by
  simp [Markup.element, childrenFrom, h.childrenFrom_append]

/-- Nothing that stands deeper is a child. -/
theorem Nested.childrenFrom_deep (h : Nested pieces) {depth : Nat} (hd : 1 < depth) :
    childrenFrom depth pieces = [] := by
  have hn : depth ≠ 1 := Nat.ne_of_gt hd
  induction h generalizing depth with
  | nil => rfl
  | append hf _ ihf ihb => rw [hf.childrenFrom_append, ihf hd hn, ihb hd hn, List.nil_append]
  | empty _ => simp [childrenFrom, hn]
  | field _ => simp [Markup.field, childrenFrom, hn]
  | element _ hi ih =>
    rw [childrenFrom_element hi, if_neg hn, ih (Nat.lt_succ_of_lt hd) (by omega), List.nil_append]

/-- The children of an element are what its content adds to it. -/
theorem Nested.children_element (h : Nested inside) :
    children (Markup.element tag newline inside) = childrenFrom 1 inside := by
  rw [children, childrenFrom_element h, if_neg Nat.zero_ne_one, List.nil_append]

/-- Inside of another, an element is just one child. -/
theorem Single.childrenFrom_one (h : Single tag pieces) : childrenFrom 1 pieces = [tag] := by
  cases h with
  | element _ hi =>
    rw [childrenFrom_element hi, if_pos rfl, hi.childrenFrom_deep Nat.one_lt_two, List.append_nil]

/-- Things that are written as one element each are as many children. -/
theorem childrenFrom_one_flatMap {γ : Type} {write : γ → List Markup} {tagOf : γ → String}
    {xs : List γ} (hw : ∀ x, Single (tagOf x) (write x)) :
    childrenFrom 1 (xs.flatMap write) = xs.map tagOf := by
  induction xs with
  | nil => rfl
  | cons x xs ih =>
    rw [List.flatMap_cons, (hw x).nested.childrenFrom_append, (hw x).childrenFrom_one, ih,
      List.map_cons, List.singleton_append]

end ChildrenFrom

/-! ## Tags that do not occur -/

/-- No piece has the tag. -/
def Lacks (tag : String) (pieces : List Markup) : Prop := ∀ piece ∈ pieces, piece.tag? ≠ some tag

section Lacks

variable {α : Type} {tag other content : String} {pieces front back : List Markup}

@[simp] theorem lacks_nil : Lacks tag [] := fun _ h => nomatch h

@[simp] theorem lacks_append : Lacks tag (front ++ back) ↔ Lacks tag front ∧ Lacks tag back :=
  List.forall_mem_append

@[simp] theorem lacks_cons {piece : Markup} :
    Lacks tag (piece :: back) ↔ piece.tag? ≠ some tag ∧ Lacks tag back :=
  List.forall_mem_cons

@[simp] theorem lacks_flatMap {write : α → List Markup} {xs : List α} :
    Lacks tag (xs.flatMap write) ↔ ∀ x ∈ xs, Lacks tag (write x) :=
  List.forall_mem_flatMap

@[simp] theorem lacks_field : Lacks tag (field other content) ↔ other ≠ tag := by
  simp [field, tag?]

@[simp] theorem lacks_number {n : Int} : Lacks tag (number other n) ↔ other ≠ tag := lacks_field

theorem lacks_flag {present : Bool} (h : other ≠ tag) : Lacks tag (flag other present) := by
  cases present <;> simp [flag, tag?, h]

theorem lacks_optional {write : String → α → List Markup} {a : Option α}
    (h : ∀ a, Lacks tag (write other a)) : Lacks tag (optional write other a) := by
  cases a with
  | none => exact lacks_nil
  | some a => exact h a

/-- A tag that does not occur is not the tag of a child. -/
theorem Lacks.count_childrenFrom (h : Lacks tag pieces) (depth : Nat) :
    (childrenFrom depth pieces).count tag = 0 := by
  refine List.count_eq_zero.mpr ?_
  fun_induction childrenFrom depth pieces <;> grind [lacks_cons, tag?]

/-- An element has as many children of a tag as things that are written as one each, if what stands
before them has no such tag. -/
theorem count_children {write : α → List Markup} {xs : List α} {item : String} {newline : Bool}
    (hf : Nested front) (hl : Lacks item front) (hw : ∀ x, Single item (write x)) :
    (children (element tag newline (front ++ xs.flatMap write))).count item = xs.length := by
  have hx : Nested (xs.flatMap write) := .flatMap fun x => (hw x).nested
  rw [(hf.append hx).children_element, hf.childrenFrom_append, childrenFrom_one_flatMap hw,
    List.count_append, hl.count_childrenFrom, List.map_const', List.count_replicate_self,
    Nat.zero_add]

end Lacks

end Markup

open Markup (Nested Single childrenFrom children)

/-- Whenever the scribe succeeds, what it writes adds children with these tags to the element around
it. -/
def Scribe.Adds {α : Type} (t : Scribe α) (tags : List String) : Prop :=
  ∀ s written a u, t.run s = ⟨written, .ok a, u⟩ → Nested written ∧ childrenFrom 1 written = tags

section Success

variable {α : Type} {t : Scribe α} {s u : ByteStream} {written : List Markup} {a : α}

theorem Emits.nested (he : Emits t) (h : t.run s = ⟨written, .ok a, u⟩) : Nested written := by
  have hb := he s
  rwa [h] at hb

/-- An element that has been written to its end holds what its body has written. -/
theorem Scribe.inside_of_element {tag : String} {newline : Bool}
    (h : (Scribe.element tag newline t).run s = ⟨written, .ok a, u⟩) :
    ∃ inside, t.run s = ⟨inside, .ok a, u⟩ ∧ written = Markup.element tag newline inside := by
  rcases hr : t.run s with ⟨inside, outcome, mid⟩
  cases outcome with
  | error problem => rw [Transcriber.run_element_error hr] at h; cases h
  | ok b =>
    rw [Transcriber.run_element_ok hr] at h
    cases h
    exact ⟨inside, rfl, rfl⟩

end Success

namespace Scribe.Adds

variable {α β : Type} {tags more : List String} {schema : Schema} {tag : String} {newline : Bool}

theorem write {pieces : List Markup} (h : Nested pieces) :
    Adds (Transcriber.write pieces) (childrenFrom 1 pieces) := by
  intro s written a u hr
  cases hr
  exact ⟨h, rfl⟩

theorem pure (a : α) : Adds (Pure.pure a) [] := by
  intro s written b u hr
  cases hr
  exact ⟨.nil, rfl⟩

theorem bind {first : Scribe α} {next : α → Scribe β} (hf : Adds first tags)
    (hn : ∀ a, Adds (next a) more) : Adds (first >>= next) (tags ++ more) := by
  intro s written b u h
  obtain ⟨before, a, mid, after, hr, hm, rfl⟩ := Transcriber.run_bind_eq_ok h
  obtain ⟨hnf, rfl⟩ := hf _ _ _ _ hr
  obtain ⟨hnn, rfl⟩ := hn a _ _ _ _ hm
  exact ⟨hnf.append hnn, hnf.childrenFrom_append 1 after⟩

theorem discard {t : Scribe α} (ht : Adds t tags) : Adds (discard t : Scribe Unit) tags := by
  rw [← tags.append_nil]
  exact ht.bind fun _ => .pure ()

theorem write_single {pieces : List Markup} (h : Single tag pieces) :
    Adds (Transcriber.write pieces) [tag] := by
  rw [← h.childrenFrom_one]
  exact write h.nested

/-- An element is one child, whatever it holds. -/
theorem element {body : Scribe α} (ht : Markup.Inner tag) (hb : Emits body) :
    Adds (Scribe.element tag newline body) [tag] := by
  intro s written a u h
  obtain ⟨inside, hr, rfl⟩ := Scribe.inside_of_element h
  have hs : Single tag (Markup.element tag newline inside) := .element ht (hb.nested hr)
  exact ⟨hs.nested, hs.childrenFrom_one⟩

theorem nextRecord {missing : Problem} :
    Adds (Transcriber.nextRecord schema missing : Scribe Record) [] := by
  intro s written a u h
  rw [Transcriber.run_nextRecord] at h
  split at h
  · cases h
    exact ⟨.nil, rfl⟩
  · cases h
  · cases h

/-- A counted loop adds one child for each record that is declared, and none if fewer than zero are.
-/
theorem counted {body : Record → Scribe Unit} (hb : ∀ record, Adds (body record) [tag])
    {declared : Int} : Adds (Transcriber.counted schema declared body)
      (List.replicate declared.toNat tag) := by
  have loop : ∀ left found, Adds (Transcriber.countedInto schema declared body left found [])
      (List.replicate left tag) := by
    intro left
    induction left with
    | zero =>
      intro found
      exact pure found
    | succ left ih =>
      intro found
      rw [Transcriber.countedInto_succ, List.replicate_succ]
      exact .bind nextRecord fun record => .bind (hb record) fun _ => ih (found + 1)
  exact loop _ 0

end Scribe.Adds

end Checkpoint
