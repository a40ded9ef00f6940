import Checkpoint.Proofs.Readback

/-! # Rows of optional elements

Elements that are there or not, one behind the other, can be told apart by their tags. What each of
them has been written for, and whether it is there, is known from what is seen of the row. -/
namespace Checkpoint.Markup

/-- The tag of the element that the pieces begin with, if they begin with one. -/
def begun? : List Markup → Option String
  | opening tag :: _ | empty tag :: _ => some tag
  | _ => none

/-- What a value is written as begins with an element of the tag, and tells the value and what comes
behind it. -/
structure Tells {α : Type} (tag : String) (write : α → List Markup) : Prop where
  begun : ∀ a rest, begun? (visible (write a ++ rest)) = some tag
  inj : ∀ {a b rest rest'}, visible (write a ++ rest) = visible (write b ++ rest') →
    a = b ∧ visible rest = visible rest'

namespace Tells

variable {α : Type} {tag : String} {write : String → α → List Markup} {a b : Option α}
  {rest rest' : List Markup}

/-- A field tells what its text tells. -/
theorem field {text : α → String} (h : Function.Injective text) :
    Tells tag fun a => field tag (text a) where
  begun a rest := by
    rw [visible_field_append]
    rfl
  inj he := by
    obtain ⟨-, ht, hr⟩ := visible_field_inj he
    exact ⟨h ht, hr⟩

/-- An element that is there tells nothing more. -/
theorem empty : Tells tag fun _ : Unit => [Markup.empty tag] where
  begun _ _ := rfl
  inj he := ⟨rfl, (List.cons.inj he).2⟩

/-- If nothing that follows is taken for an optional element, it is known whether it is there. -/
theorem optional_inj (h : Tells tag (write tag)) (hr : begun? (visible rest) ≠ some tag)
    (hr' : begun? (visible rest') ≠ some tag)
    (he : visible (optional write tag a ++ rest) = visible (optional write tag b ++ rest')) :
    a = b ∧ visible rest = visible rest' := by
  cases a with
  | none =>
    cases b with
    | none => exact ⟨rfl, he⟩
    | some b =>
      have hbegun := h.begun b rest'
      exact absurd ((congrArg begun? he).trans hbegun) hr
  | some a =>
    have hbegun := h.begun a rest
    cases b with
    | none => exact absurd ((congrArg begun? he).symm.trans hbegun) hr'
    | some b =>
      obtain ⟨rfl, hrest⟩ := h.inj he
      exact ⟨rfl, hrest⟩

end Tells

section Row

variable {ι : Type} {κ : ι → Type} {tagOf : ι → String}
  {write : (i : ι) → String → κ i → List Markup} {said said' : (i : ι) → Option (κ i)}
  {items : List ι} {rest rest' : List Markup}

/-- An optional element for each item. -/
def optionalRow (tagOf : ι → String) (write : (i : ι) → String → κ i → List Markup)
    (said : (i : ι) → Option (κ i)) (items : List ι) : List Markup :=
  items.flatMap fun i => optional (write i) (tagOf i) (said i)

/-- A row begins with an element of one of its tags, or is not there. -/
theorem begun?_optionalRow (h : ∀ i ∈ items, Tells (tagOf i) (write i (tagOf i))) {tag : String}
    (hb : begun? (visible (optionalRow tagOf write said items ++ rest)) = some tag) :
    tag ∈ items.map tagOf ∨ begun? (visible rest) = some tag := by
  induction items with
  | nil => exact .inr hb
  | cons i items ih =>
    obtain ⟨hi, hitems⟩ := List.forall_mem_cons.mp h
    rw [optionalRow, List.flatMap_cons, List.append_assoc, ← optionalRow] at hb
    cases hs : said i with
    | none =>
      rw [hs] at hb
      exact (ih hitems hb).imp_left (List.mem_cons_of_mem _)
    | some a =>
      rw [hs] at hb
      obtain rfl : tagOf i = tag := Option.some.inj ((hi.begun a _).symm.trans hb)
      exact .inl List.mem_cons_self

/-- Two rows of different tags that look alike have been written for the same. -/
theorem optionalRow_inj (h : ∀ i ∈ items, Tells (tagOf i) (write i (tagOf i)))
    (hn : (items.map tagOf).Nodup) (hr : begun? (visible rest) = none)
    (hr' : begun? (visible rest') = none)
    (he : visible (optionalRow tagOf write said items ++ rest) =
      visible (optionalRow tagOf write said' items ++ rest')) :
    ∀ i ∈ items, said i = said' i := by
  induction items with
  | nil => exact nofun
  | cons i items ih =>
    obtain ⟨hi, hitems⟩ := List.forall_mem_cons.mp h
    obtain ⟨hnew, hn⟩ := List.nodup_cons.mp hn
    -- no later element has the tag of this one
    have hlater : ∀ {said : (i : ι) → Option (κ i)} {rest : List Markup},
        begun? (visible rest) = none →
          begun? (visible (optionalRow tagOf write said items ++ rest)) ≠ some (tagOf i) := by
      intro said rest hrest hb
      rcases begun?_optionalRow hitems hb with hm | hb
      · exact hnew hm
      · rw [hrest] at hb
        cases hb
    rw [optionalRow, optionalRow, List.flatMap_cons, List.flatMap_cons, List.append_assoc,
      List.append_assoc, ← optionalRow, ← optionalRow] at he
    obtain ⟨hfirst, hrow⟩ := hi.optional_inj (hlater hr) (hlater hr') he
    exact List.forall_mem_cons.mpr ⟨hfirst, ih hitems hn hrow⟩

end Row

end Checkpoint.Markup
