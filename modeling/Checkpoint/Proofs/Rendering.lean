import Checkpoint.Xml.Markup

/-! # Rendering

What a sequence of pieces is written as, from what its parts are written as. -/
namespace Checkpoint.Markup

@[simp] theorem renderAll_nil : renderAll [] = "" := rfl

theorem renderAll_append (front back : List Markup) :
    renderAll (front ++ back) = renderAll front ++ renderAll back := by
  simp [renderAll, String.join_append]

theorem renderAll_cons (piece : Markup) (rest : List Markup) :
    renderAll (piece :: rest) = piece.render ++ renderAll rest :=
  renderAll_append [piece] rest

/-- A sequence that ends in a tag is not written as nothing. -/
theorem renderAll_append_closing_ne (front : List Markup) (tag : String) (newline : Bool) :
    renderAll (front ++ [.closing tag newline]) ≠ "" := by
  intro h
  have h := congrArg String.toList h
  cases newline <;> simp [renderAll, render] at h

end Checkpoint.Markup
