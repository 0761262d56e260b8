import Mathlib.Tactic.Common

/-!
# Support — Graphemes

Texts are cut into graphemes.  Where they are cut is a parameter: a grapheme is not empty, and the
graphemes of a text are the text.
-/

namespace Support

/-- `graphemes(true)` -/
structure Segmentation where
  graphemes : List Char → List (List Char)
  flatten : ∀ text, (graphemes text).flatten = text
  ne_nil : ∀ text, [] ∉ graphemes text

/-- Each character by itself, as in a text of plain letters. -/
def Segmentation.chars : Segmentation where
  graphemes text := text.map fun c => [c]
  flatten := by
    intro text
    induction text with
    | nil => rfl
    | cons c text ih => rw [List.map_cons, List.flatten_cons, ih, List.singleton_append]
  ne_nil := by simp

end Support
