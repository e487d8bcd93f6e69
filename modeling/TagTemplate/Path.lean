import TagTemplate.Text.Basic

/-!
# Lookup paths

A name in a tag is a path into the data, its segments set apart by dots.
-/

namespace TagTemplate

/-- A lookup path, segment by segment. A segment may be empty. -/
structure Path where
  segments : List String
deriving DecidableEq, Repr, Inhabited

namespace Path

def ofText (t : Text) : Path := ⟨(List.splitOn '.' t).map String.ofList⟩

def ofString (s : String) : Path := ofText s.toList

def dotted (p : Path) : String := ".".intercalate p.segments

/-- A path is written as it was read. -/
theorem dotted_ofText (t : Text) : (ofText t).dotted = String.ofList t := by
  rw [← String.toList_inj]
  simp [dotted, ofText, Function.comp_def, List.intercalate_splitOn]

example : (ofString "a..b").segments = ["a", "", "b"] := by decide

example : (ofString "user.name").dotted = "user.name" := by decide

end Path

end TagTemplate
