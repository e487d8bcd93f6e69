import TagTemplate.Text.Basic

/-!
# Boundaries between lexemes

A tag opens at the opening marker, with the spaces and tabs right before it as its indentation.
A run of text ends where a tag opens, or before the indentation of a tag that opens a line. A tag
alone on a line takes the line break with it.
-/

namespace TagTemplate

/-! ## Where tags open -/

/-- The indentation and what follows the opening marker, if a tag opens after spaces and tabs
alone. When the marker could also start among them, it starts as late as it can. -/
def splitOpening (opener t : Text) : Option (Text × Text) :=
  go (t.takeWhile isIndent).reverse (t.dropWhile isIndent)
where
  /-- The indentation, last character first, gives back one character after the other. -/
  go : Text → Text → Option (Text × Text)
    | [], t => if opener.isPrefixOf t then some ([], t.drop opener.length) else none
    | c :: indent, t =>
        if opener.isPrefixOf t then some ((c :: indent).reverse, t.drop opener.length)
        else go indent (c :: t)

theorem splitOpening_go_append {opener revIndent t indent rest : Text}
    (h : splitOpening.go opener revIndent t = some (indent, rest)) :
    indent ++ opener ++ rest = revIndent.reverse ++ t := by
  fun_induction splitOpening.go opener revIndent t with
  | case1 t hopener =>
      cases h
      exact Text.append_drop_of_isPrefixOf hopener
  | case2 => cases h
  | case3 c revIndent t hopener =>
      cases h
      rw [List.append_assoc, Text.append_drop_of_isPrefixOf hopener]
  | case4 c revIndent t hopener ih => simpa using ih h

theorem splitOpening_append {opener t indent rest : Text}
    (h : splitOpening opener t = some (indent, rest)) : indent ++ opener ++ rest = t := by
  have := splitOpening_go_append h
  rwa [List.reverse_reverse, List.takeWhile_append_dropWhile] at this

/-- A run of text ends here: with a tag, or with the indentation of a tag that opens a line. -/
def opensHere (opener : Text) (lineStart : Bool) (t : Text) : Bool :=
  opener.isPrefixOf t || lineStart && (splitOpening opener t).isSome

/-- Split off a run of text. It takes the first character in any case. -/
def splitText (opener : Text) : Text → Text × Text
  | [] => ([], [])
  | c :: t => go (c == '\n') t [c]
where
  /-- `seen` holds the characters taken, last one first. -/
  go (lineStart : Bool) : Text → Text → Text × Text
    | [], seen => (seen.reverse, [])
    | c :: t, seen =>
        if opensHere opener lineStart (c :: t) then (seen.reverse, c :: t)
        else go (c == '\n') t (c :: seen)

theorem splitText_go_append (opener : Text) (lineStart : Bool) (t seen : Text) :
    (splitText.go opener lineStart t seen).1 ++ (splitText.go opener lineStart t seen).2 =
      seen.reverse ++ t := by
  fun_induction splitText.go opener lineStart t seen with
  | case1 => simp
  | case2 => simp
  | case3 lineStart seen c t h ih => simpa using ih

theorem splitText_append (opener t : Text) :
    (splitText opener t).1 ++ (splitText opener t).2 = t := by
  cases t with
  | nil => rfl
  | cons c t => simpa [splitText] using splitText_go_append opener (c == '\n') t [c]

theorem splitText_go_ne_nil {opener : Text} {lineStart : Bool} {t seen : Text} (h : seen ≠ []) :
    (splitText.go opener lineStart t seen).1 ≠ [] := by
  fun_induction splitText.go opener lineStart t seen with
  | case1 => simpa using h
  | case2 => simpa using h
  | case3 lineStart seen c t hc ih => exact ih (by simp)

theorem splitText_ne_nil {opener t : Text} (h : t ≠ []) : (splitText opener t).1 ≠ [] := by
  cases t with
  | nil => exact absurd rfl h
  | cons c t => exact splitText_go_ne_nil (by simp)

/-! ## Where lines end -/

/-- The line break with which a line ends here, empty at the end of the template. -/
def splitLineBreak? : Text → Option (Text × Text)
  | [] => some ([], [])
  | '\n' :: t => some (['\n'], t)
  | '\r' :: '\n' :: t => some (['\r', '\n'], t)
  | _ => none

theorem splitLineBreak?_append {t lineBreak rest : Text}
    (h : splitLineBreak? t = some (lineBreak, rest)) : lineBreak ++ rest = t := by
  unfold splitLineBreak? at h
  split at h
  · cases h
    rfl
  · cases h
    rfl
  · cases h
    rfl
  · cases h

end TagTemplate
