import TagTemplate.Proofs.Position
import TagTemplate.Proofs.Text.Trim

/-!
# Carets

An error is shown with its line, trimmed, and a caret below. The caret stands under the character
at the column if trimming leaves it, at the front of the line if the column lies in the indentation,
and behind the line otherwise. It never moves back as the column grows.
-/

namespace TagTemplate

open Text

theorem Text.IsBoundary.of_append {t dropped : Text} {offset : Nat}
    (h : IsBoundary (t ++ dropped) offset) : IsBoundary t (min offset (size t)) := by
  obtain ⟨before, after, happ, rfl⟩ := h
  rcases List.append_eq_append_iff.mp happ with ⟨piece, rfl, -⟩ | ⟨piece, rfl, -⟩
  · refine ⟨t, [], (List.append_nil t).symm, ?_⟩
    rw [size_append]
    omega
  · refine ⟨before, piece, rfl, ?_⟩
    rw [size_append]
    omega

namespace SyntaxError

/-! ## The indentation of a caret -/

section CaretIndent

variable {line before after : Text} {column : Nat}

theorem caretIndent_of_append (h : line = before ++ after)
    (hsize : size before = min column (size line)) :
    caretIndent line column = before.length - (line.takeWhile isSpace).length := by
  have hsplit : splitAtSize? (min column (size line)) line = some (before, after) :=
    splitAtSize?_eq_some_iff.mpr ⟨h, hsize⟩
  simp only [caretIndent, hsplit]

theorem caretIndent_eq_zero (hplace : IsBoundary line (min column (size line)))
    (hcolumn : column < size (line.takeWhile isSpace)) : caretIndent line column = 0 := by
  obtain ⟨before, after, happ, hsize⟩ := hplace
  have hsplit := List.takeWhile_append_dropWhile (p := isSpace) (l := line)
  obtain ⟨piece, hgap⟩ := exists_append_of_size_le (happ.symm.trans hsplit.symm) (by omega)
  rw [caretIndent_of_append happ hsize, hgap, List.length_append]
  omega

/-- Behind the indentation the caret passes over the part of the trimmed line before the column, and
over more than all of it where the column lies behind. -/
theorem exists_caretIndent_eq_length (hplace : IsBoundary line (min column (size line)))
    (hcolumn : size (line.takeWhile isSpace) ≤ column) :
    ∃ piece after, line = line.takeWhile isSpace ++ piece ++ after ∧
      size (line.takeWhile isSpace) + size piece = min column (size line) ∧
      caretIndent line column = piece.length := by
  obtain ⟨before, after, happ, hsize⟩ := hplace
  have hsplit := List.takeWhile_append_dropWhile (p := isSpace) (l := line)
  have hle : size (line.takeWhile isSpace) ≤ size before := by
    have hline := congrArg size hsplit
    rw [size_append] at hline
    omega
  obtain ⟨piece, hbefore⟩ := exists_append_of_size_le (hsplit.trans happ) hle
  refine ⟨piece, after, by rwa [← hbefore], by rw [← size_append, ← hbefore, hsize], ?_⟩
  rw [caretIndent_of_append happ hsize, hbefore, List.length_append]
  omega

/-- The character above the caret is the one at the column. -/
theorem exists_getElem?_caretIndent (hplace : IsBoundary line (min column (size line)))
    (hfront : size (line.takeWhile isSpace) ≤ column)
    (hback : column < size (line.takeWhile isSpace) + size (trim line)) :
    ∃ before c after, line = before ++ c :: after ∧ size before = column ∧
      (trim line)[caretIndent line column]? = some c := by
  obtain ⟨tail, hline, -⟩ := exists_takeWhile_append_trim line
  have hsize := congrArg size hline
  simp only [size_append] at hsize
  obtain ⟨piece, after, happ, hpiece, hindent⟩ := exists_caretIndent_eq_length hplace hfront
  have hsame : piece ++ after = trim line ++ tail := by
    rw [List.append_assoc] at happ
    exact List.append_cancel_left (happ.symm.trans hline)
  obtain ⟨content, htrim⟩ := exists_append_of_size_le hsame (by omega)
  -- Something is left of the trimmed line behind the column, or the column would lie behind it.
  obtain ⟨c, content, rfl⟩ : ∃ c more, content = c :: more := by
    refine List.exists_cons_of_ne_nil fun hnil => ?_
    rw [hnil, List.append_nil] at htrim
    rw [htrim] at hback
    omega
  refine ⟨line.takeWhile isSpace ++ piece, c, content ++ tail, ?_, ?_, ?_⟩
  · rw [htrim] at hline
    simpa using hline
  · rw [size_append]
    omega
  · rw [hindent, htrim, List.getElem?_append_right (Nat.le_refl _), Nat.sub_self]
    rfl

theorem length_trim_le_caretIndent (hplace : IsBoundary line (min column (size line)))
    (hcolumn : size (line.takeWhile isSpace) + size (trim line) ≤ column) :
    (trim line).length ≤ caretIndent line column := by
  obtain ⟨tail, hline, -⟩ := exists_takeWhile_append_trim line
  have hsize := congrArg size hline
  simp only [size_append] at hsize
  obtain ⟨piece, after, happ, hpiece, hindent⟩ := exists_caretIndent_eq_length hplace (by omega)
  have hsame : trim line ++ tail = piece ++ after := by
    rw [List.append_assoc] at happ
    exact List.append_cancel_left (hline.symm.trans happ)
  obtain ⟨more, rfl⟩ := exists_append_of_size_le hsame (by omega)
  rw [hindent, List.length_append]
  omega

theorem caretIndent_mono {column' : Nat} (hplace : IsBoundary line (min column (size line)))
    (hplace' : IsBoundary line (min column' (size line))) (hle : column ≤ column') :
    caretIndent line column ≤ caretIndent line column' := by
  obtain ⟨before, after, happ, hsize⟩ := hplace
  obtain ⟨before', after', happ', hsize'⟩ := hplace'
  obtain ⟨piece, rfl⟩ := exists_append_of_size_le (happ.symm.trans happ') (by omega)
  rw [caretIndent_of_append happ hsize, caretIndent_of_append happ' hsize', List.length_append]
  omega

end CaretIndent

/-! ## Errors as they are shown -/

theorem isBoundary_locate {source : String} {offset : Nat}
    (h : IsBoundary source.toList (min offset source.utf8ByteSize)) (message : String) :
    IsBoundary (locate source offset message).sourceLine.toList
      (min (locate source offset message).column
        (size (locate source offset message).sourceLine.toList)) := by
  obtain ⟨before, after, -, -, heq⟩ := exists_locate_eq h message
  obtain ⟨dropped, hdropped, -⟩ := rdropWhile_eq_iff.mp
    (rfl : (lastLine before ++ after.takeWhile (· ≠ '\n')).rdropWhile (· == '\r') = _)
  rw [heq, String.toList_ofList]
  have hline : IsBoundary (lastLine before ++ after.takeWhile (· ≠ '\n'))
      (size (lastLine before)) := ⟨lastLine before, after.takeWhile (· ≠ '\n'), rfl, rfl⟩
  rw [hdropped] at hline
  exact hline.of_append

theorem sourceLine_eq_of_line_eq {source : String} {offset later : Nat}
    (h : IsBoundary source.toList (min offset source.utf8ByteSize))
    (hlater : IsBoundary source.toList (min later source.utf8ByteSize)) {message message' : String}
    (hline : (locate source offset message).line = (locate source later message').line) :
    (locate source offset message).sourceLine = (locate source later message').sourceLine := by
  obtain ⟨line, hget, hshown, -⟩ := exists_line_locate h message
  obtain ⟨line', hget', hshown', -⟩ := exists_line_locate hlater message'
  rw [hline, hget'] at hget
  cases hget
  rw [hshown, hshown']

/-- The caret stands under the character at the column, as far as the column lies in the line as it
is shown, and moves on with the place of the error on its line. -/
theorem display_locate {source : String} {offset : Nat}
    (h : IsBoundary source.toList (min offset source.utf8ByteSize)) (message : String) :
    let e := locate source offset message
    let line := e.sourceLine.toList
    let front := size (line.takeWhile isSpace)
    let back := front + size (trim line)
    let k := caretIndent line e.column
    e.display = message ++ "\n  Line " ++ e.line.repr ++ "\n    " ++ String.ofList (trim line) ++
        "\n    " ++ String.ofList (List.replicate k ' ') ++ "^" ∧
      (front ≤ e.column → e.column < back → ∃ before c after, line = before ++ c :: after ∧
        size before = e.column ∧ (trim line)[k]? = some c) ∧
      (e.column < front → k = 0) ∧
      (back ≤ e.column → (trim line).length ≤ k) ∧
      ∀ later message', IsBoundary source.toList (min later source.utf8ByteSize) →
        let e' := locate source later message'
        e'.line = e.line → offset ≤ later → k ≤ caretIndent e'.sourceLine.toList e'.column := by
  intro e line front back k
  have hplace := isBoundary_locate h message
  refine ⟨?_, exists_getElem?_caretIndent hplace, caretIndent_eq_zero hplace,
    length_trim_le_caretIndent hplace, ?_⟩
  · have hmessage : e.message = message := by
      obtain ⟨before, after, -, -, heq⟩ := exists_locate_eq h message
      exact congrArg SyntaxError.message heq
    simp only [display, excerpt, hmessage, String.append_assoc, k, line]
  · intro later message' hlater e' hline hle
    have hplace' := isBoundary_locate hlater message'
    have hshown : e.sourceLine = e'.sourceLine := sourceLine_eq_of_line_eq h hlater hline.symm
    have hcolumn : e.column ≤ e'.column := column_le_of_line_eq h hlater hline.symm hle
    have hplace'' : IsBoundary e'.sourceLine.toList
        (min e.column (size e'.sourceLine.toList)) := hshown ▸ hplace
    have hmono := caretIndent_mono hplace'' hplace' hcolumn
    rwa [← hshown] at hmono ⊢

/-- Behind an indentation and a character of two bytes. -/
theorem display_locate_accent :
    IsBoundary "  né \x7bx".toList (min 6 "  né \x7bx".utf8ByteSize) ∧
      (locate "  né \x7bx" 6 "Unclosed tag").display =
        "Unclosed tag\n  Line 1\n    né \x7bx\n       ^" ∧
      ∃ before c after, "  né \x7bx".toList = before ++ c :: after ∧ size before = 6 ∧
        (trim "  né \x7bx".toList)[3]? = some c := by
  have h : IsBoundary "  né \x7bx".toList (min 6 "  né \x7bx".utf8ByteSize) := by decide
  obtain ⟨hdisplay, hcharacter, -⟩ := display_locate h "Unclosed tag"
  exact ⟨h, hdisplay.trans (by decide +kernel), hcharacter (by decide) (by decide)⟩

end SyntaxError

end TagTemplate
