import TagTemplate.Proofs.SyntaxError
import TagTemplate.Proofs.Text.Line

/-!
# Positions of errors

The line and the column of an error are exact: the line is the one that holds the place in the
source as it is split at its line feeds, and the sizes of the lines before it together with the
column give back the offset. So positions are ordered as the offsets are, and two places never
share one.
-/

namespace TagTemplate

open Text

/-! ## Boundaries -/

/-- The offset of a place between two characters of the text or at one of its ends. -/
def Text.IsBoundary (t : Text) (offset : Nat) : Prop :=
  ∃ before after, t = before ++ after ∧ size before = offset

instance (t : Text) (offset : Nat) : Decidable (IsBoundary t offset) :=
  decidable_of_iff ((splitAtSize? offset t).isSome = true) <| by
    simp [Option.isSome_iff_exists, IsBoundary, splitAtSize?_eq_some_iff]

theorem Text.exists_append_of_size_le {s t before after : Text} (h : before ++ after = s ++ t)
    (hle : size before ≤ size s) : ∃ piece, s = before ++ piece := by
  rcases List.append_eq_append_iff.mp h with ⟨piece, hs, -⟩ | ⟨piece, hbefore, -⟩
  · exact ⟨piece, hs⟩
  · rw [hbefore, size_append] at hle
    have hnil : piece = [] := size_eq_zero_iff.mp (by omega)
    exact ⟨[], by rw [hbefore, hnil, List.append_nil, List.append_nil]⟩

namespace SyntaxError

/-! ## Locating -/

theorem locate_min (source : String) (offset : Nat) (message : String) :
    locate source (min offset source.utf8ByteSize) message = locate source offset message := by
  rcases Nat.lt_or_ge source.utf8ByteSize offset with hlt | hle
  · have hend : splitAtSize? source.utf8ByteSize source.toList = some (source.toList, []) :=
      splitAtSize?_eq_some_iff.mpr ⟨(List.append_nil _).symm, size_toList source⟩
    have hnone : splitAtSize? offset source.toList = none := by
      rw [Option.eq_none_iff_forall_ne_some]
      intro parts hparts
      obtain ⟨happ, hsize⟩ := splitAtSize?_eq_some_iff.mp hparts
      rw [← size_toList, happ, size_append] at hlt
      omega
    rw [Nat.min_eq_right (Nat.le_of_lt hlt), locate_eq, locate_eq, hend, hnone]
    rfl
  · rw [Nat.min_eq_left hle]

theorem exists_locate_eq {source : String} {offset : Nat}
    (h : IsBoundary source.toList (min offset source.utf8ByteSize)) (message : String) :
    ∃ before after, source.toList = before ++ after ∧
      size before = min offset source.utf8ByteSize ∧
      locate source offset message =
        { message
          line := before.count '\n' + 1
          column := size (lastLine before)
          sourceLine := String.ofList
            ((lastLine before ++ after.takeWhile (· ≠ '\n')).rdropWhile (· == '\r')) } := by
  obtain ⟨before, after, happ, hsize⟩ := h
  refine ⟨before, after, happ, hsize, ?_⟩
  rw [← locate_min, ← hsize]
  exact locate_of_append happ message

/-- The error for a boundary names the line that holds it and shows that line without the carriage
returns at its end. The lines before it, each with its line feed, and the column sum up to the
offset. -/
theorem exists_line_locate {source : String} {offset : Nat}
    (h : IsBoundary source.toList (min offset source.utf8ByteSize)) (message : String) :
    ∃ line,
      (List.splitOn '\n' source.toList)[(locate source offset message).line - 1]? = some line ∧
      (locate source offset message).sourceLine =
        String.ofList (line.rdropWhile (· == '\r')) ∧
      (locate source offset message).column ≤ size line ∧
      (((List.splitOn '\n' source.toList).take ((locate source offset message).line - 1)).map
        (size · + 1)).sum + (locate source offset message).column =
          min offset source.utf8ByteSize := by
  obtain ⟨before, after, happ, hsize, heq⟩ := exists_locate_eq h message
  obtain ⟨line, hline, hparts, hsum⟩ := exists_line_of_append before after
  rw [← happ] at hline hsum
  rw [heq]
  refine ⟨line, hline, by rw [hparts], ?_, hsum.trans hsize⟩
  rw [hparts, size_append]
  exact Nat.le_add_right _ _

/-! ## Order -/

def Precedes (e e' : SyntaxError) : Prop :=
  e.line < e'.line ∨ e.line = e'.line ∧ e.column < e'.column

instance (e e' : SyntaxError) : Decidable (e.Precedes e') := inferInstanceAs (Decidable (_ ∨ _))

theorem Precedes.asymm {e e' : SyntaxError} (h : e.Precedes e') : ¬ e'.Precedes e := by
  unfold Precedes at *
  omega

section Order

variable {source : String} {offset later : Nat}

theorem precedes_of_lt (h : IsBoundary source.toList (min offset source.utf8ByteSize))
    (hlater : IsBoundary source.toList (min later source.utf8ByteSize))
    (hlt : min offset source.utf8ByteSize < min later source.utf8ByteSize)
    (message message' : String) :
    (locate source offset message).Precedes (locate source later message') := by
  obtain ⟨before, after, happ, hsize, heq⟩ := exists_locate_eq h message
  obtain ⟨s, t, happ', hsize', heq'⟩ := exists_locate_eq hlater message'
  obtain ⟨piece, rfl⟩ := exists_append_of_size_le (happ.symm.trans happ') (by omega)
  rw [heq, heq']
  rcases count_lt_or_lastLine_append before piece with hcount | ⟨hcount, hline⟩
  · left
    simpa using hcount
  · right
    rw [size_append] at hsize'
    refine ⟨congrArg (· + 1) hcount, ?_⟩
    simp only [hline, size_append]
    omega

/-- Positions are ordered as the offsets are. -/
theorem precedes_iff (h : IsBoundary source.toList (min offset source.utf8ByteSize))
    (hlater : IsBoundary source.toList (min later source.utf8ByteSize))
    (message message' : String) :
    (locate source offset message).Precedes (locate source later message') ↔
      min offset source.utf8ByteSize < min later source.utf8ByteSize := by
  constructor
  · intro hprecedes
    rcases Nat.lt_trichotomy (min offset source.utf8ByteSize) (min later source.utf8ByteSize) with
      hlt | heq | hgt
    · exact hlt
    · rw [← locate_min source offset, ← locate_min source later, heq, locate_eq, locate_eq]
        at hprecedes
      exact absurd hprecedes hprecedes.asymm
    · exact absurd hprecedes (precedes_of_lt hlater h hgt message' message).asymm
  · intro hlt
    exact precedes_of_lt h hlater hlt message message'

theorem min_eq_of_position_eq (h : IsBoundary source.toList (min offset source.utf8ByteSize))
    (hlater : IsBoundary source.toList (min later source.utf8ByteSize)) {message message' : String}
    (hline : (locate source offset message).line = (locate source later message').line)
    (hcolumn : (locate source offset message).column = (locate source later message').column) :
    min offset source.utf8ByteSize = min later source.utf8ByteSize := by
  have hnot := mt (precedes_iff h hlater message message').mpr
  have hnot' := mt (precedes_iff hlater h message' message).mpr
  unfold Precedes at hnot hnot'
  omega

theorem column_le_of_line_eq (h : IsBoundary source.toList (min offset source.utf8ByteSize))
    (hlater : IsBoundary source.toList (min later source.utf8ByteSize)) {message message' : String}
    (hline : (locate source offset message).line = (locate source later message').line)
    (hle : offset ≤ later) :
    (locate source offset message).column ≤ (locate source later message').column := by
  have hnot := mt (precedes_iff hlater h message' message).mp
  unfold Precedes at hnot
  omega

end Order

/-! ## Exactness -/

/-- Positions are exact and ordered as the offsets are. -/
theorem locate_exact {source : String} {offset : Nat}
    (h : IsBoundary source.toList (min offset source.utf8ByteSize)) (message : String) :
    let e := locate source offset message
    let lines := List.splitOn '\n' source.toList
    e.message = message ∧ 1 ≤ e.line ∧
      (∃ line, lines[e.line - 1]? = some line ∧
        e.sourceLine = String.ofList (line.rdropWhile (· == '\r')) ∧ e.column ≤ size line ∧
        ((lines.take (e.line - 1)).map (size · + 1)).sum + e.column =
          min offset source.utf8ByteSize) ∧
      ∀ later message', IsBoundary source.toList (min later source.utf8ByteSize) →
        let e' := locate source later message'
        (min offset source.utf8ByteSize < min later source.utf8ByteSize ↔ e.Precedes e') ∧
          (e.line = e'.line ∧ e.column = e'.column →
            min offset source.utf8ByteSize = min later source.utf8ByteSize) := by
  intro e lines
  refine ⟨?_, ?_, exists_line_locate h message, ?_⟩
  · obtain ⟨before, after, -, -, heq⟩ := exists_locate_eq h message
    exact congrArg SyntaxError.message heq
  · obtain ⟨before, after, -, -, heq⟩ := exists_locate_eq h message
    exact (congrArg SyntaxError.line heq).symm ▸ Nat.le_add_left 1 _
  · intro later message' hlater
    refine ⟨(precedes_iff h hlater message message').symm, ?_⟩
    rintro ⟨hline, hcolumn⟩
    exact min_eq_of_position_eq h hlater hline hcolumn

/-- A place in the second line, behind a character of two bytes, and the end of the source. -/
theorem locate_exact_second_line :
    IsBoundary "a\né\r\n".toList (min 4 "a\né\r\n".utf8ByteSize) ∧
      locate "a\né\r\n" 4 "x" = ⟨"x", 2, 2, "é"⟩ ∧
      (locate "a\né\r\n" 4 "x").Precedes (locate "a\né\r\n" 6 "x") := by
  have h : IsBoundary "a\né\r\n".toList (min 4 "a\né\r\n".utf8ByteSize) := by decide
  obtain ⟨-, -, -, hlater⟩ := locate_exact h "x"
  exact ⟨h, by decide, (hlater 6 "x" (by decide)).1.mp (by decide)⟩

end SyntaxError

end TagTemplate
