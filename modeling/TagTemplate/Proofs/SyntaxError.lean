import TagTemplate.Proofs.Text.Place
import TagTemplate.SyntaxError

/-!
# Places of errors

An error is located by an offset. If the offset splits the template, line and column are told from
the text before it, and the shown line from the lines on both sides of it. The column of a place
outside white space lies in the shown line, unless a carriage return ends the template there.
-/

namespace TagTemplate.SyntaxError

open Text

theorem locate_eq (source : String) (offset : Nat) (message : String) :
    locate source offset message =
      let parts := (splitAtSize? offset source.toList).getD (source.toList, [])
      { message
        line := parts.1.count '\n' + 1
        column := size (lastLine parts.1)
        sourceLine := String.ofList
          ((lastLine parts.1 ++ parts.2.takeWhile (· ≠ '\n')).rdropWhile (· == '\r')) } := by
  have hline : ∀ t : Text, (t.reverse.takeWhile (· ≠ '\n')).reverse = lastLine t := by
    intro t
    unfold lastLine
    congr 2
    funext c
    by_cases hc : c = '\n'
    · simp [hc]
    · simp [hc]
  unfold locate
  simp only [hline, fst_splitEndWhile]

theorem locate_of_append {source : String} {before after : Text}
    (h : source.toList = before ++ after) (message : String) :
    locate source (size before) message =
      { message
        line := before.count '\n' + 1
        column := size (lastLine before)
        sourceLine := String.ofList
          ((lastLine before ++ after.takeWhile (· ≠ '\n')).rdropWhile (· == '\r')) } := by
  have hsplit : splitAtSize? (size before) source.toList = some (before, after) :=
    splitAtSize?_eq_some_iff.mpr ⟨h, rfl⟩
  rw [locate_eq, hsplit]
  rfl

theorem locate_zero (source message : String) :
    (locate source 0 message).message = message ∧ (locate source 0 message).line = 1 ∧
      (locate source 0 message).column = 0 := by
  have h : locate source 0 message = _ :=
    locate_of_append (List.nil_append source.toList).symm message
  rw [h]
  exact ⟨rfl, rfl, rfl⟩

/-! ## Columns -/

/-- The column is the offset in bytes of a place in the shown line. -/
def PointsIntoLine (e : SyntaxError) : Prop :=
  ∃ before after, e.sourceLine.toList = before ++ after ∧ size before = e.column

instance (e : SyntaxError) : Decidable e.PointsIntoLine :=
  decidable_of_iff ((splitAtSize? e.column e.sourceLine.toList).isSome = true) <| by
    simp [Option.isSome_iff_exists, PointsIntoLine, splitAtSize?_eq_some_iff]

theorem PointsIntoLine.column_le {e : SyntaxError} (h : e.PointsIntoLine) :
    e.column ≤ e.sourceLine.utf8ByteSize := by
  obtain ⟨before, after, hline, hsize⟩ := h
  rw [← size_toList, hline, size_append, hsize]
  exact Nat.le_add_right _ _

/-- Behind a carriage return at the end of the source the column lies beyond the shown line. -/
theorem not_pointsIntoLine_locate_end {source : String} (h : source.toList.getLast? = some '\r')
    (message : String) : ¬ (locate source source.utf8ByteSize message).PointsIntoLine := by
  obtain ⟨s, hs⟩ := List.getLast?_eq_some_iff.mp h
  have hline : lastLine source.toList = lastLine s ++ ['\r'] := by
    rw [hs, lastLine_append (by decide)]
  intro hcolumn
  have hle := hcolumn.column_le
  rw [← size_toList, locate_of_append (List.append_nil source.toList).symm] at hle
  simp only [List.takeWhile_nil, List.append_nil, utf8ByteSize_ofList, hline] at hle
  rw [List.rdropWhile_concat_pos _ _ _ rfl, size_append] at hle
  have hdropped := size_rdropWhile_le (· == '\r') (lastLine s)
  have hone : size ['\r'] = 1 := rfl
  omega

/-- Everywhere else outside white space it lies in the line. -/
theorem pointsIntoLine_locate {source : String} {before after : Text}
    (h : source.toList = before ++ after) (hplace : OutsideSpace before after)
    (hend : after = [] → source.toList.getLast? ≠ some '\r') (message : String) :
    (locate source (size before) message).PointsIntoLine := by
  have hreturn : ∀ c, isSpace c = false → (c == '\r') = false := by
    intro c hc
    simpa using ne_of_isSpace hc (by decide)
  -- The part of the line before the column is shown whole if it does not end in a carriage return
  -- or if the part after it begins with another character.
  have hkeeps : StopsRun (· == '\r') (lastLine before).reverse ∨
      after.takeWhile (· ≠ '\n') ≠ [] ∧ StopsRun (· == '\r') (after.takeWhile (· ≠ '\n')) := by
    rcases hplace with hbefore | hafter
    · exact .inl (stopsRun_reverse_lastLine (hbefore.mono hreturn))
    · cases after with
      | nil =>
          have hlast : StopsRun (· == '\r') before.reverse := by
            intro c hc
            rw [List.head?_reverse] at hc
            simp only [beq_eq_false_iff_ne]
            intro heq
            subst heq
            exact hend rfl (by rwa [h, List.append_nil])
          exact .inl (stopsRun_reverse_lastLine hlast)
      | cons c u =>
          have hc : isSpace c = false := hafter c rfl
          rw [List.takeWhile_cons_of_pos (by simpa using ne_of_isSpace hc (by decide))]
          exact .inr ⟨List.cons_ne_nil _ _, stopsRun_cons (hreturn c hc)⟩
  rw [locate_of_append h]
  exact ⟨_, _, by rw [String.toList_ofList, rdropWhile_append hkeeps], rfl⟩

end TagTemplate.SyntaxError
