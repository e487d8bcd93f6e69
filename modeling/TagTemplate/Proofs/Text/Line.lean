import Mathlib.Algebra.GroupWithZero.Nat
import Mathlib.Data.List.Induction
import TagTemplate.Proofs.Text.Region

/-!
# Lines of a text

A text is split into its lines at the line feeds. What stands before a place is some whole lines,
each with its line feed, and the front of one more line. Their number and their sizes tell the
offset of the place.
-/

namespace TagTemplate.Text

/-! ## Whole lines -/

def wholeLines (lines : List Text) : Text := lines.flatMap (· ++ ['\n'])

@[simp] theorem wholeLines_nil : wholeLines [] = [] := rfl

@[simp] theorem wholeLines_cons (line : Text) (lines : List Text) :
    wholeLines (line :: lines) = line ++ '\n' :: wholeLines lines := by
  simp [wholeLines]

@[simp] theorem wholeLines_append (lines more : List Text) :
    wholeLines (lines ++ more) = wholeLines lines ++ wholeLines more := by
  simp [wholeLines]

theorem size_wholeLines (lines : List Text) :
    size (wholeLines lines) = (lines.map (size · + 1)).sum := by
  induction lines with
  | nil => rfl
  | cons line lines ih =>
      have hfeed : '\n'.utf8Size = 1 := rfl
      rw [wholeLines_cons, size_append, size_cons, hfeed, ih, List.map_cons, List.sum_cons,
        Nat.add_assoc]

theorem count_wholeLines {lines : List Text} (h : ∀ line ∈ lines, '\n' ∉ line) :
    (wholeLines lines).count '\n' = lines.length := by
  induction lines with
  | nil => rfl
  | cons line lines ih =>
      obtain ⟨hline, hlines⟩ := List.forall_mem_cons.mp h
      rw [wholeLines_cons, List.count_append, List.count_eq_zero_of_not_mem hline,
        List.count_cons_self, ih hlines, Nat.zero_add, List.length_cons]

theorem exists_wholeLines (t : Text) :
    ∃ lines, t = wholeLines lines ++ lastLine t ∧ ∀ line ∈ lines, '\n' ∉ line := by
  -- By induction from the end of the text: a line feed there ends the last line, and any other
  -- character goes on with it.
  induction t using List.reverseRecOn with
  | nil => exact ⟨[], rfl, nofun⟩
  | append_singleton t c ih =>
      obtain ⟨lines, ht, hlines⟩ := ih
      by_cases hc : c = '\n'
      · subst hc
        refine ⟨lines ++ [lastLine t], ?_, ?_⟩
        · rw [lastLine_append_newline, wholeLines_append, List.append_nil, wholeLines_cons,
            wholeLines_nil, ← List.append_assoc, ← ht]
        · exact List.forall_mem_append.mpr
            ⟨hlines, List.forall_mem_singleton.mpr (newline_notMem_lastLine t)⟩
      · have hlast : lastLine (t ++ [c]) = lastLine t ++ [c] :=
          lastLine_append (by simpa using Ne.symm hc)
        refine ⟨lines, ?_, hlines⟩
        rw [hlast, ← List.append_assoc, ← ht]

theorem count_of_wholeLines {lines : List Text} {t : Text}
    (ht : t = wholeLines lines ++ lastLine t) (h : ∀ line ∈ lines, '\n' ∉ line) :
    t.count '\n' = lines.length := by
  rw [ht, List.count_append, count_wholeLines h,
    List.count_eq_zero_of_not_mem (newline_notMem_lastLine t), Nat.add_zero]

/-- Whole lines in front of a text are the first of its lines. -/
theorem splitOn_wholeLines_append {lines : List Text} (h : ∀ line ∈ lines, '\n' ∉ line)
    (t : Text) : List.splitOn '\n' (wholeLines lines ++ t) = lines ++ List.splitOn '\n' t := by
  induction lines with
  | nil => rfl
  | cons line lines ih =>
      obtain ⟨hline, hlines⟩ := List.forall_mem_cons.mp h
      rw [wholeLines_cons, List.append_assoc, List.cons_append,
        List.splitOn_append_cons_self_of_not_mem hline, ih hlines, List.cons_append]

theorem splitOn_eq_cons {s : Text} (h : '\n' ∉ s) (t : Text) :
    ∃ more, List.splitOn '\n' (s ++ t) = (s ++ t.takeWhile (· ≠ '\n')) :: more := by
  have hrun : '\n' ∉ s ++ t.takeWhile (· ≠ '\n') := by
    intro hmem
    rcases List.mem_append.mp hmem with hmem | hmem
    · exact h hmem
    · simpa using List.all_eq_true.mp List.all_takeWhile '\n' hmem
  have hsplit := List.takeWhile_append_dropWhile (p := (· ≠ '\n')) (l := t)
  cases hrest : t.dropWhile (· ≠ '\n') with
  | nil =>
      rw [hrest, List.append_nil] at hsplit
      refine ⟨[], ?_⟩
      rw [hsplit] at hrun ⊢
      exact List.splitOn_eq_singleton hrun
  | cons c u =>
      have hc : c = '\n' := by
        have hhead := List.head?_dropWhile_not (· ≠ '\n') t
        rw [hrest] at hhead
        simpa using hhead
      subst hc
      refine ⟨List.splitOn '\n' u, ?_⟩
      rw [← List.splitOn_append_cons_self_of_not_mem hrun, List.append_assoc, ← hrest, hsplit]

/-- The line at a place is the one with as many lines before it as there are line feeds before the
place. The sizes of those lines and their line feeds and of the part of the line before the place
sum up to the offset. -/
theorem exists_line_of_append (before after : Text) :
    ∃ line, (List.splitOn '\n' (before ++ after))[before.count '\n']? = some line ∧
      line = lastLine before ++ after.takeWhile (· ≠ '\n') ∧
      (((List.splitOn '\n' (before ++ after)).take (before.count '\n')).map (size · + 1)).sum +
        size (lastLine before) = size before := by
  obtain ⟨lines, hbefore, hlines⟩ := exists_wholeLines before
  obtain ⟨more, hmore⟩ := splitOn_eq_cons (newline_notMem_lastLine before) after
  have hsplit : List.splitOn '\n' (before ++ after) =
      lines ++ (lastLine before ++ after.takeWhile (· ≠ '\n')) :: more := by
    rw [← hmore, ← splitOn_wholeLines_append hlines, ← List.append_assoc, ← hbefore]
  have hcount := count_of_wholeLines hbefore hlines
  refine ⟨_, ?_, rfl, ?_⟩
  · rw [hsplit, hcount, List.getElem?_append_right (Nat.le_refl _), Nat.sub_self]
    rfl
  · rw [hsplit, hcount, List.take_left, ← size_wholeLines, ← size_append, ← hbefore]

/-! ## Places on lines -/

/-- Of two texts of which one begins with the other, the longer one has more line feeds, or as many
and a longer last line. -/
theorem count_lt_or_lastLine_append (s t : Text) :
    s.count '\n' < (s ++ t).count '\n' ∨
      s.count '\n' = (s ++ t).count '\n' ∧ lastLine (s ++ t) = lastLine s ++ t := by
  by_cases ht : '\n' ∈ t
  · left
    rw [List.count_append]
    have hpos := List.count_pos_iff.mpr ht
    omega
  · right
    rw [List.count_append, List.count_eq_zero_of_not_mem ht]
    exact ⟨rfl, lastLine_append ht⟩

end TagTemplate.Text
