import Mathlib.Data.List.Basic
import TagTemplate.Proofs.Replay
import TagTemplate.Proofs.SyntaxError
import TagTemplate.Proofs.Tag.Place

/-!
# Columns of errors

An error shows its line without the carriage returns at the end, but counts its column on the line
as it stands in the template. The column still lies in the shown line, since no error is found
inside white space, with one exception: an error at the end of a template that ends in a carriage
return has its column behind the end of the shown line.
-/

namespace TagTemplate

open Text

def IsPlace (template : Text) (offset : Nat) : Prop :=
  ∃ before after, template = before ++ after ∧ size before = offset ∧ OutsideSpace before after

namespace Assembly

/-! ## Adding lexemes -/

/-- The assembly is at the place in the template from which `rest` is still to be read, and its open
sections were opened outside white space. -/
structure Stands (template : Text) (a : Assembly) (rest : Text) : Prop where
  exists_eq : ∃ before, template = before ++ rest ∧ size before = a.offset
  openedAt : ∀ block ∈ a.openBlocks, IsPlace template block.openedAt

theorem stands_start (template : Text) (log : List Event) : Stands template { log } template where
  exists_eq := ⟨[], rfl, rfl⟩
  openedAt := nofun

namespace Stands

variable {template t rest : Text} {a b : Assembly} {d : Delimiters} {lineStart : Bool}
  {failure : Failure}

theorem isPlace (h : Stands template a t) {piece : Text} (hends : EndsOutside t piece) :
    IsPlace template (a.offset + size piece) := by
  obtain ⟨before, rfl, hsize⟩ := h.exists_eq
  obtain ⟨after, rfl, hplace⟩ := hends
  exact ⟨before ++ piece, after, (List.append_assoc _ _ _).symm, by rw [size_append, hsize],
    hplace before⟩

theorem isPlace_of_closeFault? (h : Stands template a t) {kind : TagKind} {content : Text}
    {here offset : Nat} {fault : Fault} (hhere : IsPlace template here)
    (hfault : a.closeFault? kind content here = some (fault, offset)) :
    IsPlace template offset := by
  obtain ⟨-, ⟨-, -, rfl⟩ | ⟨top, blocks, hopen, -, -, rfl⟩⟩ := closeFault?_eq_some_iff.mp hfault
  · exact hhere
  · exact h.openedAt top (by simp [hopen])

variable [MarkerLimits]

theorem add (h : Stands template a t) (hd : d.Valid) (ht : t ≠ []) {lexeme : Lexeme}
    (hnext : next d lineStart t = .lexeme lexeme rest) (hadd : a.add lexeme = .ok b) :
    Stands template b rest where
  exists_eq := by
    obtain ⟨before, rfl, hsize⟩ := h.exists_eq
    refine ⟨before ++ lexeme.source, ?_, ?_⟩
    · rw [List.append_assoc, (next_append ht hnext).1]
    · rw [size_append, hsize, offset_add hadd]
  openedAt := by
    cases lexeme with
    | text t =>
        cases hadd
        exact h.openedAt
    | tag tag =>
        simp only [Assembly.add, addTag] at hadd
        split at hadd
        · cases hadd
        · cases hadd
          intro block hblock
          rcases mem_openBlocks_place hblock with hblock | ⟨inverted, -, hat⟩
          · exact h.openedAt block hblock
          · rw [hat]
            exact h.isPlace (endsOutside_of_next hd hnext).1

theorem isPlace_of_add (h : Stands template a t) (hd : d.Valid) {lexeme : Lexeme}
    (hnext : next d lineStart t = .lexeme lexeme rest) (hadd : a.add lexeme = .error failure) :
    IsPlace template failure.offset := by
  cases lexeme with
  | text t => cases hadd
  | tag tag =>
      have hhere := h.isPlace (endsOutside_of_next hd hnext).2
      rw [size_append, ← Nat.add_assoc] at hhere
      simp only [Assembly.add, addTag] at hadd
      split at hadd
      · rename_i fault offset hfault
        cases hadd
        exact h.isPlace_of_closeFault? hhere hfault
      · cases hadd

theorem isPlace_of_addBroken {α : Type} (h : Stands template a t) (hd : d.Valid) {tag : BrokenTag}
    (hnext : next d lineStart t = .broken tag)
    (hadd : (a.addBroken tag : Except Failure α) = .error failure) :
    IsPlace template failure.offset := by
  obtain ⟨hfront, hback⟩ := endsOutside_of_next_broken hd hnext
  have hhere := h.isPlace hfront
  have hend := h.isPlace hback
  simp only [size_append, ← Nat.add_assoc] at hhere hend
  unfold addBroken at hadd
  cases hhead : tag.head? with
  | none =>
      simp only [hhead] at hadd
      cases hadd
      exact hhere
  | some head =>
      simp only [hhead] at hadd
      split at hadd
      · rename_i fault offset hfault
        cases hadd
        exact h.isPlace_of_closeFault? hhere hfault
      · cases hadd
        exact hend

/-- Wherever a template cannot be put together, and wherever a section is left open, is a place
outside white space. -/
theorem ofLexemes (h : Stands template a t) (hd : d.Valid ∧ d.withinLimit = true)
    (lineStart : Bool) :
    (∀ b, a.ofLexemes (Lexemes.readFrom d lineStart t []) = .ok b →
      ∀ block ∈ b.openBlocks, IsPlace template block.openedAt) ∧
    ∀ failure, a.ofLexemes (Lexemes.readFrom d lineStart t []) = .error failure →
      IsPlace template failure.offset := by
  -- By induction on what is left to read: `add` carries the invariant over each lexeme, and the
  -- pair in force stays a valid one.
  induction hn : t.length using Nat.strongRecOn generalizing a d lineStart t with
  | ind n ih =>
      by_cases ht : t = []
      · subst ht
        rw [Lexemes.readFrom_nil]
        constructor
        · intro b hb
          cases hb
          exact h.openedAt
        · nofun
      · cases hnext : next d lineStart t with
        | broken tag =>
            rw [Lexemes.readFrom_of_broken ht hnext]
            constructor
            · intro b hb
              exact absurd hb (addBroken_ne_ok a tag b)
            · intro failure hfailure
              exact h.isPlace_of_addBroken hd.1 hnext hfailure
        | lexeme lexeme rest =>
            have hlt := next_length_lt ht hnext
            rw [Lexemes.readFrom_of_lexeme ht hnext, Lexemes.readFrom_seen, List.reverse_singleton,
              List.singleton_append, ofLexemes_cons]
            cases hadd : a.add lexeme with
            | error failure =>
                constructor
                · nofun
                · intro failure' heq
                  cases heq
                  exact h.isPlace_of_add hd.1 hnext hadd
            | ok b =>
                exact ih rest.length (by omega) (h.add hd.1 ht hnext hadd)
                  (valid_delimitersAfter hd hnext) _ rfl

end Stands

theorem isPlace_of_finish {template : Text} {a : Assembly} {failure : Failure}
    (hopen : ∀ block ∈ a.openBlocks, IsPlace template block.openedAt)
    (h : a.finish = .error failure) : IsPlace template failure.offset := by
  unfold finish at h
  split at h
  · cases h
  · rename_i block blocks hblocks
    cases h
    exact hopen block (by simp [hblocks])

end Assembly

/-! ## Answers -/

section

variable [MarkerLimits]

theorem exists_isPlace_of_compile {d : Delimiters} {template : String} {e : SyntaxError}
    (hd : d.Valid) (h : compile d template = .error e) :
    ∃ offset, e = SyntaxError.locate template offset e.message ∧
      IsPlace template.toList offset := by
  cases hlimit : d.withinLimit with
  | false =>
      rw [compile_of_not_withinLimit hlimit] at h
      cases h
      exact ⟨0, rfl, [], template.toList, rfl, rfl, .inl nofun⟩
  | true =>
      obtain ⟨hopen, hfailure⟩ := (Assembly.stands_start template.toList
        [.started template.utf8ByteSize]).ofLexemes ⟨hd, hlimit⟩ true
      rw [compile_of_withinLimit hlimit] at h
      obtain ⟨failure, hfails, rfl⟩ := answerOf_eq_error_iff.mp h
      refine ⟨failure.offset, rfl, ?_⟩
      cases hassembled : Assembly.ofLexemes { log := [.started template.utf8ByteSize] }
          (Lexemes.read d template.toList) with
      | error failure' =>
          rw [hassembled] at hfails
          cases hfails
          exact hfailure failure hassembled
      | ok a =>
          rw [hassembled] at hfails
          exact Assembly.isPlace_of_finish (hopen a hassembled) hfails

/-- An error names a line of the template and a place in the line that it shows, unless it is found
at the end of a template that ends in a carriage return. -/
theorem compile_pointsIntoLine {d : Delimiters} {template : String} {e : SyntaxError}
    (hd : d.Valid) (h : compile d template = .error e) :
    1 ≤ e.line ∧ e.line ≤ template.toList.count '\n' + 1 ∧
      (e.PointsIntoLine ↔ ¬ (template.toList.getLast? = some '\r' ∧
        e = SyntaxError.locate template template.utf8ByteSize e.message)) := by
  obtain ⟨offset, hlocated, before, after, ht, rfl, hplace⟩ := exists_isPlace_of_compile hd h
  have hline : e.line = before.count '\n' + 1 := by
    rw [hlocated, SyntaxError.locate_of_append ht]
  refine ⟨by omega, ?_, ?_⟩
  · rw [hline, ht, List.count_append]
    omega
  · constructor
    · intro hpoints hend
      rw [hend.2] at hpoints
      exact SyntaxError.not_pointsIntoLine_locate_end hend.1 e.message hpoints
    · intro hend
      rw [hlocated]
      refine SyntaxError.pointsIntoLine_locate ht hplace ?_ e.message
      intro hnil hlast
      rw [hnil, List.append_nil] at ht
      rw [← ht, size_toList] at hlocated
      exact hend ⟨hlast, hlocated⟩

end

/-- A carriage return before the end of the template leaves the column in the line. -/
theorem compile_pointsIntoLine_unclosed :
    compile .standard "one\r\né\x7b\x7ba " = .error ⟨"Unclosed tag", 2, 6, "é\x7b\x7ba "⟩ ∧
      SyntaxError.PointsIntoLine ⟨"Unclosed tag", 2, 6, "é\x7b\x7ba "⟩ := by
  have h : compile .standard "one\r\né\x7b\x7ba " =
      .error ⟨"Unclosed tag", 2, 6, "é\x7b\x7ba "⟩ := by
    rw [compile_eq_evaluate]
    decide +kernel
  obtain ⟨-, -, hpoints⟩ := compile_pointsIntoLine Delimiters.standard_valid h
  exact ⟨h, hpoints.mpr fun hend => absurd hend.1 (by decide)⟩

/-- The column counts a carriage return at the end of the template, which the shown line leaves
out. -/
theorem compile_column_beyond_line :
    compile .standard "\x7b\x7ba \r" = .error ⟨"Unclosed tag", 1, 5, "\x7b\x7ba "⟩ ∧
      "\x7b\x7ba ".utf8ByteSize = 4 ∧
      ¬ SyntaxError.PointsIntoLine ⟨"Unclosed tag", 1, 5, "\x7b\x7ba "⟩ := by
  rw [compile_eq_evaluate]
  decide +kernel

end TagTemplate
