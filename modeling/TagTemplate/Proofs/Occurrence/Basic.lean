import TagTemplate.Proofs.Evaluation
import TagTemplate.Proofs.Lexeme.Reading

/-!
# Occurrences of tags

An occurrence is a tag and the region of the template that it spans, marker to marker. All else
about it is told from the template alone: what stands before it on its line, which line break
follows it, and what a compile erases on its account.
-/

namespace TagTemplate

namespace Text

def lineBreakAt (n : Nat) (t : Text) : Option Text :=
  match slice n (size t) t with
  | [] => some []
  | '\n' :: _ => some ['\n']
  | '\r' :: '\n' :: _ => some ['\r', '\n']
  | _ => none

theorem lineBreakAt_eq (before after : Text) :
    lineBreakAt (size before) (before ++ after) = (splitLineBreak? after).map (·.1) := by
  rw [lineBreakAt, slice_size_append]
  fun_cases splitLineBreak? after with
  | case1 => rfl
  | case2 t => rfl
  | case3 t => rfl
  | case4 t hnil hfeed hreturn =>
      split
      · exact absurd rfl hnil
      · exact absurd rfl (hfeed _)
      · exact absurd rfl (hreturn _)
      · rfl

end Text

structure Occurrence where
  /-- Offset of the opening marker. -/
  start : Nat
  /-- Offset just past the closing marker. -/
  stop : Nat
  /-- The pair with which the tag was read. -/
  delimiters : Delimiters
  directive : Directive
deriving DecidableEq, Repr

namespace Occurrence

def ofTag (offset : Nat) (tag : Tag) : Occurrence where
  start := offset + Text.size tag.indent
  stop := offset + Text.size tag.indent + Text.size tag.written
  delimiters := tag.delimiters
  directive := tag.directive

def listFrom : (offset : Nat) → List Lexeme → List Occurrence
  | _, [] => []
  | offset, .text t :: lexemes => listFrom (offset + Text.size t) lexemes
  | offset, .tag tag :: lexemes =>
      ofTag offset tag :: listFrom (offset + Text.size tag.source) lexemes

section

variable [MarkerLimits]

/-- The tags of a template in order, when it is read with `d` at first. -/
def list (d : Delimiters) (template : String) : List Occurrence :=
  listFrom 0 (Lexemes.read d template.toList).lexemes

theorem list_eq_listFrom_readWithin (d : Delimiters) (template : String) :
    list d template = listFrom 0
      (Lexemes.readWithin template.toList.length d true template.toList).lexemes := by
  rw [list, Lexemes.read, Lexemes.readFrom_eq_readWithin (Nat.le_refl _)]

end

/-! ## What stands around a tag -/

/-- Only spaces and tabs precede the tag on its line. -/
def opensLine (t : Text) (o : Occurrence) : Bool := (Text.lineBefore o.start t).all isIndent

def indentation (t : Text) (o : Occurrence) : Text :=
  if o.opensLine t then Text.lineBefore o.start t else []

/-- The line goes with the tag: the tag shows no value, only spaces and tabs precede it, and a line
break or the end of the template follows it. -/
def ownsLine (t : Text) (o : Occurrence) : Bool :=
  ! o.directive.isInterpolation && o.opensLine t && (Text.lineBreakAt o.stop t).isSome

/-- Where the erased region starts: at the tag, or at its line if the line goes with it. -/
def eraseStart (t : Text) (o : Occurrence) : Nat :=
  if o.ownsLine t then o.start - Text.size (Text.lineBefore o.start t) else o.start

/-- Where the erased region stops: past the tag, and past the line break if it goes with the tag. -/
def eraseStop (t : Text) (o : Occurrence) : Nat :=
  if o.ownsLine t then o.stop + Text.size ((Text.lineBreakAt o.stop t).getD []) else o.stop

/-- The tag takes the byte at the offset out of the template. -/
def erases (t : Text) (o : Occurrence) (n : Nat) : Bool :=
  o.eraseStart t ≤ n && n < o.eraseStop t

/-! ## Occurrences and lexemes -/

theorem listFrom_append (offset : Nat) (lexemes lexemes' : List Lexeme) :
    listFrom offset (lexemes ++ lexemes') =
      listFrom offset lexemes ++ listFrom (offset + Text.size (sourceOf lexemes)) lexemes' := by
  induction lexemes generalizing offset with
  | nil => simp [listFrom]
  | cons lexeme lexemes ih =>
      cases lexeme with
      | text t => simp [listFrom, ih, Lexeme.source, Nat.add_assoc]
      | tag tag => simp [listFrom, ih, Lexeme.source, Nat.add_assoc]

theorem mem_listFrom_iff {offset : Nat} {lexemes : List Lexeme} {o : Occurrence} :
    o ∈ listFrom offset lexemes ↔ ∃ before tag after, lexemes = before ++ .tag tag :: after ∧
      o = ofTag (offset + Text.size (sourceOf before)) tag := by
  constructor
  · intro h
    induction lexemes generalizing offset with
    | nil => cases h
    | cons lexeme lexemes ih =>
        cases lexeme with
        | text t =>
            obtain ⟨before, tag, after, rfl, rfl⟩ := ih h
            exact ⟨.text t :: before, tag, after, rfl, by simp [Lexeme.source, Nat.add_assoc]⟩
        | tag tag =>
            rcases List.mem_cons.mp h with rfl | h
            · exact ⟨[], tag, lexemes, rfl, by simp⟩
            · obtain ⟨before, tag', after, rfl, rfl⟩ := ih h
              exact ⟨.tag tag :: before, tag', after, rfl,
                by simp [Lexeme.source, Nat.add_assoc]⟩
  · intro h
    rcases h with ⟨before, tag, after, rfl, rfl⟩
    rw [listFrom_append]
    exact List.mem_append_right _ List.mem_cons_self

theorem bounds_of_mem_listFrom {offset : Nat} {lexemes : List Lexeme} {o : Occurrence}
    (h : o ∈ listFrom offset lexemes) :
    offset ≤ o.start ∧ o.start ≤ o.stop ∧ o.stop ≤ offset + Text.size (sourceOf lexemes) := by
  obtain ⟨before, tag, after, rfl, rfl⟩ := mem_listFrom_iff.mp h
  simp only [ofTag, sourceOf_append, sourceOf_cons, Lexeme.source, Tag.source, Tag.written,
    Text.size_append]
  omega

theorem pairwise_listFrom (offset : Nat) (lexemes : List Lexeme) :
    (listFrom offset lexemes).Pairwise (·.stop ≤ ·.start) := by
  induction lexemes generalizing offset with
  | nil => exact .nil
  | cons lexeme lexemes ih =>
      cases lexeme with
      | text t => exact ih _
      | tag tag =>
          refine .cons ?_ (ih _)
          intro o ho
          have := (bounds_of_mem_listFrom ho).1
          simp only [ofTag, Tag.source, Tag.written, Text.size_append] at this ⊢
          omega

end Occurrence

end TagTemplate
