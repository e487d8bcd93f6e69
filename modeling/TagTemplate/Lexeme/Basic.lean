import TagTemplate.Lexeme.Boundary
import TagTemplate.Tag.Reader

/-!
# Lexemes

A template is a sequence of lexemes: runs of text and tags. What comes next depends on the pair
in force and on whether a line starts here, and on nothing else before it. A lexeme is never
empty, and what follows it is what remains of the template.
-/

namespace TagTemplate

inductive Lexeme where
  | text (text : Text)
  | tag (tag : Tag)
deriving DecidableEq, Repr, Inhabited

namespace Lexeme

def source : Lexeme → Text
  | text t => t
  | tag t => t.source

def delimitersAfter (d : Delimiters) : Lexeme → Delimiters
  | tag { directive := .setDelimiters _ pair, .. } => pair
  | _ => d

def startsLineAfter (lexeme : Lexeme) : Bool := lexeme.source.getLast? == some '\n'

end Lexeme

/-! ## The next lexeme -/

inductive Next where
  | lexeme (lexeme : Lexeme) (rest : Text)
  | broken (tag : BrokenTag)
deriving DecidableEq, Repr, Inhabited

variable [MarkerLimits]

/-- Read the tag whose opening marker stands between `indent` and `t`. -/
def readTag (d : Delimiters) (lineStart : Bool) (indent t : Text) : Next :=
  let opener := d.opener.toList
  let closer := d.closer.toList
  match TagHead.reader closer t with
  | .error stop => .broken ⟨indent, opener ++ stop.read, [], none, stop.fault⟩
  | .ok head =>
      let front := opener ++ head.read
      match Directive.reader closer head.value head.rest with
      | .error stop => .broken ⟨indent, front, stop.read, some head.value, stop.fault⟩
      | .ok directive =>
          let alone :=
            if lineStart && ! directive.value.isInterpolation then splitLineBreak? directive.rest
            else none
          let tag : Tag :=
            { delimiters := d
              indent
              front
              back := directive.read
              lineBreak := (alone.map (·.1)).getD []
              directive := directive.value
              opensLine := lineStart
              standsAlone := alone.isSome }
          .lexeme (.tag tag) ((alone.map (·.2)).getD directive.rest)

/-- Read the next lexeme of a template that goes on with `t`. -/
def next (d : Delimiters) (lineStart : Bool) (t : Text) : Next :=
  match splitOpening d.opener.toList t with
  | some (indent, rest) => readTag d lineStart indent rest
  | none =>
      let (text, rest) := splitText d.opener.toList t
      .lexeme (.text text) rest

theorem readTag_append {d : Delimiters} {lineStart : Bool} {indent t rest : Text} {lexeme : Lexeme}
    (h : readTag d lineStart indent t = .lexeme lexeme rest) :
    lexeme.source ++ rest = indent ++ d.opener.toList ++ t ∧ lexeme.source ≠ [] := by
  unfold readTag at h
  cases hh : TagHead.reader d.closer.toList t with
  | error stop => simp [hh] at h
  | ok head =>
      simp only [hh] at h
      cases hd : Directive.reader d.closer.toList head.value head.rest with
      | error stop => simp [hd] at h
      | ok directive =>
          have hhead := (TagHead.reader_faithful _).append hh
          have hdir := (Directive.reader_faithful _ _).append hd
          have hne := TagHead.reader_read_ne_nil hh
          simp only [hd, Next.lexeme.injEq] at h
          obtain ⟨rfl, rfl⟩ := h
          refine ⟨?_, by simp [Lexeme.source, Tag.source, hne]⟩
          generalize ha : (if (lineStart && !directive.value.isInterpolation) = true then
            splitLineBreak? directive.rest else none) = alone
          have hrest : (alone.map (·.1)).getD [] ++ (alone.map (·.2)).getD directive.rest =
              directive.rest := by
            cases alone with
            | none => rfl
            | some pair =>
                split at ha
                · exact splitLineBreak?_append ha
                · simp at ha
          simp only [Lexeme.source, Tag.source, List.append_assoc]
          rw [hrest, hdir, hhead]

/-- A lexeme is a piece of the template in front of what follows, and not an empty one. -/
theorem next_append {d : Delimiters} {lineStart : Bool} {t rest : Text} {lexeme : Lexeme}
    (ht : t ≠ []) (h : next d lineStart t = .lexeme lexeme rest) :
    lexeme.source ++ rest = t ∧ lexeme.source ≠ [] := by
  unfold next at h
  cases hs : splitOpening d.opener.toList t with
  | some pair =>
      obtain ⟨indent, after⟩ := pair
      simp only [hs] at h
      rw [← splitOpening_append hs]
      exact readTag_append h
  | none =>
      simp only [hs, Next.lexeme.injEq] at h
      obtain ⟨rfl, rfl⟩ := h
      exact ⟨splitText_append _ _, splitText_ne_nil ht⟩

theorem next_length_lt {d : Delimiters} {lineStart : Bool} {t rest : Text} {lexeme : Lexeme}
    (ht : t ≠ []) (h : next d lineStart t = .lexeme lexeme rest) : rest.length < t.length := by
  obtain ⟨ha, hne⟩ := next_append ht h
  have := List.length_pos_iff.mpr hne
  rw [← ha, List.length_append]
  omega

end TagTemplate
