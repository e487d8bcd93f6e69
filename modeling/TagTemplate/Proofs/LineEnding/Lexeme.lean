import TagTemplate.Proofs.LineEnding.Tag
import TagTemplate.Proofs.Tag.Fault

/-!
# Lexemes in both spellings

A line starts after a line feed, whatever stands before it, and a tag that is alone on its line
takes either line end with it. So the lexemes of a template with its line ends spelled out are the
template's lexemes with theirs spelled out.
-/

namespace TagTemplate

open Text

/-! ## Boundaries -/

section Boundary

variable {opener : Text}

theorem isInline_of_isIndent {indent : Text} (h : ∀ c ∈ indent, isIndent c = true) :
    IsInline indent :=
  isInline_of_forall (by decide) (by decide) h

theorem splitOpening_crlf (ho : Delimiters.isMarker opener = true) (t : Text) :
    splitOpening opener (crlf t) = (splitOpening opener t).map fun parts =>
      (parts.1, crlf parts.2) := by
  cases hs : splitOpening opener t with
  | some parts =>
      obtain ⟨rfl, hindent⟩ := (splitOpening_eq_some_iff ho).mp (Prod.eta parts ▸ hs)
      refine (splitOpening_eq_some_iff ho).mpr ⟨?_, hindent⟩
      rw [crlf_append, crlf_append, (isInline_of_isIndent hindent).crlf_eq,
        (isInline_of_isMarker ho).crlf_eq]
  | none =>
      refine (splitOpening_eq_none_iff ho).mpr ?_
      intro indent rest ht hindent
      have hinline : IsInline (indent ++ opener) := by
        obtain ⟨hr, hn⟩ := isInline_of_isIndent hindent
        obtain ⟨hr', hn'⟩ := isInline_of_isMarker ho
        exact ⟨by simp [hr, hr'], by simp [hn, hn']⟩
      obtain ⟨rest', ht'⟩ := (prefix_crlf_iff hinline).mp ⟨rest, ht.symm⟩
      exact (splitOpening_eq_none_iff ho).mp hs indent rest' ht'.symm hindent

theorem opensHere_crlf (ho : Delimiters.isMarker opener = true) (lineStart : Bool) (t : Text) :
    opensHere opener lineStart (crlf t) = opensHere opener lineStart t := by
  rw [opensHere, isPrefixOf_crlf (isInline_of_isMarker ho), splitOpening_crlf ho,
    Option.isSome_map, opensHere]

theorem opensHere_newline (ho : Delimiters.isMarker opener = true) (lineStart : Bool) (t : Text) :
    opensHere opener lineStart ('\n' :: t) = false := by
  rw [Bool.eq_false_iff]
  intro hopens
  obtain ⟨indent, rest, ht, hindent, -⟩ := (opensHere_iff ho).mp hopens
  have hfeed := (isInline_of_isMarker ho).2
  cases indent with
  | nil =>
      cases opener with
      | nil => cases ho
      | cons c opener =>
          obtain ⟨rfl, -⟩ := List.cons.inj ht
          exact hfeed List.mem_cons_self
  | cons c indent =>
      obtain ⟨rfl, -⟩ := List.cons.inj ht
      have hblank := hindent '\n' List.mem_cons_self
      cases hblank

theorem splitText_go_crlf (ho : Delimiters.isMarker opener = true) (lineStart : Bool)
    (t seen : Text) :
    splitText.go opener lineStart (crlf t) (crlf seen.reverse).reverse =
      (crlf (splitText.go opener lineStart t seen).1,
        crlf (splitText.go opener lineStart t seen).2) := by
  fun_induction crlf t generalizing lineStart seen with
  | case1 => simp [splitText.go]
  | case2 t ih =>
      have hreturn : opensHere opener lineStart ('\r' :: '\n' :: crlf t) = false := by
        rw [← crlf_newline, opensHere_crlf ho, opensHere_newline ho]
      have hseen : '\n' :: '\r' :: (crlf seen.reverse).reverse =
          (crlf ('\n' :: seen).reverse).reverse := by simp
      simp only [splitText.go, hreturn, opensHere_newline ho, Bool.false_eq_true, if_false, hseen]
      exact ih true ('\n' :: seen)
  | case3 c t hc ih =>
      have hsame : opensHere opener lineStart (c :: crlf t) =
          opensHere opener lineStart (c :: t) := by rw [← crlf_cons hc, opensHere_crlf ho]
      have hseen : c :: (crlf seen.reverse).reverse = (crlf (c :: seen).reverse).reverse := by
        simp [crlf_cons hc]
      simp only [splitText.go, hsame]
      split
      · simp [crlf_cons hc]
      · rw [hseen]
        exact ih (c == '\n') (c :: seen)

theorem splitText_crlf (ho : Delimiters.isMarker opener = true) (t : Text) :
    splitText opener (crlf t) = (crlf (splitText opener t).1, crlf (splitText opener t).2) := by
  fun_cases crlf t with
  | case1 => rfl
  | case2 t =>
      have hgo := splitText_go_crlf ho true t ['\n']
      simp only [splitText, splitText.go, opensHere_newline ho, Bool.false_eq_true, if_false]
      exact hgo
  | case3 c t hc =>
      have hgo := splitText_go_crlf ho (c == '\n') t [c]
      simp only [List.reverse_singleton, crlf_cons hc, crlf_nil] at hgo
      exact hgo

theorem splitLineBreak?_crlf {t : Text} (h : '\r' ∉ t) :
    splitLineBreak? (crlf t) = (splitLineBreak? t).map fun parts =>
      (crlf parts.1, crlf parts.2) := by
  fun_cases crlf t with
  | case1 => rfl
  | case2 t => rfl
  | case3 c t hc =>
      have hreturn : c ≠ '\r' := by
        rintro rfl
        exact h List.mem_cons_self
      have hno : ∀ u, splitLineBreak? (c :: u) = none := by
        intro u
        unfold splitLineBreak?
        split
        · simp_all
        · simp_all
        · simp_all
        · rfl
      rw [hno, hno, Option.map_none]

end Boundary

/-! ## One lexeme -/

/-- The tag with its line ends spelled out. -/
def Tag.withCrlf (tag : Tag) : Tag :=
  { tag with
    front := crlf tag.front
    back := crlf tag.back
    lineBreak := crlf tag.lineBreak
    directive := tag.directive.withCrlf }

def BrokenTag.withCrlf (tag : BrokenTag) : BrokenTag :=
  { tag with
    front := crlf tag.front
    back := crlf tag.back
    head? := tag.head?.map TagHead.withCrlf }

def Lexeme.withCrlf : Lexeme → Lexeme
  | text t => text (crlf t)
  | tag t => tag t.withCrlf

def Next.withCrlf : Next → Next
  | lexeme x rest => lexeme x.withCrlf (crlf rest)
  | broken tag => broken tag.withCrlf

theorem isInterpolation_withCrlf (directive : Directive) :
    directive.withCrlf.isInterpolation = directive.isInterpolation := by
  cases directive <;> rfl

section Next

variable [MarkerLimits] {d : Delimiters} {lineStart : Bool} {t : Text}

theorem readTag_crlf (hd : d.Valid) (h : '\r' ∉ t) (indent : Text) :
    readTag d lineStart indent (crlf t) = (readTag d lineStart indent t).withCrlf := by
  have hopener := (isInline_of_isMarker hd.1).crlf_eq
  unfold readTag
  dsimp only
  rw [TagHead.mirrors_reader hd.2 t]
  cases hhead : TagHead.reader d.closer.toList t with
  | error stop =>
      simp [Except.map, Next.withCrlf, BrokenTag.withCrlf, Stop.withCrlf, hopener]
  | ok head =>
      have hhead' := (TagHead.reader_faithful _).append hhead
      dsimp only [Except.map, mapError_ok, Reading.withCrlf]
      rw [Directive.mirrors_reader (isInline_of_isMarker hd.2) head.value head.rest]
      cases hdirective : Directive.reader d.closer.toList head.value head.rest with
      | error stop =>
          simp [Except.map, Next.withCrlf, BrokenTag.withCrlf, Stop.withCrlf, hopener]
      | ok directive =>
          have hdirective' := (Directive.reader_faithful _ _).append hdirective
          have hreturn : '\r' ∉ directive.rest := by
            intro hmem
            rw [← hhead', ← hdirective'] at h
            exact h (List.mem_append_right _ (List.mem_append_right _ hmem))
          simp only [Except.map, mapError_ok, Reading.withCrlf, isInterpolation_withCrlf,
            splitLineBreak?_crlf hreturn, Next.withCrlf, Lexeme.withCrlf, Tag.withCrlf]
          generalize (lineStart && ! directive.value.isInterpolation) = mayStandAlone
          cases mayStandAlone with
          | false => simp [hopener]
          | true =>
              cases splitLineBreak? directive.rest with
              | none => simp [hopener]
              | some parts => simp [hopener]

theorem next_crlf (hd : d.Valid) (h : '\r' ∉ t) :
    next d lineStart (crlf t) = (next d lineStart t).withCrlf := by
  unfold next
  rw [splitOpening_crlf hd.1]
  cases hs : splitOpening d.opener.toList t with
  | none =>
      dsimp only [Option.map_none]
      rw [splitText_crlf hd.1]
      rfl
  | some parts =>
      have happ := splitOpening_append (Prod.eta parts ▸ hs)
      refine readTag_crlf hd ?_ parts.1
      intro hmem
      exact h (happ ▸ List.mem_append_right _ hmem)

end Next

/-! ## All lexemes -/

/-- The indentation of a tag holds no line ends. -/
def Lexeme.IndentIsInline : Lexeme → Prop
  | text _ => True
  | tag t => IsInline t.indent

theorem indentIsInline_of_next [MarkerLimits] {d : Delimiters} {lineStart : Bool} {t rest : Text}
    {x : Lexeme} (h : next d lineStart t = .lexeme x rest) : x.IndentIsInline := by
  cases x with
  | text t => trivial
  | tag tag =>
      obtain ⟨indent, u, hopen, hread⟩ := next_eq_tag_iff.mp h
      obtain ⟨head, directive, -, -, htag, -⟩ := readTag_eq_lexeme_iff.mp hread
      cases htag
      exact isInline_of_isIndent (splitOpening_indent hopen)

theorem source_withCrlf {x : Lexeme} (h : x.IndentIsInline) :
    x.withCrlf.source = crlf x.source := by
  cases x with
  | text t => rfl
  | tag tag => simp [Lexeme.withCrlf, Lexeme.source, Tag.source, Tag.withCrlf, h.crlf_eq]

theorem startsLineAfter_withCrlf {x : Lexeme} (h : x.IndentIsInline) :
    x.withCrlf.startsLineAfter = x.startsLineAfter := by
  rw [Lexeme.startsLineAfter, source_withCrlf h, getLast?_crlf, Lexeme.startsLineAfter]

theorem delimitersAfter_withCrlf (d : Delimiters) (x : Lexeme) :
    x.withCrlf.delimitersAfter d = x.delimitersAfter d := by
  cases x with
  | text t => rfl
  | tag tag =>
      rw [Lexeme.withCrlf, delimitersAfter_tag, delimitersAfter_tag, Tag.withCrlf]
      cases tag.directive <;> rfl

def Lexemes.withCrlf (lexemes : Lexemes) : Lexemes where
  lexemes := lexemes.lexemes.map Lexeme.withCrlf
  broken? := lexemes.broken?.map BrokenTag.withCrlf

variable [MarkerLimits]

/-- The lexemes of a template are the same in both spellings. -/
theorem readFrom_crlf {d : Delimiters} {lineStart : Bool} {t : Text}
    (hd : d.Valid ∧ d.withinLimit = true) (h : '\r' ∉ t) :
    Lexemes.readFrom d lineStart (crlf t) [] = (Lexemes.readFrom d lineStart t []).withCrlf := by
  induction hn : t.length using Nat.strongRecOn generalizing d lineStart t with
  | ind n ih =>
      by_cases ht : t = []
      · subst ht
        simp [Lexemes.withCrlf]
      · have ht' : crlf t ≠ [] := mt crlf_eq_nil_iff.mp ht
        have hnext' := @next_crlf _ d lineStart t hd.1 h
        cases hnext : next d lineStart t with
        | broken tag =>
            rw [hnext] at hnext'
            rw [Lexemes.readFrom_of_broken ht hnext, Lexemes.readFrom_of_broken ht' hnext']
            rfl
        | lexeme x rest =>
            rw [hnext] at hnext'
            have hlt := next_length_lt ht hnext
            have happ := (next_append ht hnext).1
            have hindent := indentIsInline_of_next hnext
            have hrest : '\r' ∉ rest := fun hmem => h (happ ▸ List.mem_append_right _ hmem)
            have hmore := @ih rest.length (by omega) (x.delimitersAfter d) x.startsLineAfter rest
              (valid_delimitersAfter hd hnext) hrest rfl
            rw [Lexemes.readFrom_of_lexeme ht hnext, Lexemes.readFrom_of_lexeme ht' hnext',
              Lexemes.readFrom_seen, delimitersAfter_withCrlf, startsLineAfter_withCrlf hindent,
              hmore, Lexemes.readFrom_seen (x.delimitersAfter d) x.startsLineAfter rest [x]]
            simp [Lexemes.withCrlf]

end TagTemplate
