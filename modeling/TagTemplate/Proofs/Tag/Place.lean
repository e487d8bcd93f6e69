import TagTemplate.Proofs.Reader.Place
import TagTemplate.Proofs.Tag.Fault

/-!
# Where a tag is broken

The front of a tag ends with its content, and no content ends in white space. White space inside a
tag is passed over before anything else is looked for. So whatever is wrong with a tag is found
outside white space.
-/

namespace TagTemplate

open Text Reader

/-! ## Arguments -/

namespace ArgumentToken

theorem stopsRun_reverse_of_cutQuoted? {t piece rest : Text}
    (h : cutQuoted? t = some (piece, rest)) : piece ≠ [] ∧ StopsRun isSpace piece.reverse := by
  obtain ⟨quote, inner, hquote, -, rfl, -⟩ := cutQuoted?_eq_some_iff.mp h
  refine ⟨List.cons_ne_nil _ _, ?_⟩
  rw [List.reverse_append]
  exact stopsRun_cons (isSpace_eq_false_of_isQuote hquote)

theorem stopsRun_reverse_of_cutWord? {stop t piece rest : Text}
    (h : cutWord? stop t = some (piece, rest)) : piece ≠ [] ∧ StopsRun isSpace piece.reverse := by
  obtain ⟨-, hne, hin, -⟩ := cutWord?_eq_some_iff.mp h
  exact ⟨hne, stopsRun_reverse_of_forall fun c hc =>
    isSpace_eq_false_of_isBare (isBare_of_inWord (hin c hc))⟩

/-- A token ends with a quote or with a character of a word. -/
theorem stopsRun_reverse_of_cut? {stop t piece rest : Text} (h : cut? stop t = some (piece, rest)) :
    StopsRun isSpace piece.reverse := by
  rcases cut?_eq_some_iff.mp h with hquoted | ⟨hword, -⟩ | ⟨name, value, u, -, hvalue, rfl⟩
  · exact (stopsRun_reverse_of_cutQuoted? hquoted).2
  · exact (stopsRun_reverse_of_cutWord? hword).2
  · have hend : value ≠ [] ∧ StopsRun isSpace value.reverse := by
      rcases cutValue?_eq_some_iff.mp hvalue with hquoted | hword
      · exact stopsRun_reverse_of_cutQuoted? hquoted
      · exact stopsRun_reverse_of_cutWord? hword
    rw [List.append_cons]
    exact stopsRun_reverse_append hend.2 hend.1 _

theorem staysOutside_reader (stop : Text) : StaysOutside (reader stop) :=
  (staysOutside_cutting cut?_append stopsRun_reverse_of_cut?).bind
    (faithful_cutting cut?_append) fun token => by
      cases classify? token with
      | some argument => exact staysOutside_pure argument
      | none => exact staysOutside_fail _

theorem staysOutside_listReader (stop : Text) {close : Text}
    (hclose : StopsRun isSpace close.reverse) (scans : Nat) :
    StaysOutside (listReader stop close scans) := by
  induction scans with
  | zero => exact staysOutside_fail _
  | succ scans ih =>
      exact staysOutside_spaces.bind (faithful_takeWhile _) fun _ =>
        (staysOutside_skip? hclose).bind (faithful_skip? close) fun _ =>
          staysOutside_ite (staysOutside_pure []) <|
            (staysOutside_reader stop).bind (reader_faithful stop) fun token =>
              ih.bind (listReader_faithful stop close scans) fun tokens =>
                staysOutside_pure (token :: tokens)

end ArgumentToken

/-! ## The front of a tag -/

namespace TagHead

theorem stopsRun_reverse_of_cutFree? {sigil : Char} {closer t content rest : Text}
    (h : cutFree? sigil closer t = some (content, rest)) : StopsRun isSpace content.reverse := by
  obtain ⟨gap, after, -, -, -, hcontent, -⟩ := cutFree?_eq_some_iff.mp h
  exact hcontent

theorem staysOutside_sigilReader : StaysOutside sigilReader :=
  staysOutside_of_read sigilReader_faithful
    (fun {t x} h => by
      have hmark := sigilReader_eq_ok h
      cases hsigil : x.value with
      | some sigil =>
          rw [hsigil, IsMark] at hmark
          rw [hmark]
          exact stopsRun_cons sigil.isSpace_toChar
      | none =>
          rw [hsigil, IsMark] at hmark
          rw [hmark.1]
          exact nofun)
    fun h => ((faultsIn_sigilReader fun _ => False).fault h).elim

theorem staysOutside_contentReader (closer : Text) (sigil : Option Sigil) :
    StaysOutside (contentReader closer sigil) := by
  unfold contentReader
  split
  · exact staysOutside_cutting cutFree?_append stopsRun_reverse_of_cutFree?
  · exact staysOutside_cutting cutFree?_append stopsRun_reverse_of_cutFree?
  · exact staysOutside_takeWhile fun _ => isSpace_eq_false_of_isContent

theorem staysOutside_reader (closer : Text) : StaysOutside (reader closer) :=
  staysOutside_sigilReader.bind sigilReader_faithful fun sigil =>
    staysOutside_spaces.bind (faithful_takeWhile _) fun _ =>
      (staysOutside_contentReader closer sigil).bind (contentReader_faithful closer sigil) fun _ =>
        staysOutside_ite (staysOutside_fail _) (staysOutside_pure _)

end TagHead

/-! ## The rest of a tag -/

namespace Directive

variable {closer : Text}

theorem staysOutside_endReader (hc : Delimiters.isMarker closer = true) (sigil : Sigil)
    (directive : Directive) : StaysOutside (endReader sigil closer directive) := by
  have hsigil : StopsRun isSpace [sigil.toChar].reverse := stopsRun_cons sigil.isSpace_toChar
  exact staysOutside_spaces.bind (faithful_takeWhile _) fun _ =>
    (staysOutside_skip? hsigil).bind (faithful_skip? _) fun _ =>
      (staysOutside_expect (Delimiters.stopsRun_reverse_of_isMarker hc) _).bind
        (faithful_expect closer _) fun _ => staysOutside_pure directive

theorem staysOutside_interpolationReader (hc : Delimiters.isMarker closer = true)
    (form : InterpolationForm) (callee : Text) :
    StaysOutside (interpolationReader form closer callee) := by
  have hclose : StopsRun isSpace (form.close closer).reverse := by
    obtain ⟨s, hs⟩ := form.suffix_close closer
    rw [← hs]
    exact stopsRun_reverse_append (Delimiters.stopsRun_reverse_of_isMarker hc)
      (Delimiters.isMarker_iff.mp hc).1 s
  rw [interpolationReader_eq]
  exact (ArgumentToken.staysOutside_listReader closer hclose _).bind
    (ArgumentToken.listReader_faithful _ _ _) fun _ => staysOutside_pure _

variable [MarkerLimits]

theorem staysOutside_reader (hc : Delimiters.isMarker closer = true) (head : TagHead) :
    StaysOutside (reader closer head) := by
  unfold reader
  split
  iterate 3 exact staysOutside_interpolationReader hc _ _
  iterate 6 exact staysOutside_endReader hc _ _
  cases pair? head.content with
  | some pair => exact staysOutside_endReader hc _ _
  | none => exact staysOutside_fail _

end Directive

/-! ## Tags -/

section Next

variable [MarkerLimits] {d : Delimiters} {lineStart : Bool} {t rest : Text}

/-- The places at the start of a tag and behind its content. -/
theorem endsOutside_of_next {tag : Tag} (hd : d.Valid)
    (h : next d lineStart t = .lexeme (.tag tag) rest) :
    EndsOutside t tag.indent ∧ EndsOutside t (tag.indent ++ tag.front) := by
  obtain ⟨indent, u, hs, hread⟩ := next_eq_tag_iff.mp h
  obtain ⟨head, directive, hhead, -, htag, -⟩ := readTag_eq_lexeme_iff.mp hread
  cases htag
  have happ := (TagHead.reader_faithful d.closer.toList).append hhead
  have ht := splitOpening_append hs
  rw [← ht]
  constructor
  · rw [List.append_assoc]
    exact endsOutside_of_stopsRun (Delimiters.stopsRun_of_isMarker hd.1 u)
  · have hfront := (TagHead.staysOutside_reader _).rest
      (.inl (Delimiters.stopsRun_reverse_of_isMarker hd.1)) hhead
    have hne : d.opener.toList ++ head.read ≠ [] :=
      List.append_ne_nil_of_right_ne_nil _ (TagHead.reader_read_ne_nil hhead)
    have hplace := endsOutside_of_outsideSpace hfront hne indent
    simpa [Tag.ofReadings, happ] using hplace

/-- The places where something can be wrong with a tag that cannot be read to its end. -/
theorem endsOutside_of_next_broken {tag : BrokenTag} (hd : d.Valid)
    (h : next d lineStart t = .broken tag) :
    EndsOutside t (tag.indent ++ tag.front) ∧
      EndsOutside t (tag.indent ++ tag.front ++ tag.back) := by
  unfold next at h
  cases hs : splitOpening d.opener.toList t with
  | none => simp [hs] at h
  | some parts =>
      obtain ⟨indent, u⟩ := parts
      have ht := splitOpening_append hs
      have hopener : d.opener.toList ≠ [] := (Delimiters.isMarker_iff.mp hd.1).1
      have hstart : OutsideSpace d.opener.toList u :=
        .inl (Delimiters.stopsRun_reverse_of_isMarker hd.1)
      simp only [hs, readTag] at h
      cases hhead : TagHead.reader d.closer.toList u with
      | error stop =>
          simp only [hhead, Next.broken.injEq] at h
          subst h
          obtain ⟨after, rfl, hplace⟩ := (TagHead.staysOutside_reader _).stop hstart hhead
          have hends := endsOutside_of_outsideSpace hplace (by simp [hopener]) indent
          rw [← ht]
          simpa using hends
      | ok head =>
          cases hdirective : Directive.reader d.closer.toList head.value head.rest with
          | ok directive => simp [hhead, hdirective] at h
          | error stop =>
              simp only [hhead, hdirective, Next.broken.injEq] at h
              subst h
              have happ := (TagHead.reader_faithful d.closer.toList).append hhead
              have hfront := (TagHead.staysOutside_reader _).rest hstart hhead
              obtain ⟨after, hrest, hback⟩ :=
                (Directive.staysOutside_reader hd.2 _).stop hfront hdirective
              have hends := endsOutside_of_outsideSpace hfront (by simp [hopener]) indent
              have hends' := endsOutside_of_outsideSpace hback (by simp [hopener]) indent
              rw [← ht, ← happ]
              constructor
              · simpa using hends
              · rw [hrest]
                simpa using hends'

end Next

end TagTemplate
