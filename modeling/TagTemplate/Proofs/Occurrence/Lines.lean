import TagTemplate.Proofs.Occurrence.Basic

/-!
# Lines around occurrences

A tag is read as opening its line if and only if nothing but spaces and tabs precedes it there.
The reader looks no further back than the end of the lexeme before, so this takes an argument:
a run of text never ends among the blanks of an indented tag, and a tag ends with a marker. With
it, what a compile erases on account of a tag is what the template says.
-/

namespace TagTemplate

open Text

/-! ## The start of the line -/

theorem not_all_isIndent_lastLine {s u : Text} {c : Char} (hc : isIndent c = false)
    (hne : c ≠ '\n') (hu : '\n' ∉ u) : (lastLine (s ++ [c] ++ u)).all isIndent = false := by
  have hone : '\n' ∉ [c] ++ u := by
    intro h
    rcases List.mem_cons.mp h with h | h
    · exact hne h.symm
    · exact hu h
  rw [List.append_assoc, lastLine_append hone]
  simp [hc]

theorem newline_notMem_of_isIndent {indent : Text} (h : ∀ c ∈ indent, isIndent c = true) :
    '\n' ∉ indent := by
  intro hmem
  have := h '\n' hmem
  revert this
  decide

/-- After a tag with no line break of its own, the line holds the closing marker. -/
theorem not_all_isIndent_after_tag {d : Delimiters} {lineStart : Bool} {rest before indent : Text}
    {tag : Tag} (hd : d.Valid) (hplaced : tag.Placed d lineStart rest)
    (hline : endsLine tag.source = false) (hindent : ∀ c ∈ indent, isIndent c = true) :
    (lastLine (before ++ tag.source ++ indent)).all isIndent = false := by
  have hbreak : tag.lineBreak = [] := by
    cases halone : tag.standsAlone with
    | false => exact hplaced.lineBreak_eq_nil halone
    | true =>
        have hsplit := hplaced.lineBreak_eq halone
        rcases eq_of_splitLineBreak? hsplit with ⟨hnil, -⟩ | hends
        · exact hnil
        · have hne : tag.lineBreak ≠ [] := by
            intro hnil
            rw [hnil] at hends
            cases hends
          rw [Tag.source, endsLine_append hne, hends] at hline
          cases hline
  obtain ⟨hne, hspace⟩ := Delimiters.isMarker_iff.mp hd.2
  obtain ⟨front, hfront⟩ := hplaced.ends_closer
  have hlast : d.closer.toList = d.closer.toList.dropLast ++ [d.closer.toList.getLast hne] :=
    (List.dropLast_concat_getLast hne).symm
  have hmem := List.getLast_mem hne
  have hc : isIndent (d.closer.toList.getLast hne) = false :=
    isIndent_eq_false_of_isMarker hd.2 hmem
  have hcn : d.closer.toList.getLast hne ≠ '\n' := ne_of_isSpace (hspace _ hmem) (by decide)
  have hsource : tag.source = tag.indent ++ front ++ d.closer.toList := by
    rw [tag.source_eq, hbreak, List.append_nil, List.append_assoc, hfront]
  have := not_all_isIndent_lastLine (s := before ++ tag.indent ++ front ++
    d.closer.toList.dropLast) hc hcn (newline_notMem_of_isIndent hindent)
  rw [hsource, hlast]
  simpa using this

theorem not_all_isIndent_after_text {d : Delimiters} {t text rest before indent u : Text}
    (hd : d.Valid) (ht : t ≠ []) (hopen : splitOpening d.opener.toList t = none)
    (htext : splitText d.opener.toList t = (text, rest)) (hline : endsLine text = false)
    (hrest : rest = indent ++ d.opener.toList ++ u) (hindent : ∀ c ∈ indent, isIndent c = true) :
    (lastLine (before ++ text ++ indent)).all isIndent = false := by
  obtain ⟨rfl, hne, hfirst, -⟩ := (splitText_eq_iff ht).mp htext
  cases hall : (lastLine (before ++ text ++ indent)).all isIndent with
  | false => rfl
  | true =>
      obtain ⟨s, hs, hsline⟩ := exists_eq_append_lastLine text
      have hblank : ∀ c ∈ lastLine text ++ indent, isIndent c = true := by
        have hnl : '\n' ∉ lastLine text ++ indent := by
          intro h
          rcases List.mem_append.mp h with h | h
          · exact newline_notMem_lastLine text h
          · exact newline_notMem_of_isIndent hindent h
        rw [hs, List.append_assoc, List.append_assoc, ← List.append_assoc before,
          lastLine_append hnl] at hall
        rw [List.all_append, Bool.and_eq_true] at hall
        exact List.all_eq_true.mp (by simpa using hall.2)
      -- The blanks and the marker after them would have been a tag where the line starts.
      have hopening : splitOpening d.opener.toList (lastLine text ++ rest) =
          some (lastLine text ++ indent, u) :=
        (splitOpening_eq_some_iff hd.1).mpr ⟨by simp [hrest], hblank⟩
      by_cases hsnil : s = []
      · subst hsnil
        rw [List.nil_append] at hs
        rw [← hs, hopen] at hopening
        cases hopening
      · have hsend : endsLine s = true := endsLine_iff.mpr (hsline.resolve_left hsnil)
        have hlast : lastLine text ≠ [] := by
          intro h
          rw [h, List.append_nil] at hs
          rw [hs, hsend] at hline
          cases hline
        have hno := hfirst s (lastLine text) hs hsnil hlast
        rw [hsend, opensHere_lineStart hd.1, hopening] at hno
        cases hno

variable [MarkerLimits]

/-- A line starts where a tag's lexeme starts if and only if only blanks precede the tag on its
line. -/
theorem startsLine_eq_all_isIndent {d : Delimiters} {template : Text} {before after : List Lexeme}
    {tag : Tag} (hd : d.Valid ∧ d.withinLimit = true)
    (h : Lexes d true template (before ++ .tag tag :: after)) :
    startsLine (sourceOf before) = (lastLine (sourceOf before ++ tag.indent)).all isIndent := by
  have hplaced := h.placed hd
  have hnl := newline_notMem_of_isIndent hplaced.indent
  have hblank : tag.indent.all isIndent = true := List.all_eq_true.mpr hplaced.indent
  rcases List.eq_nil_or_concat before with rfl | ⟨init, last, rfl⟩
  · rw [sourceOf_nil, lastLine_append hnl, lastLine_nil, List.nil_append, hblank]
    rfl
  · rw [List.concat_eq_append] at h hplaced ⊢
    have hlast : last.source ≠ [] := h.source_ne_nil last (by simp)
    rw [sourceOf_append, sourceOf_cons, sourceOf_nil, List.append_nil, startsLine_append hlast]
    cases hends : endsLine last.source with
    | true =>
        obtain ⟨s, hs⟩ := List.getLast?_eq_some_iff.mp (endsLine_iff.mp hends)
        rw [hs, lastLine_append hnl, ← List.append_assoc, lastLine_append_newline, List.nil_append,
          hblank]
    | false =>
        symm
        rw [List.append_assoc, List.singleton_append] at h
        cases last with
        | tag previous =>
            exact not_all_isIndent_after_tag (h.valid_pairAfter_left hd).1 (h.placed hd) hends
              hplaced.indent
        | text t =>
            obtain ⟨hopen, htext⟩ := next_eq_text_iff.mp h.next_eq
            obtain ⟨u, hu⟩ := hplaced.starts_opener
            have hpair : pairAfter d (init ++ [.text t]) = pairAfter d init :=
              pairAfter_append d init [.text t]
            refine not_all_isIndent_after_text (h.valid_pairAfter_left hd).1 ?_ hopen htext hends
              (u := u ++ tag.lineBreak ++ sourceOf after) ?_ hplaced.indent
            · simpa [Lexeme.source] using fun ht => absurd ht hlast
            · rw [hpair] at hu
              rw [sourceOf_cons, Lexeme.source, tag.source_eq, ← hu]
              simp

/-! ## What a tag erases -/

namespace Occurrence

section InPlace

variable {d : Delimiters} {template : Text} {before after : List Lexeme} {tag : Tag}

theorem lineBefore_ofTag (h : Lexes d true template (before ++ .tag tag :: after)) :
    lineBefore (ofTag (size (sourceOf before)) tag).start template =
      lastLine (sourceOf before ++ tag.indent) := by
  have htemplate : template =
      (sourceOf before ++ tag.indent) ++ (tag.written ++ tag.lineBreak ++ sourceOf after) := by
    rw [← h.sourceOf_eq, sourceOf_append, sourceOf_cons, Lexeme.source, tag.source_eq]
    simp
  have hstart : (ofTag (size (sourceOf before)) tag).start = size (sourceOf before ++ tag.indent) :=
    (size_append _ _).symm
  rw [lineBefore, hstart, htemplate, slice_zero_append]

theorem lineBreakAt_ofTag (h : Lexes d true template (before ++ .tag tag :: after)) :
    lineBreakAt (ofTag (size (sourceOf before)) tag).stop template =
      (splitLineBreak? (tag.lineBreak ++ sourceOf after)).map (·.1) := by
  have htemplate : template =
      (sourceOf before ++ tag.indent ++ tag.written) ++ (tag.lineBreak ++ sourceOf after) := by
    rw [← h.sourceOf_eq, sourceOf_append, sourceOf_cons, Lexeme.source, tag.source_eq]
    simp
  have hstop : (ofTag (size (sourceOf before)) tag).stop =
      size (sourceOf before ++ tag.indent ++ tag.written) := by
    rw [size_append, size_append]
    rfl
  rw [hstop, htemplate, lineBreakAt_eq]

theorem opensLine_ofTag (hd : d.Valid ∧ d.withinLimit = true)
    (h : Lexes d true template (before ++ .tag tag :: after)) :
    (ofTag (size (sourceOf before)) tag).opensLine template = tag.opensLine := by
  rw [opensLine, lineBefore_ofTag h, ← startsLine_eq_all_isIndent hd h, (h.placed hd).opensLine_eq]

theorem lineBefore_ofTag_of_opensLine (hd : d.Valid ∧ d.withinLimit = true)
    (h : Lexes d true template (before ++ .tag tag :: after)) (hline : tag.opensLine = true) :
    lineBefore (ofTag (size (sourceOf before)) tag).start template = tag.indent := by
  have hplaced := h.placed hd
  rw [lineBefore_ofTag h, lastLine_append (newline_notMem_of_isIndent hplaced.indent)]
  have hstarts : startsLine (sourceOf before) = true := by
    rw [← hplaced.opensLine_eq]
    exact hline
  rcases startsLine_iff.mp hstarts with hnil | hends
  · rw [hnil]
    rfl
  · obtain ⟨s, hs⟩ := List.getLast?_eq_some_iff.mp (endsLine_iff.mp hends)
    rw [hs, lastLine_append_newline]
    rfl

/-- The padding of a partial is the indentation that the template shows. -/
theorem indentation_ofTag (hd : d.Valid ∧ d.withinLimit = true)
    (h : Lexes d true template (before ++ .tag tag :: after)) :
    (ofTag (size (sourceOf before)) tag).indentation template = tag.padding := by
  unfold indentation Tag.padding
  rw [opensLine_ofTag hd h]
  by_cases hline : tag.opensLine = true
  · rw [if_pos hline, if_pos hline, lineBefore_ofTag_of_opensLine hd h hline]
  · rw [if_neg hline, if_neg hline]

theorem ownsLine_ofTag (hd : d.Valid ∧ d.withinLimit = true)
    (h : Lexes d true template (before ++ .tag tag :: after)) :
    (ofTag (size (sourceOf before)) tag).ownsLine template = tag.standsAlone := by
  have hplaced := h.placed hd
  have hdirective : (ofTag (size (sourceOf before)) tag).directive = tag.directive := rfl
  rw [Bool.eq_iff_iff, hplaced.standsAlone_iff, ownsLine, opensLine_ofTag hd h,
    lineBreakAt_ofTag h, hdirective, hplaced.opensLine_eq]
  simp only [Bool.and_eq_true, Bool.not_eq_true', Option.isSome_map]
  constructor
  · intro ⟨⟨hi, hl⟩, hb⟩
    exact ⟨hl, hi, hb⟩
  · intro ⟨hl, hi, hb⟩
    exact ⟨⟨hi, hl⟩, hb⟩

theorem eraseStart_ofTag (hd : d.Valid ∧ d.withinLimit = true)
    (h : Lexes d true template (before ++ .tag tag :: after)) :
    (ofTag (size (sourceOf before)) tag).eraseStart template =
      size (sourceOf before) + size tag.kept := by
  unfold eraseStart Tag.kept
  rw [ownsLine_ofTag hd h]
  by_cases halone : tag.standsAlone = true
  · have hplaced := h.placed hd
    have hline : tag.opensLine = true := by
      rw [hplaced.opensLine_eq]
      exact (hplaced.standsAlone_iff.mp halone).1
    rw [if_pos halone, if_pos halone, lineBefore_ofTag_of_opensLine hd h hline]
    simp only [ofTag, size_nil]
    omega
  · rw [if_neg halone, if_neg halone]
    rfl

theorem eraseStop_ofTag (hd : d.Valid ∧ d.withinLimit = true)
    (h : Lexes d true template (before ++ .tag tag :: after)) :
    (ofTag (size (sourceOf before)) tag).eraseStop template =
      size (sourceOf before) + size tag.source := by
  have hplaced := h.placed hd
  unfold eraseStop
  rw [ownsLine_ofTag hd h, tag.source_eq, size_append, size_append]
  by_cases halone : tag.standsAlone = true
  · rw [if_pos halone, lineBreakAt_ofTag h, hplaced.lineBreak_eq halone]
    simp only [ofTag, Option.map_some, Option.getD_some]
    omega
  · rw [if_neg halone, hplaced.lineBreak_eq_nil (by simpa using halone)]
    simp only [ofTag, size_nil]
    omega

end InPlace

end Occurrence

end TagTemplate
