import TagTemplate.Proofs.LineEnding.Reader

/-!
# Tags in both spellings

The free text of a comment and of a change of delimiters ends at the same place in both spellings,
and names hold no line ends. A change of delimiters asks for the same pair, since white space of any
kind sets its markers apart.
-/

namespace TagTemplate

open Text

theorem isInline_of_isMarker {marker : Text} (h : Delimiters.isMarker marker = true) :
    IsInline marker :=
  ⟨notMem_of_isMarker h (by decide), notMem_of_isMarker h (by decide)⟩

/-! ## Pairs -/

namespace Delimiters

theorem isMarker_crlf (t : Text) : isMarker (crlf t) = isMarker t := by
  have hany : (crlf t).any isSpace = t.any isSpace := by
    have hall := @all_crlf (! isSpace ·) (by decide) t
    simpa [List.any_eq_not_all_not] using hall
  rw [isMarker, isEmpty_crlf, hany, isMarker]

theorem ofMarkers_crlf (opener : String) (t : Text) (pair : Delimiters) :
    ofMarkers opener (String.ofList (crlf t)) = .ok pair ↔
      ofMarkers opener (String.ofList t) = .ok pair := by
  cases ht : isMarker t with
  | true => rw [(isInline_of_isMarker ht).crlf_eq]
  | false =>
      have hno : ∀ u, isMarker u = false → ¬ ofMarkers opener (String.ofList u) = .ok pair := by
        intro u hu hok
        obtain ⟨rfl, -, hcloser⟩ := ofMarkers_eq_ok_iff.mp hok
        rw [String.toList_ofList, hu] at hcloser
        cases hcloser
      exact iff_of_false (hno _ (by rw [isMarker_crlf, ht])) (hno t ht)

/-- The same pair is read, or none is. -/
theorem parse_crlf (t : Text) (pair : Delimiters) :
    parse (String.ofList (crlf t)) = .ok pair ↔ parse (String.ofList t) = .ok pair := by
  have htake := @takeWhile_crlf_eq (! isSpace ·) (by decide) (by decide) (trim t)
  have hdrop := @dropWhile_crlf (! isSpace ·) (by decide) (trim t)
  unfold parse
  simp only [String.toList_ofList, trim_crlf, htake, hdrop]
  cases (trim t).dropWhile (! isSpace ·) with
  | nil =>
      constructor
      · nofun
      · nofun
  | cons c rest =>
      by_cases hc : c = '\n'
      · subst hc
        rw [crlf_newline]
        have hfeed : trimStart ('\n' :: crlf rest) = trimStart (crlf rest) := rfl
        dsimp only
        rw [hfeed, trimStart_crlf]
        exact ofMarkers_crlf _ _ pair
      · rw [crlf_cons hc]
        dsimp only
        rw [trimStart_crlf]
        exact ofMarkers_crlf _ _ pair

end Delimiters

/-! ## Heads -/

namespace TagHead

/-- The head with the line ends of free text spelled out. A name has none. -/
def withCrlf (head : TagHead) : TagHead :=
  { head with content := if takesFreeText head.sigil then crlf head.content else head.content }

section

variable {sigil : Char} {closer : Text}

theorem closesHere_crlf (hs : isSpace sigil = false) (hc : IsInline closer) (t : Text) :
    closesHere sigil closer (crlf t) = closesHere sigil closer t := by
  unfold closesHere
  rw [isPrefixOf_crlf hc]
  fun_cases crlf t with
  | case1 => rfl
  | case2 t =>
      have hreturn : ('\r' == sigil) = false := by
        rw [beq_eq_false_iff_ne]
        rintro rfl
        cases hs
      have hfeed : ('\n' == sigil) = false := by
        rw [beq_eq_false_iff_ne]
        rintro rfl
        cases hs
      simp [hreturn, hfeed]
  | case3 c t hne => simp only [isPrefixOf_crlf hc]

theorem closesHere_newline (hs : isSpace sigil = false) (hc : Delimiters.isMarker closer = true)
    (t : Text) : closesHere sigil closer ('\n' :: t) = false := by
  rw [Bool.eq_false_iff]
  intro hcloses
  have hspace := stopsRun_of_closesHere hc hs hcloses '\n' rfl
  cases hspace

theorem cutFree?_crlf (hs : isSpace sigil = false) (hc : Delimiters.isMarker closer = true)
    (t : Text) : cutFree? sigil closer (crlf t) =
      (cutFree? sigil closer t).map fun parts => (crlf parts.1, crlf parts.2) := by
  unfold cutFree?
  rw [splitAtFirst?_crlf (closesHere_crlf hs (isInline_of_isMarker hc)) (closesHere_newline hs hc)]
  cases splitAtFirst? (closesHere sigil closer) t with
  | none => rfl
  | some parts => simp [splitEndWhile_crlf isSpace_return]

end

theorem mirrors_sigilReader : Reader.Mirrors id sigilReader sigilReader := by
  intro t
  fun_cases crlf t with
  | case1 => rfl
  | case2 t => rfl
  | case3 c t hne =>
      cases hs : Sigil.ofChar? c with
      | none => simp [sigilReader, hs, Except.map, Reading.withCrlf, crlf_cons hne]
      | some sigil =>
          simp [sigilReader, hs, Except.map, Reading.withCrlf, crlf_cons hne]

theorem mirrors_contentReader {closer : Text} (hc : Delimiters.isMarker closer = true)
    (sigil : Option Sigil) :
    Reader.Mirrors (fun content => if takesFreeText sigil then crlf content else content)
      (contentReader closer sigil) (contentReader closer sigil) := by
  cases hfree : takesFreeText sigil with
  | false =>
      rw [contentReader_name closer hfree]
      exact Reader.mirrors_takeWhile_eq (by decide) (by decide)
  | true =>
      cases sigil with
      | none => cases hfree
      | some sigil =>
          rw [contentReader_free closer hfree]
          exact Reader.mirrors_cutting _ (cutFree?_crlf sigil.isSpace_toChar hc)

theorem mirrors_reader {closer : Text} (hc : Delimiters.isMarker closer = true) :
    Reader.Mirrors withCrlf (reader closer) (reader closer) := by
  refine mirrors_sigilReader.bind fun sigil => Reader.mirrors_spaces.bind fun _ =>
    (mirrors_contentReader hc sigil).bind fun content => ?_
  have hempty : (if takesFreeText sigil then crlf content else content) = [] ↔ content = [] := by
    split
    · exact crlf_eq_nil_iff
    · exact Iff.rfl
  by_cases hnil : content = []
  · rw [if_pos hnil, if_pos (hempty.mpr hnil)]
    exact Reader.mirrors_fail _ _
  · rw [if_neg hnil, if_neg (mt hempty.mp hnil)]
    exact Reader.mirrors_pure withCrlf ⟨sigil, content⟩

end TagHead

/-! ## Directives -/

namespace Directive

/-- The directive with the line ends of literals and of free text spelled out. -/
def withCrlf : Directive → Directive
  | interpolation form callee args =>
      interpolation form callee (args.map ArgumentToken.withCrlf)
  | openBlock inverted name => openBlock inverted name
  | closeBlock name => closeBlock name
  | comment text => comment (crlf text)
  | setDelimiters text pair => setDelimiters (crlf text) pair
  | partialRef name => partialRef name

theorem pair?_crlf [MarkerLimits] (text : Text) : pair? (crlf text) = pair? text := by
  unfold pair?
  cases h : Delimiters.parse (String.ofList text) with
  | ok pair => rw [(Delimiters.parse_crlf text pair).mpr h]
  | error invalid =>
      cases h' : Delimiters.parse (String.ofList (crlf text)) with
      | ok pair =>
          rw [(Delimiters.parse_crlf text pair).mp h'] at h
          cases h
      | error invalid' => rfl

theorem mirrors_endReader {closer : Text} (hc : IsInline closer) (sigil : Sigil)
    (directive : Directive) :
    Reader.Mirrors withCrlf (endReader sigil closer directive)
      (endReader sigil closer directive.withCrlf) := by
  have hsigil : IsInline [sigil.toChar] := by
    cases sigil <;> exact ⟨by decide, by decide⟩
  exact Reader.mirrors_spaces.bind fun _ => (Reader.mirrors_skip? hsigil).bind fun _ =>
    (Reader.mirrors_expect hc _).bind fun _ => Reader.mirrors_pure withCrlf directive

theorem mirrors_interpolationReader {closer : Text} (hc : IsInline closer)
    (form : InterpolationForm) (callee : Text) :
    Reader.Mirrors withCrlf (interpolationReader form closer callee)
      (interpolationReader form closer callee) := by
  have hclose : IsInline (form.close closer) := by
    unfold InterpolationForm.close
    split
    · simpa [IsInline] using hc
    · exact hc
  exact (ArgumentToken.mirrors_listReader hclose _).bind fun args =>
    Reader.mirrors_pure withCrlf (interpolation form callee args)

variable [MarkerLimits]

theorem mirrors_reader {closer : Text} (hc : IsInline closer) (head : TagHead) :
    Reader.Mirrors withCrlf (reader closer head) (reader closer head.withCrlf) := by
  obtain ⟨sigil, content⟩ := head
  cases sigil with
  | none => exact mirrors_interpolationReader hc .plain content
  | some sigil =>
      cases sigil with
      | brace => exact mirrors_interpolationReader hc .braced content
      | ampersand => exact mirrors_interpolationReader hc .ampersand content
      | hash => exact mirrors_endReader hc .hash (openBlock false content)
      | caret => exact mirrors_endReader hc .caret (openBlock true content)
      | slash => exact mirrors_endReader hc .slash (closeBlock content)
      | bang => exact mirrors_endReader hc .bang (comment content)
      | less => exact mirrors_endReader hc .less (partialRef content)
      | greater => exact mirrors_endReader hc .greater (partialRef content)
      | equals =>
          have hcrlf :
              TagHead.withCrlf ⟨some .equals, content⟩ = ⟨some .equals, crlf content⟩ := rfl
          rw [hcrlf]
          cases hp : pair? content with
          | none =>
              simp only [reader, pair?_crlf, hp]
              exact Reader.mirrors_fail _ _
          | some pair =>
              simp only [reader, pair?_crlf, hp]
              exact mirrors_endReader hc .equals (setDelimiters content pair)

end Directive

end TagTemplate
