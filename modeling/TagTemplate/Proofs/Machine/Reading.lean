import TagTemplate.Proofs.Machine.Scanner

/-!
# What the scanners of a tag read

Each scanner of the machine refines the reader for the same part of a tag, or splits off the same
run of text or line break. None of them depends on what the markers are.
-/

namespace TagTemplate.Machine

open Text

/-! ## Pieces -/

theorem refines_spaces : Refines (fun _ => true) (skip Pattern.spaces) Reader.spaces where
  faithful := Reader.faithful_takeWhile _
  ok hc h := by
    cases h
    exact skip_of_leaves hc List.takeWhile_append_dropWhile (Pattern.leaves_many isSpace _)
  error _ h := nomatch h

theorem refines_someSpaces :
    Refines (! ·.isEmpty) (skip Pattern.someSpaces) Reader.spaces where
  faithful := Reader.faithful_takeWhile _
  ok {c before ahead reading} hc h := by
    cases h
    by_cases hrun : ahead.takeWhile isSpace = []
    · have hnone := Pattern.match?_someOf_eq_none hrun
      rw [hrun]
      exact skip_eq_false hc hnone
    · have htrue : (! (ahead.takeWhile isSpace).isEmpty) = true := by simpa using hrun
      rw [htrue]
      exact skip_of_leaves hc List.takeWhile_append_dropWhile (Pattern.leaves_someOf hrun)
  error _ h := nomatch h

theorem refines_content :
    Refines some (scan Pattern.content) (Reader.takeWhile isContent) where
  faithful := Reader.faithful_takeWhile _
  ok hc h := by
    cases h
    exact scan_of_leaves hc List.takeWhile_append_dropWhile (Pattern.leaves_many isContent _)
  error _ h := nomatch h

theorem refines_skipText (piece : Text) : Refines id (skipText piece) (Reader.skip? piece) where
  faithful := Reader.faithful_skip? piece
  ok {c before ahead reading} hc h := by
    have happ := (Reader.faithful_skip? piece).append h
    rcases Reader.skip?_eq_ok h with ⟨hvalue, hread⟩ | ⟨hvalue, hread, hnone⟩
    · rw [hvalue, hread]
      exact skipText_of_append hc (hread ▸ happ)
    · rw [hread, List.nil_append] at happ
      rw [hvalue, hread]
      exact skipText_eq_false hc (happ ▸ hnone)
  error {c before ahead stop} hc h := by
    unfold Reader.skip? at h
    split at h
    · cases h
    · cases h

/-- The scanner for a sigil gives its character. -/
theorem refines_sigil : Refines (·.map fun sigil => [sigil.toChar]) (scan Pattern.sigil)
    TagHead.sigilReader where
  faithful := TagHead.sigilReader_faithful
  ok {c before ahead reading} hc h := by
    cases ahead with
    | nil =>
        cases h
        exact scan_eq_none hc Pattern.match?_sigil_nil
    | cons mark ahead =>
        have hmatch := Pattern.match?_sigil_cons mark ahead
        rw [TagHead.sigilReader] at h
        cases hs : Sigil.ofChar? mark with
        | none =>
            rw [hs] at h hmatch
            cases h
            exact scan_eq_none hc hmatch
        | some sigil =>
            rw [hs] at h hmatch
            cases h
            have hleaves : Pattern.sigil.Leaves (mark :: ahead) ahead := ⟨_, hmatch, rfl⟩
            simp only [Option.map_some, Sigil.toChar_of_ofChar? hs]
            exact scan_of_leaves hc rfl hleaves
  error {c before ahead stop} hc h := by
    unfold TagHead.sigilReader at h
    split at h
    · cases h
    · split at h
      · cases h
      · cases h

theorem sigil_of_mark (sigil : Option Sigil) :
    ((sigil.map fun sigil => [sigil.toChar]).bind List.head?).bind Sigil.ofChar? = sigil := by
  cases sigil with
  | none => rfl
  | some sigil => exact Sigil.ofChar?_toChar sigil

/-! ## The front of a tag -/

theorem refines_untilFreeEnd (d : Delimiters) (sigil : Sigil) :
    Refines id (scanContent.untilFreeEnd d sigil)
      (Reader.cutting (TagHead.cutFree? sigil.toChar d.closer.toList) .unclosedTag) where
  faithful := Reader.faithful_cutting TagHead.cutFree?_append
  ok {c before ahead reading} hc h := by
    obtain ⟨hvalue, hcut⟩ := Reader.cutting_eq_ok h
    rw [← Pattern.find?_freeEnd d sigil ⟨before.getLast?, ahead⟩] at hcut
    obtain ⟨⟨piece, stop⟩, hfind, hstop⟩ := Option.map_eq_some_iff.mp hcut
    obtain ⟨rfl, -⟩ := Prod.mk.inj hstop
    rw [scanContent.untilFreeEnd, bind_apply, scanUntil_of_find? hc hfind, ok_bind, hvalue]
    rfl
  error {c before ahead stop} hc h := by
    unfold Reader.cutting at h
    cases hcut : TagHead.cutFree? sigil.toChar d.closer.toList ahead with
    | some parts => simp [hcut] at h
    | none =>
        simp only [hcut] at h
        rw [← Pattern.find?_freeEnd d sigil ⟨before.getLast?, ahead⟩] at hcut
        rw [scanContent.untilFreeEnd, bind_apply,
          scanUntil_eq_none hc (Option.map_eq_none_iff.mp hcut), ok_bind]
        exact (Refines.failHere id Fault.unclosedTag).error hc h

theorem refines_name {x : Scanner Text} (hx : x = return (← scan Pattern.content).getD []) :
    Refines id x (Reader.takeWhile isContent) where
  faithful := Reader.faithful_takeWhile _
  ok hc h := by
    rw [hx, bind_apply, refines_content.ok hc h]
    rfl
  error _ h := nomatch h

theorem refines_scanContent (d : Delimiters) (sigil : Option Sigil) :
    Refines id (scanContent d sigil) (TagHead.contentReader d.closer.toList sigil) := by
  cases sigil with
  | none => exact refines_name rfl
  | some sigil =>
      cases sigil with
      | bang => exact refines_untilFreeEnd d .bang
      | equals => exact refines_untilFreeEnd d .equals
      | hash | caret | slash | less | greater | brace | ampersand => exact refines_name rfl

theorem refines_scanHead (d : Delimiters) :
    Refines id (scanHead d) (TagHead.reader d.closer.toList) := by
  refine refines_sigil.bind fun sigil => ?_
  rw [sigil_of_mark]
  refine refines_spaces.bind fun _ => (refines_scanContent d sigil).bind fun content => ?_
  exact (Refines.failHere id _).ite (Refines.pure id _)

/-! ## Arguments -/

section Token

variable {c : Cursor} {before ahead : Text}

theorem scanToken_of_cut? {stop piece rest : Text} (hc : c.split = .ok (before, ahead))
    (h : ArgumentToken.cut? stop ahead = some (piece, rest)) :
    scanToken stop c = .ok (some piece, c.advance piece) := by
  simp only [scanToken, bind_apply, perform_rest hc, ok_bind, textOf?, String.toList_ofList,
    Option.getD_some, h, skipText_of_append hc (ArgumentToken.cut?_append h), pure_apply]

theorem scanToken_eq_none {stop : Text} (hc : c.split = .ok (before, ahead))
    (h : ArgumentToken.cut? stop ahead = none) : scanToken stop c = .ok (none, c) := by
  simp only [scanToken, bind_apply, perform_rest hc, ok_bind, textOf?, String.toList_ofList,
    Option.getD_some, h, pure_apply]

end Token

theorem reader_eq_error {stop ahead : Text} {fault : Stop}
    (h : ArgumentToken.reader stop ahead = .error fault) :
    ArgumentToken.cut? stop ahead = none ∧ fault = ⟨.unclosedTag, []⟩ := by
  rcases Reader.bind_eq_error_iff.mp h with h | ⟨a, s, ha, hs, -⟩
  · unfold Reader.cutting at h
    split at h
    · cases h
    · rename_i hcut
      cases h
      exact ⟨hcut, rfl⟩
  · obtain ⟨hvalue, hcut⟩ := Reader.cutting_eq_ok ha
    obtain ⟨token, htoken⟩ :=
      Option.isSome_iff_exists.mp (ArgumentToken.isSome_classify?_of_cut? hcut)
    rw [hvalue, htoken] at hs
    cases hs

theorem refines_scanArgument (stop : Text) :
    Refines id (scanArgument stop) (ArgumentToken.reader stop) where
  faithful := ArgumentToken.reader_faithful stop
  ok {c before ahead reading} hc h := by
    obtain ⟨hcut, hclass⟩ := ArgumentToken.reader_eq_ok h
    simp only [scanArgument, bind_apply, get_apply, ok_bind, scanToken_of_cut? hc hcut,
      Option.bind_some, hclass, pure_apply, id]
  error {c before ahead fault} hc h := by
    obtain ⟨hcut, rfl⟩ := reader_eq_error h
    simp only [scanArgument, bind_apply, get_apply, ok_bind, scanToken_eq_none hc hcut,
      Option.bind_none, perform_reset hc]
    exact (Refines.failHere id Fault.unclosedTag).error hc rfl

theorem refines_scanArguments (stop close : Text) (scans : Nat) :
    Refines id (scanArguments stop close scans) (ArgumentToken.listReader stop close scans) := by
  induction scans with
  | zero => exact Refines.failHere id _
  | succ scans ih =>
      refine refines_someSpaces.bind fun _ => (refines_skipText close).bind fun closes => ?_
      refine (Refines.pure id []).ite ((refines_scanArgument stop).bind fun token => ?_)
      exact ih.bind fun tokens => Refines.pure id (token :: tokens)

/-! ## The rest of a tag -/

def argsOf : Directive → List ArgumentToken
  | .interpolation _ _ args => args
  | _ => []

theorem refines_expectText (piece : Text) (fault : Fault) :
    Refines id (expectText piece fault) (Reader.expect piece fault) :=
  (refines_skipText piece).bind fun _ => (Refines.failHere id fault).ite (Refines.pure id ())

theorem spaces_bind_spaces (g : Text → Reader β) (hg : ∀ run run', g run = g run') :
    (Reader.spaces >>= fun _ => Reader.spaces >>= g) = Reader.spaces >>= g := by
  funext t
  have hnone : (t.dropWhile isSpace).takeWhile isSpace = [] := by
    have hstop := stopsRun_dropWhile isSpace t
    cases hd : t.dropWhile isSpace with
    | nil => rfl
    | cons c u => simp [hstop c (by rw [hd]; rfl)]
  have hrest : (t.dropWhile isSpace).dropWhile isSpace = t.dropWhile isSpace := by
    have happ := List.takeWhile_append_dropWhile (p := isSpace) (l := t.dropWhile isSpace)
    rwa [hnone] at happ
  simp only [Bind.bind, Reader.bind, Reader.spaces, Reader.takeWhile, hnone, hrest,
    hg [] (t.takeWhile isSpace)]
  cases g (t.takeWhile isSpace) (t.dropWhile isSpace) with
  | error stop => rfl
  | ok reading => rfl

/-- White space in front of arguments is passed over once more before the first of them. -/
theorem refines_spaces_scanArguments (stop close : Text) {scans : Nat} (h : 0 < scans) :
    Refines id (skip Pattern.spaces >>= fun _ => scanArguments stop close scans)
      (ArgumentToken.listReader stop close scans) := by
  have htwice : (Reader.spaces >>= fun _ => ArgumentToken.listReader stop close scans) =
      ArgumentToken.listReader stop close scans := by
    obtain ⟨scans, rfl⟩ := Nat.exists_eq_add_of_lt h
    exact spaces_bind_spaces _ fun _ _ => rfl
  rw [← htwice]
  exact refines_spaces.bind fun _ => refines_scanArguments stop close scans

theorem refines_interpolation (form : InterpolationForm) (closer callee : Text) :
    Refines argsOf
      (skip Pattern.spaces >>= fun _ =>
        scanArguments closer (form.close closer) ArgumentToken.scanLimit)
      (Directive.interpolationReader form closer callee) := by
  have hlimit : 0 < ArgumentToken.scanLimit := by decide
  have hbind := (refines_spaces_scanArguments closer (form.close closer) hlimit).bind
    fun args => Refines.pure argsOf (.interpolation form callee args)
  rw [Directive.interpolationReader_eq]
  simpa only [argsOf, id, bind_pure] using hbind

theorem refines_end (sigil : Sigil) (closer : Text) {directive : Directive}
    (h : argsOf directive = []) :
    Refines argsOf
      (do
        let _ ← skip Pattern.spaces
        let _ ← skipText [sigil.toChar]
        expectText closer .unclosedTag
        return [])
      (Directive.endReader sigil closer directive) := by
  rw [← h]
  exact refines_spaces.bind fun _ => (refines_skipText _).bind fun _ =>
    (refines_expectText closer _).bind fun _ => Refines.pure argsOf directive

theorem refines_scanEnd [MarkerLimits] {d : Delimiters} {head : TagHead}
    (hpair : head.kind = .setDelimiters → Directive.pair? head.content ≠ none) :
    Refines argsOf (scanEnd d head) (Directive.reader d.closer.toList head) := by
  obtain ⟨sigil, content⟩ := head
  cases sigil with
  | none => exact refines_interpolation .plain _ content
  | some sigil =>
      cases sigil with
      | brace => exact refines_interpolation .braced _ content
      | ampersand => exact refines_interpolation .ampersand _ content
      | hash => exact refines_end .hash _ rfl
      | caret => exact refines_end .caret _ rfl
      | slash => exact refines_end .slash _ rfl
      | bang => exact refines_end .bang _ rfl
      | less => exact refines_end .less _ rfl
      | greater => exact refines_end .greater _ rfl
      | equals =>
          obtain ⟨pair, hp⟩ := Option.ne_none_iff_exists'.mp (hpair rfl)
          have hreader : Directive.reader d.closer.toList ⟨some .equals, content⟩ =
              Directive.endReader .equals d.closer.toList (.setDelimiters content pair) := by
            simp only [Directive.reader, hp]
          rw [hreader]
          exact refines_end .equals _ rfl

/-! ## Openings, runs of text and line breaks -/

section Boundary

variable {c : Cursor} {before ahead : Text}

theorem groupCount_literal (t : Text) : (Pattern.literal t).groupCount = 0 := by
  induction t with
  | nil => rfl
  | cons c t ih => simp [Pattern.literal, Pattern.groupCount, ih]

theorem captures_tagOpening_of_some {d : Delimiters} {indent rest : Text}
    (hc : c.split = .ok (before, ahead))
    (h : splitOpening d.opener.toList ahead = some (indent, rest)) :
    captures (Pattern.tagOpening d) c =
      .ok (some indent, c.advance (indent ++ d.opener.toList)) := by
  obtain ⟨way, span, hway, hrest, hgroup, htext⟩ := Pattern.match?_tagOpening_of_some h
  have hcount : (Pattern.tagOpening d).groupCount = 1 := by
    simp [Pattern.tagOpening, Pattern.groupCount, groupCount_literal]
  have hop : c.perform (.captures (Pattern.tagOpening d)) =
      .ok (.groups [some (String.ofList (indent ++ d.opener.toList)), some (String.ofList indent)],
        c.advance (indent ++ d.opener.toList)) := by
    simp [Cursor.perform, Cursor.captures,
      matchRest?_of_match? hc (splitOpening_append h) hway hrest, bind, Except.bind, pure,
      Except.pure, Cursor.groupTexts, hcount, hgroup, htext, List.range_succ]
  simp only [captures, bind_apply, perform_of_advance hc (splitOpening_append h) hop, ok_bind,
    pure_apply]
  simp [groupOf?]

theorem captures_tagOpening_of_none {d : Delimiters} (hc : c.split = .ok (before, ahead))
    (h : splitOpening d.opener.toList ahead = none) :
    captures (Pattern.tagOpening d) c = .ok (none, c) := by
  have hop : c.perform (.captures (Pattern.tagOpening d)) = .ok (.nothing, c) := by
    simp only [Cursor.perform, Cursor.captures,
      matchRest?_eq_none hc (Pattern.match?_tagOpening_of_none h), bind, Except.bind, pure,
      Except.pure]
  simp only [captures, bind_apply, perform_of_stay hc hop, ok_bind, pure_apply, groupOf?]

theorem scanText_eq {d : Delimiters} (hc : c.split = .ok (before, ahead))
    (h : splitOpening d.opener.toList ahead = none) :
    scanText d c = .ok ((splitText d.opener.toList ahead).1,
      c.advance (splitText d.opener.toList ahead).1) := by
  have hfound := @Pattern.found_find?_textEnd d ⟨before.getLast?, ahead⟩ h
  cases hfind : (Pattern.textEnd d).find? ⟨before.getLast?, ahead⟩ with
  | some parts =>
      obtain ⟨piece, stop⟩ := parts
      rw [hfind] at hfound
      rw [scanText, bind_apply, scanUntil_of_find? hc hfind, ok_bind, ← hfound]
      rfl
  | none =>
      rw [hfind] at hfound
      rw [scanText, bind_apply, scanUntil_eq_none hc hfind, ok_bind, ← hfound]
      simp only [bind_apply, perform_rest hc, ok_bind, perform_terminate hc, pure_apply, textOf?,
        Option.getD_some, String.toList_ofList, Pattern.found]

theorem atEnd_iff (hc : c.split = .ok (before, ahead)) : c.atEnd = true ↔ ahead = [] := by
  obtain ⟨hs, hn⟩ := Cursor.split_eq_ok_iff.mp hc
  rw [Cursor.atEnd, Cursor.size, hs, size_append, hn, decide_eq_true_iff, ← size_eq_zero_iff]
  omega

theorem scanLineEnd_eq {kind : TagKind} (hkind : ∀ form, kind ≠ .interpolation form)
    (hc : c.split = .ok (before, ahead)) :
    scanLineEnd kind c = .ok ((splitLineBreak? ahead).isSome,
      c.advance (((splitLineBreak? ahead).map (·.1)).getD [])) := by
  have hscan : scanLineEnd kind c =
      if c.atEnd then .ok (true, c) else skip Pattern.lineBreak c := by
    cases kind with
    | interpolation form => exact absurd rfl (hkind form)
    | openBlock | closeBlock | comment | setDelimiters | partialRef =>
        change (if c.atEnd = true then pure true else skip Pattern.lineBreak : Scanner Bool) c = _
        cases c.atEnd with
        | false => rfl
        | true => rfl
  rw [hscan]
  by_cases hnil : ahead = []
  · rw [if_pos ((atEnd_iff hc).mpr hnil), hnil]
    rfl
  · rw [if_neg (hnil ∘ (atEnd_iff hc).mp)]
    cases hbreak : splitLineBreak? ahead with
    | some parts =>
        exact skip_of_leaves hc (splitLineBreak?_append hbreak)
          (Pattern.leaves_lineBreak hbreak hnil)
    | none => exact skip_eq_false hc (Pattern.match?_lineBreak_eq_none hbreak)

end Boundary

end TagTemplate.Machine
