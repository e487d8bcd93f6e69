import TagTemplate.Proofs.Machine.Tag

/-!
# Rounds of the machine

A round of the machine does to the image of an assembly what adding the next lexeme does to the
assembly, or halts with the error for which the lexeme is refused. Nothing in it panics, whatever
the markers are.
-/

namespace TagTemplate.Machine

open Text

section Round

variable {template : String} {d : Delimiters} {a : Assembly} {t : Text}

/-! ## A whole tag -/

section Tag

variable {indent u : Text} {head : Reading TagHead} {directive : Reading Directive}

def cursorIn (d : Delimiters) (template : String) (a : Assembly) (indent : Text) : Cursor :=
  (⟨template, a.offset⟩ : Cursor).advance (indent ++ d.opener.toList)

theorem split_cursorIn (h : Aligned template a t)
    (hopen : splitOpening d.opener.toList t = some (indent, u)) :
    (cursorIn d template a indent).split = .ok (a.read ++ (indent ++ d.opener.toList), u) := by
  have hsplit := h.split
  rw [← splitOpening_append hopen] at hsplit
  exact Cursor.split_advance hsplit

theorem split_after_head (h : Aligned template a t)
    (hopen : splitOpening d.opener.toList t = some (indent, u))
    (hhead : TagHead.reader d.closer.toList u = .ok head) :
    ((cursorIn d template a indent).advance head.read).split =
      .ok (a.read ++ (indent ++ d.opener.toList) ++ head.read, head.rest) := by
  have hsplit := split_cursorIn h hopen
  rw [← (TagHead.reader_faithful _).append hhead] at hsplit
  exact Cursor.split_advance hsplit

variable [MarkerLimits]

theorem round_of_opening (h : Aligned template a t)
    (hopen : splitOpening d.opener.toList t = some (indent, u)) :
    (image d template a).round =
      (stacked (cursorIn d template a indent) d a.openBlocks (nodesBefore a indent) []).readTag
        (openingOf a indent) := by
  rw [State.round, openTag_image_of_some h hopen]
  rfl

theorem readTag_of_head_error {stop : Stop} (h : Aligned template a t)
    (hopen : splitOpening d.opener.toList t = some (indent, u))
    (hhead : TagHead.reader d.closer.toList u = .error stop) :
    (stacked (cursorIn d template a indent) d a.openBlocks (nodesBefore a indent) []).readTag
        (openingOf a indent) =
      .error (.refused (SyntaxError.locate template
        ((cursorIn d template a indent).offset + size stop.read) stop.fault.message)) := by
  rw [State.readTag, cursor_stacked, delimiters_stacked,
    (refines_scanHead d).error (split_cursorIn h hopen) hhead]
  rfl

theorem readTag_of_head (h : Aligned template a t)
    (hopen : splitOpening d.opener.toList t = some (indent, u))
    (hhead : TagHead.reader d.closer.toList u = .ok head) :
    (stacked (cursorIn d template a indent) d a.openBlocks (nodesBefore a indent) []).readTag
        (openingOf a indent) =
      (stacked ((cursorIn d template a indent).advance head.read) d a.openBlocks
        (nodesBefore a indent) []).dispatch (openingOf a indent) head.value >>= fun s =>
          s.endTag (openingOf a indent) head.value := by
  rw [State.readTag, cursor_stacked, delimiters_stacked,
    (refines_scanHead d).ok (split_cursorIn h hopen) hhead]
  rfl

theorem endTag_of_error {nodes : List Node} {frame : List Frame} {stop : Stop}
    (h : Aligned template a t) (hopen : splitOpening d.opener.toList t = some (indent, u))
    (hhead : TagHead.reader d.closer.toList u = .ok head)
    (hpair : head.value.kind = .setDelimiters → Directive.pair? head.value.content ≠ none)
    (hdirective : Directive.reader d.closer.toList head.value head.rest = .error stop) :
    (stacked ((cursorIn d template a indent).advance head.read) d a.openBlocks nodes frame).endTag
        (openingOf a indent) head.value =
      .error (.refused (SyntaxError.locate template
        (((cursorIn d template a indent).advance head.read).offset + size stop.read)
        stop.fault.message)) := by
  rw [State.endTag, cursor_stacked, delimiters_stacked,
    (refines_scanEnd hpair).error (split_after_head h hopen hhead) hdirective]
  rfl

theorem endTag_of_ok {b : Assembly} (h : Aligned template a t)
    (hopen : splitOpening d.opener.toList t = some (indent, u))
    (hhead : TagHead.reader d.closer.toList u = .ok head)
    (hdirective : Directive.reader d.closer.toList head.value head.rest = .ok directive)
    (hadd : a.add (.tag (tagOf d a indent head directive)) = .ok b) :
    (stacked ((cursorIn d template a indent).advance head.read) d a.openBlocks
        (nodesBefore a indent ++ references directive.value (openingOf a indent).padding)
        (entering directive.value (openingOf a indent).tagStart)).endTag
        (openingOf a indent) head.value =
      .ok (image ((Lexeme.tag (tagOf d a indent head directive)).delimitersAfter d) template b) := by
  have hfits := fits_of_reader hdirective
  have hpair : head.value.kind = .setDelimiters → Directive.pair? head.value.content ≠ none := by
    intro hkind
    rw [hfits.kind] at hkind
    cases hvalue : directive.value with
    | setDelimiters text pair =>
        rw [hfits.content, hvalue, Directive.content, hfits.pair text pair hvalue]
        exact Option.some_ne_none pair
    | interpolation | openBlock | closeBlock | comment | partialRef =>
        rw [hvalue] at hkind
        cases hkind
  have hsplit := split_after_head h hopen hhead
  have hscan := (refines_scanEnd hpair).ok hsplit hdirective
  rw [← (Directive.reader_faithful _ _).append hdirective] at hsplit
  have hend : (((cursorIn d template a indent).advance head.read).advance directive.read).advance
      (tagOf d a indent head directive).lineBreak =
        ⟨template, a.offset + size (tagOf d a indent head directive).source⟩ := by
    simp [cursorIn, Cursor.advance, tagOf, Tag.ofReadings, Tag.source, Nat.add_assoc]
  have happ : (tagOf d a indent head directive).source ++
      restAfter (startsLine a.read) directive = t := by
    have hread : readTag d (startsLine a.read) indent u =
        .lexeme (.tag (tagOf d a indent head directive))
          (restAfter (startsLine a.read) directive) :=
      readTag_eq_lexeme_iff.mpr ⟨head, directive, hhead, hdirective, rfl, rfl⟩
    rw [← splitOpening_append hopen]
    exact (readTag_append hread).1
  rw [← happ] at h
  rw [State.endTag, cursor_stacked, delimiters_stacked, hscan, ok_bind]
  dsimp only
  have hshown := @showValue_stacked d a
    (((cursorIn d template a indent).advance head.read).advance directive.read) indent head
    directive _ (argsOf directive.value) (nodesBefore a indent) (openingOf a indent).tagStart hfits
  have hpadding : (tagOf d a indent head directive).padding = (openingOf a indent).padding := rfl
  rw [hpadding] at hshown
  rw [withCursor_stacked, hshown, ok_bind,
    keepPadding_stacked (Cursor.split_advance hsplit) hfits.kind, ok_bind, hend]
  exact settle_stacked h rfl hfits hadd

end Tag

/-! ## Rounds -/

section Next

variable {b : Assembly} {lexeme : Lexeme} {rest : Text} {failure : Failure}

theorem add_tag_eq (a : Assembly) (tag : Tag) :
    a.add (.tag tag) =
      match a.closeFault? tag.directive.kind tag.directive.content
        (a.offset + size tag.indent + size tag.front) with
      | some (fault, offset) =>
          (a.logTag tag.directive.kind tag.directive.content tag.indent).fail fault offset
      | none => .ok ((a.logTag tag.directive.kind tag.directive.content tag.indent).place tag) := rfl

theorem offset_after_head {indent : Text} {head : Reading TagHead} :
    ((cursorIn d template a indent).advance head.read).offset =
      a.offset + size indent + size (d.opener.toList ++ head.read) := by
  simp [cursorIn, Cursor.advance, Nat.add_assoc]

variable [MarkerLimits]

/-- A round reads the next lexeme. -/
theorem round_of_lexeme (h : Aligned template a t)
    (hnext : next d (startsLine a.read) t = .lexeme lexeme rest) (hadd : a.add lexeme = .ok b) :
    (image d template a).round = .ok (image (lexeme.delimitersAfter d) template b) := by
  cases lexeme with
  | text text =>
      obtain ⟨hopen, hsplit⟩ := next_eq_text_iff.mp hnext
      have hscan : scanText (image d template a).delimiters (image d template a).cursor =
          .ok (text, (⟨template, a.offset⟩ : Cursor).advance text) := by
        have hscan := scanText_eq h.split hopen
        rw [hsplit] at hscan
        exact hscan
      rw [Assembly.add_text] at hadd
      cases hadd
      rw [State.round, openTag_image_of_none h hopen, ok_bind]
      dsimp only
      rw [State.readText, hscan, ok_bind]
      dsimp only
      rw [withCursor_image, pushText_stacked]
      simp [image, Assembly.extend, Lexeme.source, Cursor.advance]
  | tag tag =>
      obtain ⟨indent, u, hopen, hread⟩ := next_eq_tag_iff.mp hnext
      obtain ⟨head, directive, hhead, hdirective, htag, -⟩ := readTag_eq_lexeme_iff.mp hread
      cases htag
      have hfits := fits_of_reader hdirective
      have hfault : a.closeFault? head.value.kind head.value.content
          ((cursorIn d template a indent).advance head.read).offset = none := by
        rw [add_tag_eq] at hadd
        rw [hfits.kind, hfits.content, offset_after_head]
        split at hadd
        · cases hadd
        · assumption
      rw [round_of_opening h hopen, readTag_of_head h hopen hhead, dispatch_of_fits hfits hfault,
        ok_bind]
      exact endTag_of_ok h hopen hhead hdirective hadd

/-- A round is refused where adding the next lexeme is. -/
theorem round_of_add_error (h : Aligned template a t)
    (hnext : next d (startsLine a.read) t = .lexeme lexeme rest)
    (hadd : a.add lexeme = .error failure) :
    (image d template a).round = .error (refusal template failure) := by
  cases lexeme with
  | text text => cases hadd
  | tag tag =>
      obtain ⟨indent, u, hopen, hread⟩ := next_eq_tag_iff.mp hnext
      obtain ⟨head, directive, hhead, hdirective, htag, -⟩ := readTag_eq_lexeme_iff.mp hread
      cases htag
      obtain ⟨hkind, hcontent⟩ := Directive.kind_content_of_reader hdirective
      rw [add_tag_eq] at hadd
      split at hadd
      · rename_i fault offset hfault
        cases hadd
        have hhere : a.closeFault? head.value.kind head.value.content
            ((cursorIn d template a indent).advance head.read).offset = some (fault, offset) := by
          rw [← hkind, ← hcontent, offset_after_head]
          exact hfault
        rw [round_of_opening h hopen, readTag_of_head h hopen hhead,
          dispatch_of_closeFault? h rfl (split_after_head h hopen hhead) hhere]
        rfl
      · cases hadd

theorem pair?_ne_none_or_invalid (closer : Text) (head : TagHead) :
    (head.kind = .setDelimiters → Directive.pair? head.content ≠ none) ∨
      head.kind = .setDelimiters ∧ Directive.pair? head.content = none ∧
        Directive.reader closer head = Reader.fail .invalidDelimiters := by
  obtain ⟨sigil, content⟩ := head
  by_cases hsigil : sigil = some .equals
  · subst hsigil
    cases hp : Directive.pair? content with
    | some pair => exact .inl fun _ => nofun
    | none => exact .inr ⟨rfl, rfl, by simp only [Directive.reader, hp]⟩
  · refine .inl ?_
    intro hkind
    cases sigil with
    | none => cases hkind
    | some sigil =>
        cases sigil with
        | equals => exact absurd rfl hsigil
        | hash | caret | slash | bang | less | greater | brace | ampersand => cases hkind

/-- Behind a head that does not close the wrong section, a fault stops the machine where it stops
the reader. -/
theorem round_of_directive_error {indent u : Text} {head : Reading TagHead} {stop : Stop}
    (h : Aligned template a t) (hopen : splitOpening d.opener.toList t = some (indent, u))
    (hhead : TagHead.reader d.closer.toList u = .ok head)
    (hdirective : Directive.reader d.closer.toList head.value head.rest = .error stop)
    (hfault : a.closeFault? head.value.kind head.value.content
      ((cursorIn d template a indent).advance head.read).offset = none) :
    (image d template a).round = .error (.refused (SyntaxError.locate template
      (((cursorIn d template a indent).advance head.read).offset + size stop.read)
      stop.fault.message)) := by
  rw [round_of_opening h hopen, readTag_of_head h hopen hhead]
  rcases pair?_ne_none_or_invalid d.closer.toList head.value with hpair | ⟨hkind, hpair, hfail⟩
  · obtain ⟨args, directive, hfits⟩ := exists_fits hpair
    rw [dispatch_of_fits hfits hfault, ok_bind]
    exact endTag_of_error h hopen hhead hpair hdirective
  · rw [hfail] at hdirective
    cases hdirective
    rw [dispatch_of_invalid rfl (split_after_head h hopen hhead) hkind hpair]
    rfl

/-- A round is refused at a broken tag. -/
theorem round_of_broken {tag : BrokenTag} (h : Aligned template a t)
    (hnext : next d (startsLine a.read) t = .broken tag)
    (hfail : (a.addBroken tag : Except Failure Assembly) = .error failure) :
    (image d template a).round = .error (refusal template failure) := by
  unfold next at hnext
  cases hopen : splitOpening d.opener.toList t with
  | none => simp [hopen] at hnext
  | some parts =>
      obtain ⟨indent, u⟩ := parts
      simp only [hopen] at hnext
      unfold readTag at hnext
      cases hhead : TagHead.reader d.closer.toList u with
      | error stop =>
          simp only [hhead, Next.broken.injEq] at hnext
          subst hnext
          cases hfail
          rw [round_of_opening h hopen, readTag_of_head_error h hopen hhead]
          simp [refusal, cursorIn, Cursor.advance, Nat.add_assoc]
      | ok head =>
          cases hdirective : Directive.reader d.closer.toList head.value head.rest with
          | ok directive => simp [hhead, hdirective] at hnext
          | error stop =>
              simp only [hhead, hdirective, Next.broken.injEq] at hnext
              subst hnext
              simp only [Assembly.addBroken] at hfail
              rw [← @offset_after_head template d a indent head] at hfail
              split at hfail
              · rename_i fault offset hfault
                cases hfail
                rw [round_of_opening h hopen, readTag_of_head h hopen hhead,
                  dispatch_of_closeFault? h rfl (split_after_head h hopen hhead) hfault]
                rfl
              · rename_i hfault
                cases hfail
                exact round_of_directive_error h hopen hhead hdirective hfault

end Next

end Round

end TagTemplate.Machine
