import TagTemplate.Proofs.Machine.Image
import TagTemplate.Proofs.Machine.Reading
import TagTemplate.Proofs.Tag.Name

/-!
# Tags in the machine

The machine reads a tag in parts and changes its state after each of them: a section may be entered
before the tag is known to end, and indentation may be put back in front of a node that is already
there. When the tag has been read, the state is the image of the assembly with the tag.
-/

namespace TagTemplate.Machine

open Text

section Tag

variable {template : String} {d : Delimiters} {a : Assembly} {t : Text}

/-! ## Opening a tag -/

theorem atLineStart_eq {c : Cursor} {before ahead : Text} (hc : c.split = .ok (before, ahead)) :
    c.atLineStart = startsLine before := by
  rw [Cursor.atLineStart, hc]
  dsimp only
  cases before with
  | nil => rfl
  | cons e before =>
      simp [startsLine, endsLine, List.getLast?_cons]

theorem startsLine_image (h : Aligned template a t) :
    (image d template a).startsLine = .ok (startsLine a.read) := by
  have hle : a.offset ≤ (⟨template, a.offset⟩ : Cursor).size := by
    rw [Cursor.size, h.source, size_append, h.offset]
    omega
  rw [State.startsLine, image, cursor_stacked, if_pos hle, atLineStart_eq h.split]

def openingOf (a : Assembly) (indent : Text) : State.Opening where
  lineStart := startsLine a.read
  depth := a.openBlocks.length
  insertAt := a.layer.nodes.reverse.length
  tagStart := a.offset + size indent
  padding := if startsLine a.read then indent else []

def nodesBefore (a : Assembly) (indent : Text) : List Node :=
  a.layer.nodes.reverse ++ if startsLine a.read then [] else staticNodes indent

theorem openTag_image_of_some {indent u : Text} (h : Aligned template a t)
    (hopen : splitOpening d.opener.toList t = some (indent, u)) :
    (image d template a).openTag = .ok (some (openingOf a indent,
      stacked ((⟨template, a.offset⟩ : Cursor).advance (indent ++ d.opener.toList)) d a.openBlocks
        (nodesBefore a indent) [])) := by
  have hstart : difference
      ((⟨template, a.offset⟩ : Cursor).advance (indent ++ d.opener.toList)).offset
      d.opener.utf8ByteSize = .ok (a.offset + size indent) := by
    rw [Cursor.advance, size_append, ← size_toList, ← Nat.add_assoc]
    exact difference_add_right _ _
  have hcaptures : captures (Pattern.tagOpening d) (image d template a).cursor =
      .ok (some indent, (⟨template, a.offset⟩ : Cursor).advance (indent ++ d.opener.toList)) :=
    captures_tagOpening_of_some h.split hopen
  simp only [State.openTag, startsLine_image h, ok_bind, length_sections_image, buffer_image,
    delimiters_image, hcaptures, hstart, withCursor_image]
  unfold openingOf nodesBefore
  cases startsLine a.read with
  | true => simp
  | false => simp [pushText_stacked]

theorem openTag_image_of_none (h : Aligned template a t)
    (hopen : splitOpening d.opener.toList t = none) :
    (image d template a).openTag = .ok none := by
  have hcaptures : captures (Pattern.tagOpening d) (image d template a).cursor =
      .ok (none, ⟨template, a.offset⟩) := captures_tagOpening_of_none h.split hopen
  simp only [State.openTag, startsLine_image h, ok_bind, length_sections_image, buffer_image,
    delimiters_image, hcaptures, pure_eq_ok]

/-! ## The front of a tag -/

section

variable [MarkerLimits]

structure Fits (head : TagHead) (args : List ArgumentToken) (directive : Directive) : Prop where
  kind : head.kind = directive.kind
  content : head.content = directive.content
  args : args = argsOf directive
  pair : ∀ text pair, directive = .setDelimiters text pair → Directive.pair? text = some pair

theorem fits_of_reader {closer : Text} {head : TagHead} {x : Reading Directive}
    (h : Directive.reader closer head t = .ok x) : Fits head (argsOf x.value) x.value := by
  obtain ⟨hkind, hcontent⟩ := Directive.kind_content_of_reader h
  refine ⟨hkind.symm, hcontent.symm, rfl, ?_⟩
  intro text pair hx
  rcases Directive.reader_cases h with ⟨form, hreader, -⟩ | ⟨sigil, directive, -, hreader, hpair⟩
  · rw [hreader] at h
    obtain ⟨args, hvalue⟩ := Directive.value_of_interpolationReader h
    rw [hvalue] at hx
    cases hx
  · rw [hreader] at h
    rw [Directive.value_of_endReader h] at hx
    exact hpair text pair hx

/-- A head by itself asks for something, unless it spells no pair where it should. -/
theorem exists_fits {head : TagHead}
    (hpair : head.kind = .setDelimiters → Directive.pair? head.content ≠ none) :
    ∃ args directive, Fits head args directive := by
  obtain ⟨sigil, content⟩ := head
  cases sigil with
  | none => exact ⟨[], .interpolation .plain content [], rfl, rfl, rfl, nofun⟩
  | some sigil =>
      cases sigil with
      | brace => exact ⟨[], .interpolation .braced content [], rfl, rfl, rfl, nofun⟩
      | ampersand => exact ⟨[], .interpolation .ampersand content [], rfl, rfl, rfl, nofun⟩
      | hash => exact ⟨[], .openBlock false content, rfl, rfl, rfl, nofun⟩
      | caret => exact ⟨[], .openBlock true content, rfl, rfl, rfl, nofun⟩
      | slash => exact ⟨[], .closeBlock content, rfl, rfl, rfl, nofun⟩
      | bang => exact ⟨[], .comment content, rfl, rfl, rfl, nofun⟩
      | less | greater => exact ⟨[], .partialRef content, rfl, rfl, rfl, nofun⟩
      | equals =>
          obtain ⟨pair, hp⟩ := Option.ne_none_iff_exists'.mp (hpair rfl)
          refine ⟨[], .setDelimiters content pair, rfl, rfl, rfl, ?_⟩
          intro text pair' heq
          cases heq
          exact hp

/-- The nodes that a tag puts down before it has been read to its end. -/
def references (directive : Directive) (padding : Text) : List Node :=
  match directive with
  | .partialRef name => [.partialRef (String.ofList name) (String.ofList padding)]
  | _ => []

def entering (directive : Directive) (openedAt : Nat) : List Frame :=
  match directive with
  | .openBlock inverted name => [⟨name, inverted, .ofText name, openedAt, none, []⟩]
  | _ => []

section Dispatch

variable {c : Cursor} {before ahead : Text} {nodes : List Node} {opening : State.Opening}
  {head : TagHead}

theorem dispatch_of_closeFault? {fault : Fault} {offset : Nat} (h : Aligned template a t)
    (hsource : c.source = template) (hc : c.split = .ok (before, ahead))
    (hfault : a.closeFault? head.kind head.content c.offset = some (fault, offset)) :
    (stacked c d a.openBlocks nodes []).dispatch opening head =
      .error (.refused (SyntaxError.locate template offset fault.message)) := by
  obtain ⟨hs, hn⟩ := Cursor.split_eq_ok_iff.mp hc
  unfold Assembly.closeFault? at hfault
  split at hfault
  · rename_i hkind
    rw [State.dispatch, hkind]
    cases hblocks : a.openBlocks with
    | nil =>
        rw [hblocks] at hfault
        cases hfault
        rw [← hsource]
        exact refuse_eq hs hn _
    | cons block blocks =>
        rw [hblocks] at hfault
        dsimp only at hfault ⊢
        rw [getLast?_sections_stacked]
        by_cases hname : block.name = head.content
        · rw [if_pos hname] at hfault
          cases hfault
        · rw [if_neg hname] at hfault
          cases hfault
          have hblock : block :: blocks <:+ a.openBlocks := by simp [hblocks]
          obtain ⟨front, rest, hfront, hsize⟩ := h.split_openedAt hblock
          dsimp only
          rw [if_neg hname, State.refuseAt, cursor_stacked, hsource]
          exact refuse_eq hfront hsize _
  · cases hfault

theorem dispatch_of_invalid (hsource : c.source = template) (hc : c.split = .ok (before, ahead))
    (hkind : head.kind = .setDelimiters) (hpair : Directive.pair? head.content = none) :
    (stacked c d a.openBlocks nodes []).dispatch opening head =
      .error (.refused (SyntaxError.locate template c.offset Fault.invalidDelimiters.message)) := by
  obtain ⟨hs, hn⟩ := Cursor.split_eq_ok_iff.mp hc
  rw [State.dispatch, hkind, hpair, ← hsource]
  exact refuse_eq hs hn _

theorem dispatch_of_fits {args : List ArgumentToken} {directive : Directive} {here : Nat}
    (hfits : Fits head args directive)
    (hfault : a.closeFault? head.kind head.content here = none) :
    (stacked c d a.openBlocks nodes []).dispatch opening head =
      .ok (stacked c d a.openBlocks (nodes ++ references directive opening.padding)
        (entering directive opening.tagStart)) := by
  obtain ⟨hkind, hcontent, -, hpair⟩ := hfits
  rw [State.dispatch, hkind, hcontent]
  cases directive with
  | interpolation form callee args => simp [Directive.kind, references, entering]
  | comment text => simp [Directive.kind, references, entering]
  | openBlock inverted name =>
      simp [Directive.kind, Directive.content, references, entering, stacked]
  | setDelimiters text pair =>
      simp [Directive.kind, Directive.content, references, entering, hpair text pair rfl]
  | partialRef name =>
      simp [Directive.kind, Directive.content, references, entering, push_stacked]
  | closeBlock name =>
      rw [hkind, hcontent] at hfault
      cases hblocks : a.openBlocks with
      | nil => simp [Assembly.closeFault?, Directive.kind, hblocks] at hfault
      | cons block blocks =>
          have hname : block.name = name := by
            by_cases hname : block.name = name
            · exact hname
            · simp [Assembly.closeFault?, Directive.kind, Directive.content, hblocks,
                hname] at hfault
          simp [Directive.kind, Directive.content, references, entering,
            getLast?_sections_stacked, hname]

end Dispatch

/-! ## What a tag does -/

section Settle

variable {b : Assembly} {tag : Tag} {head : TagHead} {args : List ArgumentToken}

theorem switch_stacked {c : Cursor} {blocks : List OpenBlock} {nodes : List Node}
    {frame : List Frame} (hfits : Fits head args tag.directive) :
    (stacked c d blocks nodes frame).switch head =
      stacked c ((Lexeme.tag tag).delimitersAfter d) blocks nodes frame := by
  obtain ⟨hkind, hcontent, -, hpair⟩ := hfits
  rw [State.switch, hkind, hcontent, delimitersAfter_tag]
  cases hdirective : tag.directive with
  | setDelimiters text pair =>
      simp [Directive.kind, Directive.content, hpair text pair hdirective, stacked]
  | interpolation | openBlock | closeBlock | comment | partialRef => rfl

omit [MarkerLimits] in
/-- The machine does the same with a section when it is closed as the assembly. -/
theorem add_of_closeBlock {block : OpenBlock} {blocks : List OpenBlock} {name : Text}
    (hblocks : a.openBlocks = block :: blocks) (hdirective : tag.directive = .closeBlock name)
    (hadd : a.add (.tag tag) = .ok b) :
    b.openBlocks = blocks ∧ b.layer.nodes.reverse = block.outer.nodes.reverse ++
      [.block block.inverted (.ofText block.name)
        (a.layer.nodes.reverse ++ staticNodes tag.kept)
        (String.ofList (a.layer.raw.toList ++ tag.indent)) tag.delimiters] := by
  have hname : block.name = name := by
    obtain ⟨block', blocks', heq, hname⟩ :=
      Assembly.exists_openBlocks_of_add_closing hdirective hadd
    rw [hblocks] at heq
    cases heq
    exact hname
  simp only [Assembly.add, Assembly.addTag, Assembly.closeFault?, Assembly.logTag, hdirective,
    Directive.kind, Directive.content, hblocks, hname, if_true, Except.ok.injEq] at hadd
  subst hadd
  simp [Assembly.place, Assembly.perform, hdirective, Layer.push, Layer.note,
    Assembly.nodes_pushText, Layer.raw_pushText, String.ofList_append]

theorem settle_of_leaf {opening : State.Opening} (hfits : Fits head args tag.directive)
    (hleaf : tag.directive.isBoundary = false) (hadd : a.add (.tag tag) = .ok b) :
    (stacked ⟨template, a.offset + size tag.source⟩ d a.openBlocks
        (a.layer.nodes.reverse ++ staticNodes tag.kept ++ tag.leaves)
        (entering tag.directive opening.tagStart)).settle opening head =
      .ok (image ((Lexeme.tag tag).delimitersAfter d) template b) := by
  have hopen : head.kind ≠ .closeBlock := by
    rw [hfits.kind]
    cases hdirective : tag.directive with
    | closeBlock name =>
        rw [hdirective] at hleaf
        cases hleaf
    | interpolation | openBlock | comment | setDelimiters | partialRef => nofun
  have hentering : entering tag.directive opening.tagStart = [] := by
    cases hdirective : tag.directive with
    | openBlock inverted name =>
        rw [hdirective] at hleaf
        cases hleaf
    | interpolation | closeBlock | comment | setDelimiters | partialRef => rfl
  rw [Assembly.add_leaf a hleaf] at hadd
  cases hadd
  simp only [State.settle, if_neg hopen, ok_bind, hentering, switch_stacked hfits,
    enterBody_stacked]
  simp [image, Assembly.extend, Lexeme.source]

theorem settle_of_openBlock {inverted : Bool} {name : Text} {u : Text}
    (h : Aligned template a (tag.source ++ u)) (hfits : Fits head args tag.directive)
    (hdirective : tag.directive = .openBlock inverted name) (hadd : a.add (.tag tag) = .ok b) :
    (stacked ⟨template, a.offset + size tag.source⟩ d a.openBlocks
        (a.layer.nodes.reverse ++ staticNodes tag.kept ++ tag.leaves)
        (entering tag.directive (openingOf a tag.indent).tagStart)).settle
        (openingOf a tag.indent) head =
      .ok (image ((Lexeme.tag tag).delimitersAfter d) template b) := by
  have hopen : head.kind ≠ .closeBlock := by
    rw [hfits.kind, hdirective]
    nofun
  have hleaves : tag.leaves = [] := by rw [Tag.leaves, hdirective]
  have hentering : entering tag.directive (openingOf a tag.indent).tagStart =
      [⟨name, inverted, .ofText name, a.offset + size tag.indent, none, []⟩] := by
    rw [hdirective]
    rfl
  rw [Assembly.add_opening a hdirective] at hadd
  cases hadd
  simp only [State.settle, if_neg hopen, ok_bind, hentering, switch_stacked hfits,
    enterBody_entering, hleaves, List.append_nil]
  have hbody : size (outerText a.openBlocks) + (size a.layer.raw.toList + size tag.source) =
      a.offset + size tag.source := by
    rw [← h.offset, read_eq_outerText, size_append, Nat.add_assoc]
  simp [image, Assembly.enter, Assembly.extend, stacked, frames, rootNodes, outerText_cons,
    Lexeme.source, hbody]

theorem settle_of_closeBlock {name : Text} {u : Text} (h : Aligned template a (tag.source ++ u))
    (hd : tag.delimiters = d) (hfits : Fits head args tag.directive)
    (hdirective : tag.directive = .closeBlock name) (hadd : a.add (.tag tag) = .ok b) :
    (stacked ⟨template, a.offset + size tag.source⟩ d a.openBlocks
        (a.layer.nodes.reverse ++ staticNodes tag.kept ++ tag.leaves)
        (entering tag.directive (openingOf a tag.indent).tagStart)).settle
        (openingOf a tag.indent) head =
      .ok (image ((Lexeme.tag tag).delimitersAfter d) template b) := by
  obtain ⟨block, blocks, hblocks, -⟩ := Assembly.exists_openBlocks_of_add_closing hdirective hadd
  obtain ⟨hopenBlocks, hnodes⟩ := add_of_closeBlock hblocks hdirective hadd
  have hoffset := Assembly.offset_add hadd
  have hclose : head.kind = .closeBlock := by
    rw [hfits.kind, hdirective]
    rfl
  have hleaves : tag.leaves = [] := by rw [Tag.leaves, hdirective]
  have hentering : entering tag.directive (openingOf a tag.indent).tagStart = [] := by
    rw [hdirective]
    rfl
  have hread : a.read = outerText (block :: blocks) ++ a.layer.raw.toList := by
    rw [read_eq_outerText, hblocks]
  have hstart : (openingOf a tag.indent).tagStart =
      size (outerText (block :: blocks)) + size (a.layer.raw.toList ++ tag.indent) := by
    rw [openingOf, ← h.offset, hread, size_append, size_append, Nat.add_assoc]
  have htext : template.toList = outerText (block :: blocks) ++
      (a.layer.raw.toList ++ tag.indent) ++ (tag.front ++ tag.back ++ tag.lineBreak ++ u) := by
    rw [h.source, hread]
    simp [Tag.source]
  have hclosed := @closeSection_stacked ⟨template, a.offset + size tag.source⟩ d block blocks
    (a.layer.nodes.reverse ++ staticNodes tag.kept) _ _ htext
  rw [hentering, hleaves, List.append_nil, hblocks]
  simp only [State.settle, if_pos hclose, hstart, hclosed, ok_bind, switch_stacked hfits,
    enterBody_stacked, image, hopenBlocks, hnodes, hoffset, hd, pure_eq_ok, Lexeme.source]

theorem settle_stacked {u : Text} (h : Aligned template a (tag.source ++ u))
    (hd : tag.delimiters = d) (hfits : Fits head args tag.directive)
    (hadd : a.add (.tag tag) = .ok b) :
    (stacked ⟨template, a.offset + size tag.source⟩ d a.openBlocks
        (a.layer.nodes.reverse ++ staticNodes tag.kept ++ tag.leaves)
        (entering tag.directive (openingOf a tag.indent).tagStart)).settle
        (openingOf a tag.indent) head =
      .ok (image ((Lexeme.tag tag).delimitersAfter d) template b) := by
  cases hdirective : tag.directive with
  | openBlock inverted name =>
      rw [← hdirective]
      exact settle_of_openBlock h hfits hdirective hadd
  | closeBlock name =>
      rw [← hdirective]
      exact settle_of_closeBlock h hd hfits hdirective hadd
  | interpolation | comment | setDelimiters | partialRef =>
      rw [← hdirective]
      exact settle_of_leaf hfits (by rw [hdirective]; rfl) hadd

end Settle

end

/-! ## The end of a tag -/

section Close

variable {c : Cursor} {before : Text} {indent : Text} {head : Reading TagHead}
  {directive : Reading Directive}

/-- The tag that is made of two readings at the place where the assembly ends. -/
def tagOf (d : Delimiters) (a : Assembly) (indent : Text) (head : Reading TagHead)
    (directive : Reading Directive) : Tag :=
  Tag.ofReadings d (startsLine a.read) indent head directive

theorem scanLineEnd_tagOf (hc : c.split = .ok (before, directive.rest))
    (hline : startsLine a.read = true) :
    scanLineEnd directive.value.kind c =
      .ok ((tagOf d a indent head directive).standsAlone,
        c.advance (tagOf d a indent head directive).lineBreak) := by
  rw [tagOf, Tag.ofReadings, ownLineBreak?, hline]
  cases hvalue : directive.value with
  | interpolation form callee args => rfl
  | openBlock | closeBlock | comment | setDelimiters | partialRef =>
      exact scanLineEnd_eq (fun _ hkind => by cases hkind) hc

theorem keepPadding_stacked {frame : List Frame} (hc : c.split = .ok (before, directive.rest))
    (hkind : head.value.kind = directive.value.kind) :
    (stacked c d a.openBlocks
        (nodesBefore a indent ++ (tagOf d a indent head directive).leaves) frame).keepPadding
        (openingOf a indent) head.value =
      .ok (stacked (c.advance (tagOf d a indent head directive).lineBreak) d a.openBlocks
        (a.layer.nodes.reverse ++ staticNodes (tagOf d a indent head directive).kept ++
          (tagOf d a indent head directive).leaves) frame) := by
  cases hline : startsLine a.read with
  | false =>
      have hbreak : (tagOf d a indent head directive).lineBreak = [] := by
        simp [tagOf, Tag.ofReadings, ownLineBreak?, hline]
      have hkept : (tagOf d a indent head directive).kept = indent := by
        simp [tagOf, Tag.ofReadings, ownLineBreak?, hline, Tag.kept]
      simp [State.keepPadding, openingOf, nodesBefore, hline, hbreak, hkept, advance_nil]
  | true =>
      have hscan := @scanLineEnd_tagOf d a c before indent head directive hc hline
      have hopening : (openingOf a indent).lineStart = true := hline
      have hpadding : (openingOf a indent).padding = indent := by simp [openingOf, hline]
      have hnodes : nodesBefore a indent = a.layer.nodes.reverse := by simp [nodesBefore, hline]
      have hdepth : (openingOf a indent).depth = a.openBlocks.length := rfl
      have hinsert : (openingOf a indent).insertAt = a.layer.nodes.reverse.length := rfl
      have hkept : (tagOf d a indent head directive).kept =
          if (tagOf d a indent head directive).standsAlone then [] else indent := rfl
      simp only [State.keepPadding, hopening, if_true, cursor_stacked, hkind, hscan, ok_bind,
        withCursor_stacked, hpadding, hnodes, hdepth, hinsert, insert_stacked, hkept]
      cases (tagOf d a indent head directive).standsAlone with
      | true => simp [staticNodes]
      | false =>
          by_cases hindent : indent = []
          · simp [staticNodes, hindent]
          · simp [staticNodes, hindent]

variable [MarkerLimits]

theorem showValue_stacked {args : List ArgumentToken} {nodes : List Node} {openedAt : Nat}
    (hfits : Fits head.value args directive.value) :
    (stacked c d a.openBlocks
        (nodes ++ references directive.value (tagOf d a indent head directive).padding)
        (entering directive.value openedAt)).showValue head.value args =
      .ok (stacked c d a.openBlocks (nodes ++ (tagOf d a indent head directive).leaves)
        (entering directive.value openedAt)) := by
  obtain ⟨hkind, hcontent, hargs, -⟩ := hfits
  have hdirective : (tagOf d a indent head directive).directive = directive.value := rfl
  rw [State.showValue, hkind, hcontent, hargs, Tag.leaves, hdirective]
  cases directive.value with
  | interpolation form callee args =>
      simp [Directive.kind, Directive.content, references, entering, argsOf, push_stacked]
  | openBlock | closeBlock | comment | setDelimiters | partialRef => rfl

end Close

end Tag

end TagTemplate.Machine
