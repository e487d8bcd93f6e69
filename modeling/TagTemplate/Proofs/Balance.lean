import TagTemplate.Proofs.Lexeme.Truncation
import TagTemplate.Proofs.Printer.Template
import TagTemplate.Proofs.SyntaxError

/-!
# The balancing sigil

A tag of a name may repeat its sigil directly before the closing marker. The end of a tag is read
the same with the repeated sigil and without it, but a slash never gets that far: it is a character
of names, so that a closing tag that repeats it closes a section of another name.
-/

namespace TagTemplate

open Text Reader

/-! ## Tags of a name -/

def Delimiters.tagEnd (d : Delimiters) (sigil : Sigil) (balanced : Bool) : Text :=
  if balanced then sigil.toChar :: d.closer.toList else d.closer.toList

def Delimiters.nameTag (d : Delimiters) (sigil : Sigil) (balanced : Bool) (name : Text) : Text :=
  d.opener.toList ++ (sigil.toChar :: name ++ d.tagEnd sigil balanced)

/-- A repeated slash belongs to the name. -/
theorem nameTag_slash_balanced (d : Delimiters) (name : Text) :
    d.nameTag .slash true name = d.nameTag .slash false (name ++ ['/']) := by
  simp [Delimiters.nameTag, Delimiters.tagEnd, Sigil.toChar]

/-- No name goes on into the closing marker. -/
def Delimiters.EndsNames (d : Delimiters) : Prop := StopsRun isContent d.closer.toList

instance (d : Delimiters) : Decidable d.EndsNames :=
  inferInstanceAs (Decidable (∀ c ∈ d.closer.toList.head?, isContent c = false))

section Tag

variable {d : Delimiters} {sigil : Sigil} {balanced : Bool} {name : Text}

theorem isEnd_tagEnd (hapart : balanced = false → d.closer.toList.head? ≠ some sigil.toChar) :
    TagHead.IsEnd sigil.toChar d.closer.toList (d.tagEnd sigil balanced) := by
  cases balanced with
  | false => exact ⟨[], [], rfl, nofun, .inr ⟨rfl, hapart rfl⟩⟩
  | true => exact ⟨[], [sigil.toChar], rfl, nofun, .inl rfl⟩

theorem stopsRun_tagEnd (hd : d.Valid) (hends : d.EndsNames)
    (hsigil : balanced = true → isContent sigil.toChar = false) (rest : Text) :
    StopsRun isContent (d.tagEnd sigil balanced ++ rest) := by
  cases balanced with
  | false =>
      have hcloser : StopsRun isContent (d.closer.toList ++ []) := by
        rw [List.append_nil]
        exact hends
      exact hcloser.append (Delimiters.isMarker_iff.mp hd.2).1 rest
  | true => exact stopsRun_cons (hsigil rfl)

variable [MarkerLimits]

/-- Wherever a tag of a name stands, it is read for what its sigil asks. -/
theorem exists_next_nameTag {directive : Directive} (sigil : Sigil) (balanced : Bool) (hd : d.Valid)
    (hends : d.EndsNames) (hname : IsName name)
    (hfree : TagHead.takesFreeText (some sigil) = false)
    (hsigil : balanced = true → isContent sigil.toChar = false)
    (hapart : balanced = false → d.closer.toList.head? ≠ some sigil.toChar)
    (hreader : Directive.reader d.closer.toList ⟨some sigil, name⟩ =
      Directive.endReader sigil d.closer.toList directive) (lineStart : Bool) (rest : Text) :
    ∃ tag : Tag, next d lineStart (d.nameTag sigil balanced name ++ rest) =
        .lexeme (.tag tag)
          (restAfter lineStart ⟨directive, d.tagEnd sigil balanced, rest⟩) ∧
      tag.delimiters = d ∧ tag.indent = [] ∧ tag.directive = directive := by
  have hhead : Reads (TagHead.reader d.closer.toList) ⟨some sigil, name⟩
      (sigil.toChar :: name) (fun rest => ∃ u, rest = d.tagEnd sigil balanced ++ u) := by
    refine reads_head [sigil.toChar] [] hfree (fun _ => rfl) nofun hname ?_
    intro _ h
    rcases h with ⟨u, rfl⟩
    exact stopsRun_tagEnd hd hends hsigil u
  have hdirective : Reads (Directive.reader d.closer.toList ⟨some sigil, name⟩) directive
      (d.tagEnd sigil balanced) (fun _ => True) := by
    rw [hreader]
    exact Directive.reads_endReader hd.2 directive (isEnd_tagEnd hapart) _
  have hwhole : d.nameTag sigil balanced name ++ rest = [] ++ d.opener.toList ++
      (sigil.toChar :: name ++ (d.tagEnd sigil balanced ++ rest)) := by
    simp [Delimiters.nameTag]
  rw [hwhole]
  have hnext :=
    next_of_readers hd lineStart [] nofun (hhead _ ⟨rest, rfl⟩) (hdirective rest trivial)
  exact ⟨_, hnext, rfl, rfl, rfl⟩

end Tag

theorem restAfter_eq_rest {d : Delimiters} (hd : d.Valid) (lineStart : Bool)
    {directive : Reading Directive}
    (h : directive.rest = [] ∨ d.opener.toList <+: directive.rest) :
    restAfter lineStart directive = directive.rest := by
  unfold restAfter
  cases hbreak : ownLineBreak? lineStart directive with
  | none => rfl
  | some parts =>
      obtain ⟨lineBreak, rest⟩ := parts
      obtain ⟨-, -, hsplit⟩ := ownLineBreak?_eq_some_iff.mp hbreak
      rcases eq_nil_or_isLineBreak hsplit with ⟨-, hnil, hrest⟩ | hline
      · rw [hnil]
        exact hrest
      · have happ := splitLineBreak?_append hsplit
        rcases h with hnil | ⟨u, hu⟩
        · rw [hnil, List.append_eq_nil_iff] at happ
          exact absurd hline.endsLine_eq (by simp [happ.1, endsLine])
        · have hopening : lineBreak ++ rest = [] ++ d.opener.toList ++ u := by
            rw [happ, ← hu]
            rfl
          exact absurd hopening (hline.ne_opening hd.1 (List.forall_mem_nil _))

/-! ## One tag and two -/

theorem staticNodes_kept {tag : Tag} (h : tag.indent = []) : staticNodes tag.kept = [] := by
  have hkept : tag.kept = [] := by
    unfold Tag.kept
    split
    · rfl
    · exact h
  rw [hkept]
  rfl

theorem delimitersAfter_of_directive {d : Delimiters} {tag : Tag}
    (h : tag.directive.kind ≠ .setDelimiters) : (Lexeme.tag tag).delimitersAfter d = d := by
  rw [delimitersAfter_tag]
  split
  · rename_i hdirective
    rw [hdirective] at h
    exact absurd rfl h
  · rfl

theorem compile_of_next [MarkerLimits] {d : Delimiters} {t : Text} {tag : Tag}
    (hlimit : d.withinLimit = true) (ht : t ≠ []) (hnext : next d true t = .lexeme (.tag tag) []) (hindent : tag.indent = [])
    (hleaf : tag.directive.isBoundary = false) :
    compile d (String.ofList t) = .ok (.multi tag.leaves) := by
  have hforms := Forms.leaf hleaf .nil
  rw [staticNodes_kept hindent, List.nil_append, List.append_nil] at hforms
  exact compile_of_lexes hlimit (.cons ht hnext .nil) hforms

section Compile

variable {d : Delimiters} {name : Text}

theorem isContent_openSigil (inverted : Bool) :
    isContent (Node.openSigil inverted).toChar = false := by
  cases inverted with
  | false => decide
  | true => decide

section

variable [MarkerLimits]

theorem reader_openSigil (closer : Text) (inverted : Bool) (name : Text) :
    Directive.reader closer ⟨some (Node.openSigil inverted), name⟩ =
      Directive.endReader (Node.openSigil inverted) closer (.openBlock inverted name) := by
  cases inverted with
  | false => rfl
  | true => rfl

theorem exists_lexes_section {inverted balanced : Bool} {name' : Text} (hd : d.Valid)
    (hends : d.EndsNames) (hname : IsName name) (hname' : IsName name')
    (hapart : balanced = false → d.closer.toList.head? ≠ some (Node.openSigil inverted).toChar) :
    ∃ opening closing : Tag,
      Lexes d true (d.nameTag (Node.openSigil inverted) balanced name ++
        d.nameTag .slash false name') [.tag opening, .tag closing] ∧
      opening.indent = [] ∧ opening.directive = .openBlock inverted name ∧
      closing.indent = [] ∧ closing.directive = .closeBlock name' ∧ closing.delimiters = d := by
  have hfree : TagHead.takesFreeText (some (Node.openSigil inverted)) = false := by
    cases inverted with
    | false => rfl
    | true => rfl
  have hslash : d.closer.toList.head? ≠ some Sigil.slash.toChar := by
    intro hhead
    have hno := hends _ hhead
    revert hno
    decide
  obtain ⟨opening, hopening, -, hindent, hopen⟩ := exists_next_nameTag
    (Node.openSigil inverted) balanced hd hends hname hfree (fun _ => isContent_openSigil inverted)
    hapart (reader_openSigil _ inverted name) true (d.nameTag .slash false name')
  obtain ⟨closing, hclosing, hpair, hindent', hclose⟩ := exists_next_nameTag .slash false hd
    hends hname' rfl nofun (fun _ => hslash) rfl (Lexeme.tag opening).startsLineAfter []
  rw [restAfter_eq_rest hd _ (.inr (by simp [Delimiters.nameTag]))] at hopening
  rw [restAfter_eq_rest hd _ (.inl rfl), List.append_nil] at hclosing
  have hafter : (Lexeme.tag opening).delimitersAfter d = d := by
    apply delimitersAfter_of_directive
    rw [hopen]
    nofun
  refine ⟨opening, closing, ?_, hindent, hopen, hindent', hclose, hpair⟩
  refine .cons (by simp [Delimiters.nameTag]) hopening ?_
  rw [hafter]
  exact .cons (by simp [Delimiters.nameTag]) hclosing .nil

omit [MarkerLimits] in
theorem Assembly.add_closing_of_ne (a : Assembly) (opening : Tag) {closing : Tag} (inverted : Bool)
    {name' : Text} (hname : name ≠ name') (hclose : closing.directive = .closeBlock name') :
    ∃ log, (a.enter opening inverted name).add (.tag closing) =
      .error ⟨.unclosedSection (String.ofList name), a.offset + size opening.indent, log⟩ := by
  simp [add, addTag, closeFault?, logTag, enter, hclose, Directive.kind, Directive.content, hname,
    fail]

/-- A template of an opening and a closing tag compiles to an empty section if the names agree, and
otherwise fails at the opening tag. -/
theorem compile_section {inverted balanced : Bool} {name' : Text} (hd : d.Valid)
    (hlimit : d.withinLimit = true) (hends : d.EndsNames) (hname : IsName name)
    (hname' : IsName name')
    (hapart : balanced = false → d.closer.toList.head? ≠ some (Node.openSigil inverted).toChar)
    {template : String} (htemplate : template = String.ofList
      (d.nameTag (Node.openSigil inverted) balanced name ++ d.nameTag .slash false name')) :
    compile d template =
      if name = name' then .ok (.multi [.block inverted (.ofText name) [] "" d])
      else .error (SyntaxError.locate template 0
        (Fault.unclosedSection (String.ofList name)).message) := by
  obtain ⟨opening, closing, hlexes, hindent, hopen, hindent', hclose, hpair⟩ :=
    exists_lexes_section hd hends hname hname' hapart
  by_cases hsame : name = name'
  · subst hsame
    have hforms := Forms.block hopen hclose .nil .nil
    rw [staticNodes_kept hindent, staticNodes_kept hindent', hindent', hpair] at hforms
    rw [if_pos rfl, htemplate, compile_of_lexes hlimit hlexes hforms]
    rfl
  · have hread : Lexemes.read d template.toList = ⟨[.tag opening, .tag closing], none⟩ := by
      rw [htemplate, String.toList_ofList]
      exact hlexes.readFrom_eq
    obtain ⟨log, hlog⟩ := Assembly.add_closing_of_ne { log := [.started template.utf8ByteSize] }
      opening inverted hsame hclose
    have hassembled : Assembly.ofLexemes { log := [.started template.utf8ByteSize] }
        (Lexemes.read d template.toList) =
          .error ⟨.unclosedSection (String.ofList name), 0, log⟩ := by
      rw [hread, Assembly.ofLexemes, Assembly.foldlM_add_cons _ (Assembly.add_opening _ hopen),
        List.foldlM_cons, hlog, hindent]
      rfl
    rw [if_neg hsame, compile_of_withinLimit hlimit, hassembled]
    rfl

theorem compile_partial {sigil : Sigil} {balanced : Bool} (hd : d.Valid)
    (hlimit : d.withinLimit = true) (hends : d.EndsNames) (hname : IsName name)
    (hsigil : sigil = .less ∨ sigil = .greater)
    (hapart : balanced = false → d.closer.toList.head? ≠ some sigil.toChar) :
    compile d (String.ofList (d.nameTag sigil balanced name)) =
      .ok (.multi [.partialRef (String.ofList name) ""]) := by
  have hfree : TagHead.takesFreeText (some sigil) = false := by
    rcases hsigil with rfl | rfl
    · rfl
    · rfl
  have hcontent : isContent sigil.toChar = false := by
    rcases hsigil with rfl | rfl
    · decide
    · decide
  have hreader : Directive.reader d.closer.toList ⟨some sigil, name⟩ =
      Directive.endReader sigil d.closer.toList (.partialRef name) := by
    rcases hsigil with rfl | rfl
    · rfl
    · rfl
  obtain ⟨tag, hnext, -, hindent, hdirective⟩ := exists_next_nameTag sigil balanced hd hends
    hname hfree (fun _ => hcontent) hapart hreader true []
  rw [restAfter_eq_rest hd _ (.inl rfl), List.append_nil] at hnext
  have hpadding : tag.padding = [] := by
    unfold Tag.padding
    split
    · exact hindent
    · rfl
  have hleaf : tag.directive.isBoundary = false := by
    rw [hdirective]
    rfl
  rw [compile_of_next hlimit (by simp [Delimiters.nameTag]) hnext hindent hleaf, Tag.leaves,
    hdirective, hpadding]

/-- The balancing sigil is optional in tags for partials and in tags that open a section, unless the
closing marker begins with it and so has to be set apart by it. It is no part of a closing tag: with
a repeated slash the tag closes a section of another name, and the one that is open is to blame. -/
theorem compile_nameTag (hd : d.Valid) (hlimit : d.withinLimit = true) (hends : d.EndsNames)
    (hname : IsName name) :
    (∀ sigil balanced, sigil = .less ∨ sigil = .greater →
      (balanced = false → d.closer.toList.head? ≠ some sigil.toChar) →
      compile d (String.ofList (d.nameTag sigil balanced name)) =
        .ok (.multi [.partialRef (String.ofList name) ""])) ∧
    ∀ inverted balanced,
      (balanced = false → d.closer.toList.head? ≠ some (Node.openSigil inverted).toChar) →
      compile d (String.ofList (d.nameTag (Node.openSigil inverted) balanced name ++
          d.nameTag .slash false name)) =
        .ok (.multi [.block inverted (.ofText name) [] "" d]) ∧
      ∃ error, compile d (String.ofList (d.nameTag (Node.openSigil inverted) balanced name ++
          d.nameTag .slash true name)) = .error error ∧
        error.message = "Unclosed section " ++ quoted (String.ofList name) ∧
        error.line = 1 ∧ error.column = 0 := by
  refine ⟨?_, ?_⟩
  · intro sigil balanced hsigil hapart
    exact compile_partial hd hlimit hends hname hsigil hapart
  · intro inverted balanced hapart
    have hlonger : IsName (name ++ ['/']) := by
      refine ⟨by simp, ?_⟩
      intro c hc
      rcases List.mem_append.mp hc with hc | hc
      · exact hname.2 c hc
      · rw [List.mem_singleton.mp hc]
        decide
    have hne : name ≠ name ++ ['/'] := by simp
    have hmatch := compile_section hd hlimit hends hname hname hapart rfl
    have hblame := compile_section hd hlimit hends hname hlonger hapart rfl
    rw [if_pos rfl] at hmatch
    rw [if_neg hne] at hblame
    rw [nameTag_slash_balanced]
    exact ⟨hmatch, _, hblame, SyntaxError.locate_zero _ _⟩

end

/-- Markers that are themselves sigils: a repeated sigil sets the closing marker apart. -/
theorem compile_nameTag_angle :
    compile ⟨"<<", ">>"⟩ "<<<a>>" = .ok (.multi [.partialRef "a" ""]) ∧
      compile ⟨"<<", ">>"⟩ "<<>a>>>" = .ok (.multi [.partialRef "a" ""]) ∧
      compile ⟨"<<", ">>"⟩ "<<^a^>><</a>>" =
        .ok (.multi [.block true ⟨["a"]⟩ [] "" ⟨"<<", ">>"⟩]) ∧
      ∃ error, compile ⟨"<<", ">>"⟩ "<<^a^>><</a/>>" = .error error ∧
        error.message = "Unclosed section \"a\"" := by
  have hd : Delimiters.Valid ⟨"<<", ">>"⟩ := by decide
  have hends : Delimiters.EndsNames ⟨"<<", ">>"⟩ := stopsRun_cons (by decide)
  have hname : IsName ['a'] := by decide
  obtain ⟨hpartial, hsection⟩ := compile_nameTag hd (by decide) hends hname
  obtain ⟨hmatch, error, hblame, hmessage, -⟩ := hsection true true nofun
  exact ⟨hpartial .less false (.inl rfl) (by decide), hpartial .greater true (.inr rfl) nofun,
    hmatch, error, hblame, hmessage⟩

/-- A section whose tags repeat their sigils everywhere is not the section without them, a closing
marker is mistaken for a repeated sigil, and a pair beyond the limits is refused. -/
theorem compile_balanced_slash :
    (compile .standard "\x7b\x7b#a\x7d\x7d\x7b\x7b/a\x7d\x7d" =
        .ok (.multi [.block false ⟨["a"]⟩ [] "" .standard]) ∧
      compile .standard "\x7b\x7b#a#\x7d\x7d\x7b\x7b/a/\x7d\x7d" =
        .error ⟨"Unclosed section \"a\"", 1, 0, "\x7b\x7b#a#\x7d\x7d\x7b\x7b/a/\x7d\x7d"⟩) ∧
      compile ⟨"<", ">"⟩ "<>a>" = .error ⟨"Unclosed tag", 1, 4, "<>a>"⟩ ∧
      ∀ [MarkerLimits] (d : Delimiters), d.withinLimit = false → ∀ template,
        compile d template = .error (SyntaxError.locate template 0 "Invalid delimiters") := by
  refine ⟨⟨?_, ?_⟩, ?_, ?_⟩
  · rw [compile_eq_evaluate]
    rfl
  · rw [compile_eq_evaluate]
    rfl
  · rw [compile_eq_evaluate]
    rfl
  · intro _ d hlimit
    exact compile_of_not_withinLimit hlimit

end Compile

end TagTemplate
