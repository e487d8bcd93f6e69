import TagTemplate.Lexeme.Sequence
import TagTemplate.Proofs.Lexeme.Boundary
import TagTemplate.Proofs.Tag.Reader

/-!
# Lexemes in place

What a lexeme says about the text around it: which pair was in force, whether a line started, and
how the tag or the run of text fits what stands before and after. Every lexeme of a template that
was read to its end is such a lexeme, read in front of exactly the sources of those after it.
-/

namespace TagTemplate

open Text

def sourceOf (lexemes : List Lexeme) : Text := lexemes.flatMap Lexeme.source

@[simp] theorem sourceOf_nil : sourceOf [] = [] := rfl

@[simp] theorem sourceOf_cons (lexeme : Lexeme) (lexemes : List Lexeme) :
    sourceOf (lexeme :: lexemes) = lexeme.source ++ sourceOf lexemes := rfl

@[simp] theorem sourceOf_append (lexemes lexemes' : List Lexeme) :
    sourceOf (lexemes ++ lexemes') = sourceOf lexemes ++ sourceOf lexemes' :=
  List.flatMap_append

def pairAfter (d : Delimiters) (lexemes : List Lexeme) : Delimiters :=
  lexemes.foldl Lexeme.delimitersAfter d

@[simp] theorem pairAfter_nil (d : Delimiters) : pairAfter d [] = d := rfl

@[simp] theorem pairAfter_cons (d : Delimiters) (lexeme : Lexeme) (lexemes : List Lexeme) :
    pairAfter d (lexeme :: lexemes) = pairAfter (lexeme.delimitersAfter d) lexemes := rfl

theorem pairAfter_append (d : Delimiters) (lexemes lexemes' : List Lexeme) :
    pairAfter d (lexemes ++ lexemes') = pairAfter (pairAfter d lexemes) lexemes' :=
  List.foldl_append

@[simp] theorem delimitersAfter_text (d : Delimiters) (t : Text) :
    (Lexeme.text t).delimitersAfter d = d := rfl

/-- Whether a line starts after some text: at the start of the template and after a line feed. -/
def startsLine (before : Text) : Bool := before.isEmpty || endsLine before

theorem startsLine_iff {before : Text} :
    startsLine before = true ↔ before = [] ∨ endsLine before = true := by
  simp [startsLine]

theorem startsLine_append {s t : Text} (ht : t ≠ []) : startsLine (s ++ t) = endsLine t := by
  simp [startsLine, ht, endsLine_append ht]

/-! ## One lexeme -/

/-- The line break that a tag takes with it, and what is left, if the tag has a line to itself. -/
def ownLineBreak? (lineStart : Bool) (directive : Reading Directive) : Option (Text × Text) :=
  if lineStart && ! directive.value.isInterpolation then splitLineBreak? directive.rest else none

theorem ownLineBreak?_eq_some_iff {lineStart : Bool} {directive : Reading Directive}
    {parts : Text × Text} :
    ownLineBreak? lineStart directive = some parts ↔ lineStart = true ∧
      directive.value.isInterpolation = false ∧ splitLineBreak? directive.rest = some parts := by
  unfold ownLineBreak?
  cases lineStart with
  | false => simp
  | true =>
      cases directive.value.isInterpolation with
      | false => simp
      | true => simp

/-- A tag put together from what its two readers made of it. -/
def Tag.ofReadings (d : Delimiters) (lineStart : Bool) (indent : Text) (head : Reading TagHead)
    (directive : Reading Directive) : Tag :=
  { delimiters := d
    indent
    front := d.opener.toList ++ head.read
    back := directive.read
    lineBreak := ((ownLineBreak? lineStart directive).map (·.1)).getD []
    directive := directive.value
    opensLine := lineStart
    standsAlone := (ownLineBreak? lineStart directive).isSome }

theorem Tag.source_eq (tag : Tag) : tag.source = tag.indent ++ tag.written ++ tag.lineBreak := by
  simp [Tag.source, Tag.written]

def restAfter (lineStart : Bool) (directive : Reading Directive) : Text :=
  ((ownLineBreak? lineStart directive).map (·.2)).getD directive.rest

section

variable [MarkerLimits]

theorem readTag_eq_lexeme_iff {d : Delimiters} {lineStart : Bool} {indent t rest : Text}
    {lexeme : Lexeme} :
    readTag d lineStart indent t = .lexeme lexeme rest ↔ ∃ head directive,
      TagHead.reader d.closer.toList t = .ok head ∧
      Directive.reader d.closer.toList head.value head.rest = .ok directive ∧
      lexeme = .tag (Tag.ofReadings d lineStart indent head directive) ∧
      rest = restAfter lineStart directive := by
  unfold readTag
  cases hh : TagHead.reader d.closer.toList t with
  | error stop => simp [hh]
  | ok head =>
      cases hd : Directive.reader d.closer.toList head.value head.rest with
      | error stop =>
          simp only [hh, hd, reduceCtorEq, false_iff]
          intro h
          rcases h with ⟨head', directive, hhead, hdirective, -⟩
          cases hhead
          rw [hd] at hdirective
          cases hdirective
      | ok directive =>
          simp only [hh, hd, Next.lexeme.injEq]
          constructor
          · intro h
            rcases h with ⟨rfl, rfl⟩
            exact ⟨head, directive, rfl, hd, rfl, rfl⟩
          · intro h
            rcases h with ⟨head', directive', hhead, hdirective, rfl, rfl⟩
            cases hhead
            rw [hd] at hdirective
            cases hdirective
            exact ⟨rfl, rfl⟩

theorem next_eq_text_iff {d : Delimiters} {lineStart : Bool} {t text rest : Text} :
    next d lineStart t = .lexeme (.text text) rest ↔
      splitOpening d.opener.toList t = none ∧ splitText d.opener.toList t = (text, rest) := by
  unfold next
  cases hs : splitOpening d.opener.toList t with
  | some parts =>
      simp [readTag_eq_lexeme_iff]
  | none => simp [Prod.ext_iff]

theorem next_eq_tag_iff {d : Delimiters} {lineStart : Bool} {t rest : Text} {tag : Tag} :
    next d lineStart t = .lexeme (.tag tag) rest ↔ ∃ indent u,
      splitOpening d.opener.toList t = some (indent, u) ∧
      readTag d lineStart indent u = .lexeme (.tag tag) rest := by
  unfold next
  cases hs : splitOpening d.opener.toList t with
  | some parts =>
      obtain ⟨indent, u⟩ := parts
      constructor
      · intro h
        exact ⟨indent, u, rfl, h⟩
      · intro h
        rcases h with ⟨indent', u', hsame, h⟩
        cases hsame
        exact h
  | none => simp

/-- What both readers of a tag take after an opening marker makes up the tag. -/
theorem next_of_readers {d : Delimiters} {t : Text} {head : Reading TagHead}
    {directive : Reading Directive} (hd : d.Valid) (lineStart : Bool) (indent : Text)
    (hindent : ∀ c ∈ indent, isIndent c = true)
    (hhead : TagHead.reader d.closer.toList t = .ok head)
    (hdirective : Directive.reader d.closer.toList head.value head.rest = .ok directive) :
    next d lineStart (indent ++ d.opener.toList ++ t) =
      .lexeme (.tag (Tag.ofReadings d lineStart indent head directive))
        (restAfter lineStart directive) :=
  next_eq_tag_iff.mpr ⟨indent, t, (splitOpening_eq_some_iff hd.1).mpr ⟨rfl, hindent⟩,
    readTag_eq_lexeme_iff.mpr ⟨head, directive, hhead, hdirective, rfl, rfl⟩⟩

/-- A tag whose front can be read is broken where the rest of it cannot. -/
theorem next_of_stop {d : Delimiters} {t : Text} {head : Reading TagHead} {stop : Stop}
    (hd : d.Valid) (lineStart : Bool) (indent : Text)
    (hindent : ∀ c ∈ indent, isIndent c = true)
    (hhead : TagHead.reader d.closer.toList t = .ok head)
    (hstop : Directive.reader d.closer.toList head.value head.rest = .error stop) :
    next d lineStart (indent ++ d.opener.toList ++ t) =
      .broken ⟨indent, d.opener.toList ++ head.read, stop.read, some head.value, stop.fault⟩ := by
  have hopening : splitOpening d.opener.toList (indent ++ d.opener.toList ++ t) =
      some (indent, t) := (splitOpening_eq_some_iff hd.1).mpr ⟨rfl, hindent⟩
  simp only [next, hopening, readTag, hhead, hstop]

end

/-- How a tag fits the text around it: the line may start before the tag, and `rest` comes after
the tag and its line break. -/
structure Tag.Placed (d : Delimiters) (lineStart : Bool) (rest : Text) (tag : Tag) : Prop where
  delimiters_eq : tag.delimiters = d
  opensLine_eq : tag.opensLine = lineStart
  indent : ∀ c ∈ tag.indent, isIndent c = true
  starts_opener : d.opener.toList <+: tag.written
  ends_closer : d.closer.toList <:+ tag.written
  standsAlone_iff : tag.standsAlone = true ↔ lineStart = true ∧
    tag.directive.isInterpolation = false ∧ (splitLineBreak? (tag.lineBreak ++ rest)).isSome = true
  lineBreak_eq : tag.standsAlone = true →
    splitLineBreak? (tag.lineBreak ++ rest) = some (tag.lineBreak, rest)
  lineBreak_eq_nil : tag.standsAlone = false → tag.lineBreak = []

theorem placed_of_next [MarkerLimits] {d : Delimiters} {lineStart : Bool} {t rest : Text}
    {tag : Tag} (hd : d.Valid) (h : next d lineStart t = .lexeme (.tag tag) rest) :
    tag.Placed d lineStart rest := by
  obtain ⟨indent, u, hs, hr⟩ := next_eq_tag_iff.mp h
  obtain ⟨head, directive, hhead, hdirective, htag, rfl⟩ := readTag_eq_lexeme_iff.mp hr
  cases htag
  have hindent := splitOpening_indent hs
  have hopener : d.opener.toList <+: (Tag.ofReadings d lineStart indent head directive).written :=
    ⟨head.read ++ directive.read, by simp [Tag.written, Tag.ofReadings]⟩
  have hcloser : d.closer.toList <:+ (Tag.ofReadings d lineStart indent head directive).written :=
    (Directive.reader_read_suffix hd.2 hdirective).trans (List.suffix_append _ _)
  cases hb : ownLineBreak? lineStart directive with
  | none =>
      have hno : ¬ (lineStart = true ∧ directive.value.isInterpolation = false ∧
          (splitLineBreak? directive.rest).isSome = true) := by
        intro h
        rcases h with ⟨hl, hi, hsome⟩
        obtain ⟨parts, hparts⟩ := Option.isSome_iff_exists.mp hsome
        rw [ownLineBreak?_eq_some_iff.mpr ⟨hl, hi, hparts⟩] at hb
        cases hb
      exact {
        delimiters_eq := rfl
        opensLine_eq := rfl
        indent := hindent
        starts_opener := hopener
        ends_closer := hcloser
        standsAlone_iff := by
          simp only [Tag.ofReadings, restAfter, hb, Option.isSome_none, Bool.false_eq_true,
            false_iff]
          simpa using hno
        lineBreak_eq := by simp [Tag.ofReadings, hb]
        lineBreak_eq_nil := by simp [Tag.ofReadings, hb] }
  | some parts =>
      obtain ⟨lineBreak, after⟩ := parts
      obtain ⟨rfl, hi, hbreak⟩ := ownLineBreak?_eq_some_iff.mp hb
      have happ : lineBreak ++ after = directive.rest := splitLineBreak?_append hbreak
      exact {
        delimiters_eq := rfl
        opensLine_eq := rfl
        indent := hindent
        starts_opener := hopener
        ends_closer := hcloser
        standsAlone_iff := by
          simp [Tag.ofReadings, restAfter, hb, happ, hi, hbreak]
        lineBreak_eq := by simp [Tag.ofReadings, restAfter, hb, happ, hbreak]
        lineBreak_eq_nil := by simp [Tag.ofReadings, hb] }

theorem delimitersAfter_tag (d : Delimiters) (tag : Tag) :
    (Lexeme.tag tag).delimitersAfter d = match tag.directive with
      | .setDelimiters _ pair => pair
      | _ => d := by
  obtain ⟨_, _, _, _, _, directive, _, _⟩ := tag
  cases directive <;> rfl

variable [MarkerLimits]

theorem valid_delimitersAfter {d : Delimiters} {lineStart : Bool} {t rest : Text} {lexeme : Lexeme}
    (hd : d.Valid ∧ d.withinLimit = true) (h : next d lineStart t = .lexeme lexeme rest) :
    (lexeme.delimitersAfter d).Valid ∧ (lexeme.delimitersAfter d).withinLimit = true := by
  cases lexeme with
  | text t => exact hd
  | tag tag =>
      rw [delimitersAfter_tag]
      split
      · rename_i text pair hdir
        obtain ⟨indent, u, -, hr⟩ := next_eq_tag_iff.mp h
        obtain ⟨head, directive, -, hdirective, htag, -⟩ := readTag_eq_lexeme_iff.mp hr
        cases htag
        exact Directive.valid_of_pair? (Directive.pair?_of_reader_eq_ok hd.1.2 hdirective hdir)
      · exact hd

/-! ## Sequences -/

/-- The text is read to its end as these lexemes. -/
inductive Lexes : Delimiters → Bool → Text → List Lexeme → Prop where
  | nil {d : Delimiters} {lineStart : Bool} : Lexes d lineStart [] []
  | cons {d : Delimiters} {lineStart : Bool} {t rest : Text} {lexeme : Lexeme}
      {lexemes : List Lexeme} : t ≠ [] → next d lineStart t = .lexeme lexeme rest →
      Lexes (lexeme.delimitersAfter d) lexeme.startsLineAfter rest lexemes →
      Lexes d lineStart t (lexeme :: lexemes)

namespace Lexes

variable {d : Delimiters} {lineStart : Bool} {t : Text} {lexemes : List Lexeme}

theorem readFrom_eq (h : Lexes d lineStart t lexemes) :
    Lexemes.readFrom d lineStart t [] = ⟨lexemes, none⟩ := by
  induction h with
  | nil => simp
  | cons ht hn _ ih =>
      rw [Lexemes.readFrom_of_lexeme ht hn, Lexemes.readFrom_seen, ih]
      rfl

theorem of_readFrom (h : (Lexemes.readFrom d lineStart t []).broken? = none) :
    Lexes d lineStart t (Lexemes.readFrom d lineStart t []).lexemes := by
  induction hn : t.length using Nat.strongRecOn generalizing d lineStart t with
  | ind n ih =>
      by_cases ht : t = []
      · subst ht
        simpa using Lexes.nil
      · cases hx : next d lineStart t with
        | broken tag => simp [Lexemes.readFrom_of_broken ht hx] at h
        | lexeme lexeme rest =>
            have hlt := next_length_lt ht hx
            rw [Lexemes.readFrom_of_lexeme ht hx, Lexemes.readFrom_seen] at h ⊢
            exact .cons ht hx (ih rest.length (by omega) h rfl)

theorem sourceOf_eq (h : Lexes d lineStart t lexemes) : sourceOf lexemes = t := by
  induction h with
  | nil => rfl
  | cons ht hn _ ih =>
      rw [← (next_append ht hn).1, ← ih]
      rfl

theorem source_ne_nil (h : Lexes d lineStart t lexemes) : ∀ x ∈ lexemes, x.source ≠ [] := by
  induction h with
  | nil => simp
  | cons ht hn _ ih =>
      intro x hx
      rcases List.mem_cons.mp hx with rfl | hx
      · exact (next_append ht hn).2
      · exact ih x hx

theorem drop {before after : List Lexeme} (h : Lexes d lineStart t (before ++ after)) :
    Lexes (pairAfter d before) (before.foldl (fun _ x => x.startsLineAfter) lineStart)
      (sourceOf after) after := by
  induction before generalizing d lineStart t with
  | nil =>
      rw [List.nil_append] at h
      rw [h.sourceOf_eq]
      exact h
  | cons first before ih =>
      cases h with
      | cons ht hn hrest => exact ih hrest

end Lexes

omit [MarkerLimits] in
theorem foldl_startsLineAfter {lexemes : List Lexeme} (h : ∀ x ∈ lexemes, x.source ≠ [])
    (before : Text) :
    lexemes.foldl (fun _ x => x.startsLineAfter) (startsLine before) =
      startsLine (before ++ sourceOf lexemes) := by
  induction lexemes generalizing before with
  | nil => simp
  | cons lexeme lexemes ih =>
      have hline : lexeme.startsLineAfter = startsLine (before ++ lexeme.source) := by
        rw [startsLine_append (h lexeme List.mem_cons_self)]
        rfl
      rw [List.foldl_cons, hline, ih fun x hx => h x (List.mem_cons_of_mem _ hx)]
      simp

/-- From the start of a template on, each lexeme is read with the pair that the ones before it
leave in force, where the text before it ends, in front of the text after it. -/
theorem Lexes.next_eq {d : Delimiters} {template : Text} {before after : List Lexeme}
    {lexeme : Lexeme} (h : Lexes d true template (before ++ lexeme :: after)) :
    next (pairAfter d before) (startsLine (sourceOf before)) (lexeme.source ++ sourceOf after) =
      .lexeme lexeme (sourceOf after) := by
  have hline := foldl_startsLineAfter (fun x hx => h.source_ne_nil x (List.mem_append_left _ hx)) []
  rw [List.nil_append] at hline
  have hdrop := h.drop
  rw [show startsLine [] = true from rfl] at hline
  rw [hline] at hdrop
  generalize hu : sourceOf (lexeme :: after) = u at hdrop
  cases hdrop with
  | cons ht hn hrest =>
      rw [sourceOf_cons] at hu
      rw [hu, hrest.sourceOf_eq]
      exact hn

theorem Lexes.valid_pairAfter_left {d : Delimiters} {lineStart : Bool} {t : Text}
    {before after : List Lexeme} (hd : d.Valid ∧ d.withinLimit = true)
    (h : Lexes d lineStart t (before ++ after)) :
    (pairAfter d before).Valid ∧ (pairAfter d before).withinLimit = true := by
  induction before generalizing d lineStart t with
  | nil => exact hd
  | cons first before ih =>
      cases h with
      | cons _ hn hrest => exact ih (valid_delimitersAfter hd hn) hrest

/-- From the start of a template on, each tag stands in place. -/
theorem Lexes.placed {d : Delimiters} {template : Text} {before after : List Lexeme} {tag : Tag}
    (hd : d.Valid ∧ d.withinLimit = true)
    (h : Lexes d true template (before ++ .tag tag :: after)) :
    tag.Placed (pairAfter d before) (startsLine (sourceOf before)) (sourceOf after) :=
  placed_of_next (h.valid_pairAfter_left hd).1 h.next_eq

end TagTemplate
