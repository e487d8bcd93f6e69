import TagTemplate.Proofs.Lexeme.Reading

/-!
# Lexemes of a piece of a template

The body of a section is read again by itself: a line may start where none started before, and the
text ends where the closing tag was. This changes which blanks and line breaks go with a tag, but
not what the tags say. A line break that goes with a tag only in the piece is the start of a run of
text in the whole.
-/

namespace TagTemplate

open Text

/-- What a tag says and the pair it was read with, without the blanks and line breaks around it. -/
def Lexeme.core? : Lexeme → Option (Delimiters × Directive)
  | text _ => none
  | tag t => some (t.delimiters, t.directive)

/-! ## Openings in less text -/

section Boundary

variable {opener t s : Text}

theorem opensHere_eq_false_of_append {lineStart : Bool} (ho : Delimiters.isMarker opener = true)
    (h : opensHere opener lineStart (t ++ s) = false) : opensHere opener lineStart t = false := by
  cases hopens : opensHere opener lineStart t with
  | false => rfl
  | true =>
      obtain ⟨indent, rest, rfl, hindent, hline⟩ := (opensHere_iff ho).mp hopens
      have hmore : opensHere opener lineStart (indent ++ opener ++ rest ++ s) = true :=
        (opensHere_iff ho).mpr ⟨indent, rest ++ s, by simp, hindent, hline⟩
      rw [h] at hmore
      cases hmore

theorem opensHere_eq_false_of_isIndent {lineStart : Bool} (ho : Delimiters.isMarker opener = true)
    (h : ∀ c ∈ t, isIndent c = true) : opensHere opener lineStart t = false := by
  cases hopens : opensHere opener lineStart t with
  | false => rfl
  | true =>
      obtain ⟨indent, rest, rfl, -, -⟩ := (opensHere_iff ho).mp hopens
      obtain ⟨c, marker, rfl⟩ := List.exists_cons_of_ne_nil (Delimiters.isMarker_iff.mp ho).1
      have hblank := h c (by simp)
      rw [isIndent_eq_false_of_isMarker ho List.mem_cons_self] at hblank
      cases hblank

theorem opensHere_opening_iff {lineStart : Bool} {indent : Text}
    (ho : Delimiters.isMarker opener = true) (hindent : ∀ c ∈ indent, isIndent c = true) :
    opensHere opener lineStart (indent ++ opener ++ t) = true ↔ lineStart = true ∨ indent = [] := by
  constructor
  · intro h
    obtain ⟨indent', rest, heq, hindent', hline⟩ := (opensHere_iff ho).mp h
    have hsame := (splitOpening_eq_some_iff ho).mpr ⟨heq, hindent'⟩
    rw [(splitOpening_eq_some_iff ho).mpr ⟨rfl, hindent⟩] at hsame
    cases hsame
    exact hline
  · exact fun hline => (opensHere_iff ho).mpr ⟨indent, t, rfl, hindent, hline⟩

/-- No tag opens in the text, which stands where a line starts and before `rest`. -/
def PassesOver (opener text rest : Text) : Prop :=
  ∀ s u, text = s ++ u → u ≠ [] → opensHere opener (startsLine s) (u ++ rest) = false

namespace PassesOver

variable {text rest : Text}

theorem of_append (ho : Delimiters.isMarker opener = true)
    (h : PassesOver opener text (rest ++ s)) : PassesOver opener text rest := by
  intro v u hvu hu
  have hwhole := h v u hvu hu
  rw [← List.append_assoc] at hwhole
  exact opensHere_eq_false_of_append ho hwhole

theorem drop_line (h : PassesOver opener (t ++ text) rest) (ht : endsLine t = true) :
    PassesOver opener text rest := by
  intro v u hvu hu
  have hwhole := h (t ++ v) u (by rw [hvu, List.append_assoc]) hu
  have hline : startsLine (t ++ v) = startsLine v := by
    cases v with
    | nil => rw [List.append_nil, startsLine, ht, Bool.or_true]; rfl
    | cons c v => rw [startsLine_append (by simp), startsLine]; rfl
  rwa [hline] at hwhole

theorem append_blanks (ho : Delimiters.isMarker opener = true) (h : PassesOver opener text t)
    (ht : ∀ c ∈ t, isIndent c = true) : PassesOver opener (text ++ t) [] := by
  intro v u hvu hu
  rw [List.append_nil]
  rcases List.append_eq_append_iff.mp hvu with ⟨blanks, -, rfl⟩ | ⟨piece, hpiece, rfl⟩
  · exact opensHere_eq_false_of_isIndent ho fun c hc => ht c (List.mem_append_right _ hc)
  · by_cases hnil : piece = []
    · rw [hnil, List.nil_append]
      exact opensHere_eq_false_of_isIndent ho ht
    · exact h v piece hpiece hnil

end PassesOver

end Boundary

/-! ## The next lexeme of less text -/

section Next

variable {d : Delimiters} {lineStart lineStart' : Bool} {t s text rest : Text}

/-- A run of text is what no tag opens in, up to where one does. -/
theorem next_eq_text_iff_passesOver [MarkerLimits] (hd : d.Valid) (htext : text ≠ []) :
    next d lineStart (text ++ rest) = .lexeme (.text text) rest ↔
      PassesOver d.opener.toList text rest ∧
        (rest ≠ [] → opensHere d.opener.toList (endsLine text) rest = true) := by
  rw [next_eq_text_iff, splitText_eq_iff (by simp [htext]), ← Option.not_isSome_iff_eq_none,
    ← opensHere_lineStart hd.1]
  constructor
  · intro h
    obtain ⟨hopening, -, -, hfirst, hrest⟩ := h
    refine ⟨?_, hrest⟩
    intro v u hvu hu
    cases v with
    | nil =>
        rw [List.nil_append] at hvu
        subst hvu
        exact Bool.eq_false_iff.mpr hopening
    | cons c v => exact hfirst (c :: v) u hvu (by simp) hu
  · intro h
    obtain ⟨hover, hrest⟩ := h
    refine ⟨?_, rfl, htext, ?_, hrest⟩
    · rw [Bool.not_eq_true]
      exact hover [] text rfl htext
    · intro v u hvu hv hu
      have hfirst := hover v u hvu hu
      rwa [startsLine, List.isEmpty_eq_false_iff.mpr hv, Bool.false_or] at hfirst

def IsLineBreak (t : Text) : Prop := t = ['\n'] ∨ t = ['\r', '\n']

theorem IsLineBreak.endsLine_eq (h : IsLineBreak t) : endsLine t = true := by
  rcases h with rfl | rfl
  · rfl
  · rfl

theorem IsLineBreak.splitLineBreak?_append (h : IsLineBreak t) (rest : Text) :
    splitLineBreak? (t ++ rest) = some (t, rest) := by
  rcases h with rfl | rfl
  · rfl
  · rfl

theorem IsLineBreak.ne_opening {indent marker : Text} (h : IsLineBreak t)
    (hm : Delimiters.isMarker marker = true) (hindent : ∀ c ∈ indent, isIndent c = true) :
    t ++ rest ≠ indent ++ marker ++ s := by
  intro heq
  obtain ⟨c, u, rfl, hblank, hspace⟩ : ∃ c u, t = c :: u ∧ isIndent c = false ∧
      isSpace c = true := by
    rcases h with rfl | rfl
    · exact ⟨'\n', [], rfl, by decide, by decide⟩
    · exact ⟨'\r', ['\n'], rfl, by decide, by decide⟩
  cases indent with
  | nil =>
      obtain ⟨e, v, rfl⟩ := List.exists_cons_of_ne_nil (Delimiters.isMarker_iff.mp hm).1
      obtain ⟨rfl, -⟩ := List.cons.inj heq
      exact notMem_of_isMarker hm hspace List.mem_cons_self
  | cons e indent =>
      obtain ⟨rfl, -⟩ := List.cons.inj heq
      rw [hindent c List.mem_cons_self] at hblank
      cases hblank

theorem eq_nil_or_isLineBreak {lineBreak : Text} (h : splitLineBreak? t = some (lineBreak, rest)) :
    lineBreak = [] ∧ t = [] ∧ rest = [] ∨ IsLineBreak lineBreak := by
  rcases splitLineBreak?_eq_some_iff.mp h with ⟨rfl, rfl, rfl⟩ | ⟨-, rfl⟩ | ⟨-, rfl⟩
  · exact .inl ⟨rfl, rfl, rfl⟩
  · exact .inr (.inl rfl)
  · exact .inr (.inr rfl)

/-- How reading the piece goes on where reading the whole goes on in front of `lineBreak`: at the
same place, or behind the line break at the start of a line. -/
def Resumes (lineBreak : Text) (lineStart lineStart' : Bool) : Prop :=
  lineBreak = [] ∧ (lineStart = true → lineStart' = true) ∨
    IsLineBreak lineBreak ∧ lineStart' = true

theorem lineBreak_ofReadings_append (d : Delimiters) (lineStart : Bool) (indent : Text)
    (head : Reading TagHead) (directive : Reading Directive) :
    (Tag.ofReadings d lineStart indent head directive).lineBreak ++ restAfter lineStart directive =
      directive.rest := by
  unfold Tag.ofReadings restAfter
  cases hb : ownLineBreak? lineStart directive with
  | none => rfl
  | some parts => exact splitLineBreak?_append (ownLineBreak?_eq_some_iff.mp hb).2.2

theorem startsLineAfter_of_lineBreak {tag : Tag} (h : endsLine tag.lineBreak = true) :
    (Lexeme.tag tag).startsLineAfter = true := by
  change endsLine (tag.indent ++ tag.front ++ tag.back ++ tag.lineBreak) = true
  rw [endsLine_append (ne_nil_of_endsLine h), h]

variable [MarkerLimits]

/-- The readers make the same of a tag if less of the text behind it is there. -/
theorem exists_next_of_readings {indent : Text} {head : Reading TagHead}
    {directive : Reading Directive} (hd : d.Valid) (hindent : ∀ c ∈ indent, isIndent c = true)
    (hhead : TagHead.reader d.closer.toList t = .ok head)
    (hdirective : Directive.reader d.closer.toList head.value head.rest = .ok directive)
    (hrest : rest <+: directive.rest) (lineStart : Bool) :
    ∃ head' directive', head'.read = head.read ∧ directive'.value = directive.value ∧
      directive'.read = directive.read ∧ directive'.rest = rest ∧
      next d lineStart (indent ++ d.opener.toList ++ head.read ++ directive.read ++ rest) =
        .lexeme (.tag (Tag.ofReadings d lineStart indent head' directive'))
          (restAfter lineStart directive') := by
  obtain ⟨hhead', hdirective'⟩ := tag_readers_append hd.2 hhead hdirective (.inr hrest) rfl
  refine ⟨{ head with rest := directive.read ++ rest }, { directive with rest }, rfl, rfl, rfl, rfl,
    ?_⟩
  refine next_eq_tag_iff.mpr ⟨indent, _, (splitOpening_eq_some_iff hd.1).mpr ⟨?_, hindent⟩,
    readTag_eq_lexeme_iff.mpr ⟨_, _, hhead', hdirective', rfl, rfl⟩⟩
  simp

/-- A tag is read from a piece as from the whole, up to the line break that goes with it. -/
theorem exists_next_of_tag {tag : Tag} (hd : d.Valid) (hline : lineStart = true → lineStart' = true)
    (h : next d lineStart (tag.source ++ (rest ++ s)) = .lexeme (.tag tag) (rest ++ s))
    (hs : rest ++ s ≠ []) :
    ∃ tag' lineBreak after, rest = lineBreak ++ after ∧
      next d lineStart' (tag.source ++ rest) = .lexeme (.tag tag') after ∧
      (Lexeme.tag tag').core? = (Lexeme.tag tag).core? ∧
      Resumes lineBreak (Lexeme.tag tag).startsLineAfter (Lexeme.tag tag').startsLineAfter := by
  obtain ⟨indent, u, hopening, hread⟩ := next_eq_tag_iff.mp h
  obtain ⟨head, directive, hhead, hdirective, htag, hrest⟩ := readTag_eq_lexeme_iff.mp hread
  cases htag
  have hwhole := lineBreak_ofReadings_append d lineStart indent head directive
  rw [← hrest, ← List.append_assoc] at hwhole
  obtain ⟨head', directive', hheadRead, hvalue, hdirectiveRead, hrest', hnext⟩ :=
    exists_next_of_readings hd (splitOpening_indent hopening) hhead hdirective
      (hwhole ▸ List.prefix_append _ s) lineStart'
  have hsource : (Tag.ofReadings d lineStart indent head directive).source ++ rest =
      indent ++ d.opener.toList ++ head.read ++ directive.read ++
        ((Tag.ofReadings d lineStart indent head directive).lineBreak ++ rest) := by
    simp [Tag.source, Tag.ofReadings]
  have hcore : (Lexeme.tag (Tag.ofReadings d lineStart' indent head' directive')).core? =
      (Lexeme.tag (Tag.ofReadings d lineStart indent head directive)).core? := by
    simp [Lexeme.core?, Tag.ofReadings, hvalue]
  rw [hsource]
  refine ⟨Tag.ofReadings d lineStart' indent head' directive', ?_⟩
  cases hown : ownLineBreak? lineStart directive with
  | some parts =>
      obtain ⟨lineBreak, after⟩ := parts
      obtain ⟨hstart, hinter, hbreak⟩ := ownLineBreak?_eq_some_iff.mp hown
      have hafter : rest ++ s = after := by simp [hrest, restAfter, hown]
      have hisBreak : IsLineBreak lineBreak := by
        rcases eq_nil_or_isLineBreak hbreak with ⟨-, -, hnil⟩ | hisBreak
        · rw [hafter, hnil] at hs
          exact absurd rfl hs
        · exact hisBreak
      have hsame : ownLineBreak? lineStart' directive' = some (lineBreak, rest) := by
        apply ownLineBreak?_eq_some_iff.mpr
        rw [hvalue, hrest']
        simp only [Tag.ofReadings, hown]
        exact ⟨hline hstart, hinter, hisBreak.splitLineBreak?_append rest⟩
      refine ⟨[], rest, rfl, ?_, hcore, .inl ⟨rfl, fun _ => startsLineAfter_of_lineBreak ?_⟩⟩
      · rw [hnext, restAfter, hsame]
        rfl
      · simp [Tag.ofReadings, hsame, hisBreak.endsLine_eq]
  | none =>
      have hnil : (Tag.ofReadings d lineStart indent head directive).lineBreak = [] := by
        simp [Tag.ofReadings, hown]
      rw [hnil, List.nil_append] at hrest'
      rw [hnil, List.nil_append] at hnext ⊢
      have hstarts : (Tag.ofReadings d lineStart' indent head' directive').lineBreak = [] →
          (Lexeme.tag (Tag.ofReadings d lineStart indent head directive)).startsLineAfter = true →
          (Lexeme.tag (Tag.ofReadings d lineStart' indent head' directive')).startsLineAfter =
            true := by
        intro hnil' hstarts
        have hsame : (Tag.ofReadings d lineStart' indent head' directive').source =
            (Tag.ofReadings d lineStart indent head directive).source := by
          rw [Tag.source_eq, Tag.source_eq, hnil, hnil']
          simp [Tag.written, Tag.ofReadings, hheadRead, hdirectiveRead]
        rw [Lexeme.startsLineAfter, Lexeme.source, hsame]
        exact hstarts
      cases hown' : ownLineBreak? lineStart' directive' with
      | none =>
          refine ⟨[], rest, rfl, ?_, hcore, .inl ⟨rfl, hstarts ?_⟩⟩
          · rw [hnext, restAfter, hown', ← hrest']
            rfl
          · simp [Tag.ofReadings, hown']
      | some parts =>
          obtain ⟨lineBreak, after⟩ := parts
          have hbreak := (ownLineBreak?_eq_some_iff.mp hown').2.2
          rw [hrest'] at hbreak
          refine ⟨lineBreak, after, (splitLineBreak?_append hbreak).symm, ?_, hcore, ?_⟩
          · rw [hnext, restAfter, hown']
            rfl
          · rcases eq_nil_or_isLineBreak hbreak with ⟨rfl, -, -⟩ | hisBreak
            · exact .inl ⟨rfl, hstarts (by simp [Tag.ofReadings, hown'])⟩
            · refine .inr ⟨hisBreak, startsLineAfter_of_lineBreak ?_⟩
              simp [Tag.ofReadings, hown', hisBreak.endsLine_eq]

theorem exists_tag_of_text (hd : d.Valid) (hne : rest ≠ [])
    (h : next d lineStart (text ++ rest) = .lexeme (.text text) rest) (htext : text ≠ [])
    {lexeme : Lexeme} {after : Text} (hnext : next d lineStart' rest = .lexeme lexeme after) :
    ∃ tag, lexeme = .tag tag := by
  cases lexeme with
  | tag tag => exact ⟨tag, rfl⟩
  | text more =>
      obtain ⟨-, hopens⟩ := (next_eq_text_iff_passesOver hd htext).mp h
      obtain ⟨indent, u, heq, hindent, -⟩ := (opensHere_iff hd.1).mp (hopens hne)
      have hnone := (next_eq_text_iff.mp hnext).1
      rw [(splitOpening_eq_some_iff hd.1).mpr ⟨heq, hindent⟩] at hnone
      cases hnone

end Next

/-! ## The lexemes of less text -/

section Lexes

variable {d : Delimiters} {lineStart lineStart' : Bool} {t piece lineBreak rest : Text}

theorem delimitersAfter_of_core? {lexeme lexeme' : Lexeme} (h : lexeme.core? = lexeme'.core?)
    (d : Delimiters) : lexeme.delimitersAfter d = lexeme'.delimitersAfter d := by
  cases lexeme with
  | text t =>
      cases lexeme' with
      | text t' => rfl
      | tag tag' => cases h
  | tag tag =>
      cases lexeme' with
      | text t' => cases h
      | tag tag' =>
          simp only [Lexeme.core?, Option.some.injEq, Prod.mk.injEq] at h
          rw [delimitersAfter_tag, delimitersAfter_tag, h.2]

theorem Lexes.exists_next [MarkerLimits] {lexeme : Lexeme} {lexemes : List Lexeme}
    (h : Lexes d lineStart t (lexeme :: lexemes)) :
    t = lexeme.source ++ sourceOf lexemes ∧ lexeme.source ≠ [] ∧
      next d lineStart t = .lexeme lexeme (sourceOf lexemes) ∧
      Lexes (lexeme.delimitersAfter d) lexeme.startsLineAfter (sourceOf lexemes) lexemes := by
  cases h with
  | cons ht hn hrest =>
      obtain ⟨happ, hne⟩ := next_append ht hn
      rw [hrest.sourceOf_eq]
      exact ⟨happ.symm, hne, hn, hrest⟩

theorem Resumes.eq_nil_of_tag {tag : Tag} (h : Resumes lineBreak lineStart lineStart')
    (hd : d.Valid) (hplaced : tag.Placed d lineStart rest)
    (heq : tag.indent ++ tag.written ++ t = lineBreak ++ piece) : lineBreak = [] := by
  rcases h with ⟨hnil, -⟩ | ⟨hbreak, -⟩
  · exact hnil
  · obtain ⟨back, hback⟩ := hplaced.starts_opener
    rw [← hback] at heq
    refine absurd heq.symm ?_
    rw [← List.append_assoc, List.append_assoc (_ ++ _)]
    exact hbreak.ne_opening hd.1 hplaced.indent

variable [MarkerLimits]

theorem PassesOver.exists_lexes (hd : d.Valid) (h : PassesOver d.opener.toList piece [])
    (lineStart : Bool) :
    ∃ lexemes, Lexes d lineStart piece lexemes ∧ lexemes.filterMap Lexeme.core? = [] := by
  by_cases hnil : piece = []
  · rw [hnil]
    exact ⟨[], .nil, rfl⟩
  · have hnext : next d lineStart (piece ++ []) = .lexeme (.text piece) [] :=
      (next_eq_text_iff_passesOver hd hnil).mpr ⟨h, fun hne => absurd rfl hne⟩
    rw [List.append_nil] at hnext
    exact ⟨[.text piece], .cons hnil hnext .nil, rfl⟩

/-- A run of text from which the piece lacks the line break lacks nothing else. -/
theorem Resumes.exists_text {text s : Text} (h : Resumes lineBreak lineStart lineStart')
    (hd : d.Valid)
    (hnext : next d lineStart (text ++ (rest ++ s)) = .lexeme (.text text) (rest ++ s))
    (htext : text ≠ []) (heq : text ++ rest = lineBreak ++ piece) :
    ∃ text', text = lineBreak ++ text' ∧ piece = text' ++ rest := by
  rcases h with ⟨rfl, -⟩ | ⟨hbreak, -⟩
  · exact ⟨text, rfl, heq.symm⟩
  · rcases List.append_eq_append_iff.mp heq with ⟨u, hu, hrest⟩ | ⟨u, hu, hpiece⟩
    · by_cases hnil : u = []
      · subst hnil
        rw [List.append_nil] at hu
        exact ⟨[], by simp [hu], hrest.symm⟩
      · -- The run would have stopped between the two characters of the line break.
        have hfeed : IsLineBreak u := by
          obtain ⟨c, v, rfl⟩ := List.exists_cons_of_ne_nil htext
          rcases hbreak with rfl | rfl
          · simp_all
          · left
            cases v with
            | nil => exact (List.cons.inj hu).2.symm
            | cons e v => simp_all
        have hne : rest ++ s ≠ [] := by simp [hrest, hnil]
        have hopens := ((next_eq_text_iff_passesOver hd htext).mp hnext).2 hne
        obtain ⟨indent, v, hv, hindent, -⟩ := (opensHere_iff hd.1).mp hopens
        rw [hrest, List.append_assoc] at hv
        exact absurd hv (hfeed.ne_opening hd.1 hindent)
    · exact ⟨u, hu, hpiece⟩

theorem Resumes.passesOver {text s : Text} (h : Resumes lineBreak lineStart lineStart')
    (hd : d.Valid)
    (hnext : next d lineStart (lineBreak ++ text ++ (rest ++ s)) =
      .lexeme (.text (lineBreak ++ text)) (rest ++ s)) (htext : text ≠ []) :
    PassesOver d.opener.toList text rest := by
  have hover := ((next_eq_text_iff_passesOver hd (by simp [htext])).mp hnext).1.of_append hd.1
  rcases h with ⟨rfl, -⟩ | ⟨hbreak, -⟩
  · exact hover
  · exact hover.drop_line hbreak.endsLine_eq

/-- A run of text in front of a tag ends there in a piece too. -/
theorem next_text_of_tag {text text' s u : Text} {tagLine : Bool} {tag : Tag} (hd : d.Valid)
    (hplaced : tag.Placed d tagLine u)
    (hnext : next d lineStart (text ++ (tag.indent ++ tag.written ++ (rest ++ s))) =
      .lexeme (.text text) (tag.indent ++ tag.written ++ (rest ++ s))) (htext : text ≠ [])
    (htext' : text' ≠ []) (hends : endsLine text' = endsLine text)
    (hover : PassesOver d.opener.toList text' (tag.indent ++ tag.written ++ rest)) :
    next d lineStart' (text' ++ (tag.indent ++ tag.written ++ rest)) =
      .lexeme (.text text') (tag.indent ++ tag.written ++ rest) := by
  refine (next_eq_text_iff_passesOver hd htext').mpr ⟨hover, fun _ => ?_⟩
  obtain ⟨back, hback⟩ := hplaced.starts_opener
  have hopening : ∀ v, tag.indent ++ tag.written ++ v =
      tag.indent ++ d.opener.toList ++ (back ++ v) := by
    intro v
    rw [← hback]
    simp
  have hopens := ((next_eq_text_iff_passesOver hd htext).mp hnext).2
  rw [hopening, opensHere_opening_iff hd.1 hplaced.indent] at hopens ⊢
  rw [hends]
  exact hopens (by simp [(Delimiters.isMarker_iff.mp hd.1).1])

/-- The text of a tag from its opening marker on, and of what follows it. -/
def endingAt (closing : Tag) (after : List Lexeme) : Text :=
  closing.written ++ closing.lineBreak ++ sourceOf after

/-- The first of some lexemes in front of a tag, read with the text up to the tag still told apart
from the rest. -/
theorem Lexes.exists_next_of_closing {lexeme : Lexeme} {body after : List Lexeme} {closing : Tag}
    (h : Lexes d lineStart t (lexeme :: body ++ .tag closing :: after)) :
    lexeme.source ≠ [] ∧ sourceOf body ++ closing.indent ++ endingAt closing after ≠ [] ∧
      next d lineStart
          (lexeme.source ++ (sourceOf body ++ closing.indent ++ endingAt closing after)) =
        .lexeme lexeme (sourceOf body ++ closing.indent ++ endingAt closing after) ∧
      Lexes (lexeme.delimitersAfter d) lexeme.startsLineAfter
        (sourceOf body ++ closing.indent ++ endingAt closing after)
        (body ++ .tag closing :: after) := by
  rw [List.cons_append] at h
  obtain ⟨ht, hlexeme, hn, hrest⟩ := h.exists_next
  have hsource : sourceOf (body ++ .tag closing :: after) =
      sourceOf body ++ closing.indent ++ endingAt closing after := by
    simp [endingAt, Lexeme.source, closing.source_eq]
  have hne : sourceOf (body ++ .tag closing :: after) ≠ [] := by
    have hclosing := hrest.source_ne_nil (.tag closing) (by simp)
    simp [hclosing]
  rw [ht, hsource] at hn
  rw [hsource] at hne hrest
  exact ⟨hlexeme, hne, hn, hrest⟩

end Lexes

/-! ### Truncation -/

variable [MarkerLimits]

/-- Wherever the lexemes stand in front of the tag, what is left of their text when the tag and all
after it are cut off is read as lexemes that say the same. -/
def Truncates (d : Delimiters) (body : List Lexeme) (closing : Tag) (after : List Lexeme) : Prop :=
  ∀ ⦃lineStart lineStart' : Bool⦄ ⦃t piece lineBreak : Text⦄,
    Lexes d lineStart t (body ++ .tag closing :: after) →
    sourceOf body ++ closing.indent = lineBreak ++ piece →
    Resumes lineBreak lineStart lineStart' →
    ∃ lexemes, Lexes d lineStart' piece lexemes ∧
      lexemes.filterMap Lexeme.core? = body.filterMap Lexeme.core?

section Truncation

variable {d : Delimiters} {body after : List Lexeme} {closing : Tag}

theorem truncates_nil (hd : d.Valid) : Truncates d [] closing after := by
  intro lineStart lineStart' t piece lineBreak h hpiece hresumes
  obtain ⟨-, -, hn, -⟩ := Lexes.exists_next h
  have hplaced := placed_of_next hd hn
  rw [sourceOf_nil, List.nil_append] at hpiece
  have hstarts : closing.indent ++ closing.written ++ [] =
      lineBreak ++ (piece ++ closing.written) := by
    rw [hpiece]
    simp
  have hnil := hresumes.eq_nil_of_tag hd hplaced hstarts
  rw [hnil, List.nil_append] at hpiece
  have hover : PassesOver d.opener.toList ([] ++ piece) [] :=
    PassesOver.append_blanks hd.1 (fun s u hsu hu => by simp_all)
      (fun c hc => hplaced.indent c (hpiece ▸ hc))
  exact hover.exists_lexes hd lineStart'

theorem truncates_tag {tag : Tag} (hd : d.Valid)
    (ih : Truncates ((Lexeme.tag tag).delimitersAfter d) body closing after) :
    Truncates d (.tag tag :: body) closing after := by
  intro lineStart lineStart' t piece lineBreak h hpiece hresumes
  obtain ⟨hlexeme, hne, hn, hrest⟩ := h.exists_next_of_closing
  rw [sourceOf_cons, List.append_assoc] at hpiece
  have hplaced := placed_of_next hd hn
  have hstarts : tag.indent ++ tag.written ++ (tag.lineBreak ++ (sourceOf body ++
      closing.indent)) = lineBreak ++ piece := by
    rw [← hpiece, Lexeme.source, tag.source_eq]
    simp
  have hnil := hresumes.eq_nil_of_tag hd hplaced hstarts
  have hline : lineStart = true → lineStart' = true := by
    rcases hresumes with ⟨-, hline⟩ | ⟨hbreak, -⟩
    · exact hline
    · rw [hnil] at hbreak
      cases hbreak.endsLine_eq
  obtain ⟨tag', lineBreak', piece', hbroken, hn', hcore, hresumes'⟩ :=
    exists_next_of_tag hd hline hn hne
  obtain ⟨lexemes, hlexes, hcores⟩ := ih hrest hbroken hresumes'
  rw [← delimitersAfter_of_core? hcore] at hlexes
  rw [hnil, List.nil_append] at hpiece
  refine ⟨.tag tag' :: lexemes, ?_, ?_⟩
  · rw [← hpiece]
    exact .cons (by simp [hlexeme]) hn' hlexes
  · simp only [List.filterMap_cons, hcore, hcores]

theorem exists_lexes_of_text_tag {lineStart : Bool} {t text text' : Text} {tag : Tag}
    (hd : d.Valid ∧ d.withinLimit = true) (lineStart' : Bool)
    (h : Lexes d lineStart t (.text text :: (.tag tag :: body) ++ .tag closing :: after))
    (ih : Truncates d (.tag tag :: body) closing after) (htext' : text' ≠ [])
    (hends : endsLine text' = endsLine text)
    (hover : PassesOver d.opener.toList text' (sourceOf (.tag tag :: body) ++ closing.indent)) :
    ∃ lexemes,
      Lexes d lineStart' (text' ++ (sourceOf (.tag tag :: body) ++ closing.indent)) lexemes ∧
      lexemes.filterMap Lexeme.core? = (.tag tag :: body).filterMap Lexeme.core? := by
  obtain ⟨hlexeme, -, hn, hrest⟩ := h.exists_next_of_closing
  obtain ⟨-, -, hnext, -⟩ := hrest.exists_next_of_closing
  have hplaced := placed_of_next hd.1 hnext
  have hfront : sourceOf (.tag tag :: body) ++ closing.indent =
      tag.indent ++ tag.written ++ (tag.lineBreak ++ sourceOf body ++ closing.indent) := by
    simp [Lexeme.source, tag.source_eq]
  have hresumes : Resumes [] (endsLine text) (endsLine text') :=
    .inl ⟨rfl, fun hstarts => hends ▸ hstarts⟩
  obtain ⟨lexemes, hlexes, hcores⟩ := ih hrest (List.nil_append _).symm hresumes
  rw [hfront] at hover hn hlexes ⊢
  rw [List.append_assoc (tag.indent ++ tag.written)] at hn
  refine ⟨.text text' :: lexemes, .cons (by simp [htext']) ?_ hlexes, hcores⟩
  exact next_text_of_tag hd.1 hplaced hn hlexeme htext' hends hover

theorem truncates_text {text : Text} (hd : d.Valid ∧ d.withinLimit = true)
    (ih : Truncates d body closing after) : Truncates d (.text text :: body) closing after := by
  intro lineStart lineStart' t piece lineBreak h hpiece hresumes
  obtain ⟨hlexeme, hne, hn, hrest⟩ := h.exists_next_of_closing
  rw [sourceOf_cons, List.append_assoc] at hpiece
  obtain ⟨text', rfl, rfl⟩ := hresumes.exists_text hd.1 hn hlexeme hpiece
  by_cases hnil : text' = []
  · subst hnil
    have hline : lineStart' = true := by
      rcases hresumes with ⟨hnil, -⟩ | ⟨-, hline⟩
      · exact absurd (by simp [hnil, Lexeme.source]) hlexeme
      · exact hline
    exact ih hrest rfl (.inl ⟨rfl, fun _ => hline⟩)
  · have hover := hresumes.passesOver hd.1 hn hnil
    cases body with
    | nil =>
        obtain ⟨-, -, hclosing, -⟩ := Lexes.exists_next hrest
        rw [sourceOf_nil, List.nil_append] at hover ⊢
        exact (hover.append_blanks hd.1.1
          (placed_of_next hd.1 hclosing).indent).exists_lexes hd.1 lineStart'
    | cons lexeme body =>
        obtain ⟨-, -, hnext, -⟩ := Lexes.exists_next hrest
        obtain ⟨tag, rfl⟩ := exists_tag_of_text hd.1 hne hn hlexeme hnext
        exact exists_lexes_of_text_tag hd lineStart' h ih hnil (endsLine_append hnil).symm hover

end Truncation

/-- Lexemes in front of a tag are read from the text up to that tag alone, except that blanks and
line breaks may go with other lexemes. -/
theorem Lexes.truncates {d : Delimiters} (hd : d.Valid ∧ d.withinLimit = true)
    {lineStart : Bool} {t : Text} {body after : List Lexeme} {closing : Tag}
    (h : Lexes d lineStart t (body ++ .tag closing :: after)) : Truncates d body closing after := by
  induction body generalizing d lineStart t with
  | nil => exact truncates_nil hd.1
  | cons lexeme body ih =>
      obtain ⟨-, -, hn, hrest⟩ := h.exists_next_of_closing
      have hafter := ih (valid_delimitersAfter hd hn) hrest
      cases lexeme with
      | tag tag => exact truncates_tag hd.1 hafter
      | text text => exact truncates_text hd hafter

end TagTemplate
