import TagTemplate.Proofs.Lexeme.Reading

/-!
# Lexemes of a concatenation

What is read from a text that ends with a line feed is read from it in front of any other text
too, because no marker and no line break reaches across the seam. Only a run of text that goes up
to the seam may go on behind it.
-/

namespace TagTemplate

open Text

/-! ## Boundaries before the seam -/

section Boundary

variable {opener t u : Text}

/-- An opening marker after blanks does not reach across the seam. -/
theorem exists_eq_append_of_endsLine {indent rest : Text}
    (ho : Delimiters.isMarker opener = true) (ht : endsLine t = true)
    (hindent : ∀ c ∈ indent, isIndent c = true) (h : t ++ u = indent ++ opener ++ rest) :
    ∃ r, t = indent ++ opener ++ r ∧ rest = r ++ u := by
  rcases List.append_eq_append_iff.mp h with ⟨piece, hpiece, -⟩ | ⟨r, hr, hrest⟩
  · obtain ⟨s, hs⟩ := List.getLast?_eq_some_iff.mp (endsLine_iff.mp ht)
    have hmem : '\n' ∈ indent ++ opener := by
      rw [hpiece, hs]
      simp
    rcases List.mem_append.mp hmem with hmem | hmem
    · have hblank : isIndent '\n' = false := by decide
      rw [hindent _ hmem] at hblank
      cases hblank
    · exact absurd hmem (notMem_of_isMarker ho (by decide))
  · exact ⟨r, hr, hrest⟩

theorem splitOpening_append_right (ho : Delimiters.isMarker opener = true)
    (ht : endsLine t = true) (u : Text) :
    splitOpening opener (t ++ u) = (splitOpening opener t).map fun p => (p.1, p.2 ++ u) := by
  cases h : splitOpening opener (t ++ u) with
  | none =>
      cases h' : splitOpening opener t with
      | none => rfl
      | some parts =>
          obtain ⟨indent, rest⟩ := parts
          obtain ⟨ht', hindent⟩ := (splitOpening_eq_some_iff ho).mp h'
          have hsome : splitOpening opener (t ++ u) = some (indent, rest ++ u) :=
            (splitOpening_eq_some_iff ho).mpr ⟨by simp [ht'], hindent⟩
          rw [h] at hsome
          cases hsome
  | some parts =>
      obtain ⟨indent, rest⟩ := parts
      obtain ⟨heq, hindent⟩ := (splitOpening_eq_some_iff ho).mp h
      obtain ⟨r, hr, rfl⟩ := exists_eq_append_of_endsLine ho ht hindent heq
      rw [(splitOpening_eq_some_iff ho).mpr ⟨hr, hindent⟩]
      rfl

theorem opensHere_append_right (ho : Delimiters.isMarker opener = true) (ht : endsLine t = true)
    (lineStart : Bool) (u : Text) :
    opensHere opener lineStart (t ++ u) = opensHere opener lineStart t := by
  rw [Bool.eq_iff_iff, opensHere_iff ho, opensHere_iff ho]
  constructor
  · intro h
    rcases h with ⟨indent, rest, heq, hindent, hline⟩
    obtain ⟨r, hr, -⟩ := exists_eq_append_of_endsLine ho ht hindent heq
    exact ⟨indent, r, hr, hindent, hline⟩
  · intro h
    rcases h with ⟨indent, rest, heq, hindent, hline⟩
    exact ⟨indent, rest ++ u, by simp [heq], hindent, hline⟩

theorem splitLineBreak?_append_right (ht : endsLine t = true) (u : Text) :
    splitLineBreak? (t ++ u) = (splitLineBreak? t).map fun p => (p.1, p.2 ++ u) := by
  have hsome : ∀ {lineBreak rest}, splitLineBreak? t = some (lineBreak, rest) →
      splitLineBreak? (t ++ u) = some (lineBreak, rest ++ u) := by
    intro lineBreak rest h
    rcases splitLineBreak?_eq_some_iff.mp h with ⟨rfl, -, -⟩ | ⟨rfl, rfl⟩ | ⟨rfl, rfl⟩
    · cases ht
    · rfl
    · rfl
  cases h : splitLineBreak? t with
  | some parts => exact hsome h
  | none =>
      cases h' : splitLineBreak? (t ++ u) with
      | none => rfl
      | some parts =>
          obtain ⟨lineBreak, rest⟩ := parts
          cases t with
          | nil => cases ht
          | cons c t =>
              rcases splitLineBreak?_eq_some_iff.mp h' with ⟨hnil, -, -⟩ | ⟨hfeed, -⟩ | ⟨hreturn, -⟩
              · cases hnil
              · cases hfeed
                cases h
              · cases t with
                | nil =>
                    obtain ⟨rfl, -⟩ := List.cons.inj hreturn
                    cases ht
                | cons c' t =>
                    cases hreturn
                    cases h

end Boundary

/-! ## Lexemes before the seam -/

section Next

variable {d : Delimiters} {lineStart : Bool} {t rest : Text}

theorem endsLine_rest_of_directive [MarkerLimits] {closer front : Text} {head : TagHead}
    {x : Reading Directive} (hc : Delimiters.isMarker closer = true) (h : Directive.reader closer head t = .ok x)
    (ht : endsLine (front ++ t) = true) : endsLine x.rest = true := by
  have happ : x.read ++ x.rest = t := (Directive.reader_faithful _ _).append h
  rw [← happ, ← List.append_assoc] at ht
  by_cases hnil : x.rest = []
  · obtain ⟨back, hback⟩ := Directive.reader_read_suffix hc h
    rw [hnil, List.append_nil, ← hback, ← List.append_assoc, endsLine_append_marker hc] at ht
    cases ht
  · rw [endsLine_append hnil] at ht
    exact ht

theorem ownLineBreak?_append_right (lineStart : Bool) {x : Reading Directive}
    (hline : endsLine x.rest = true) (u : Text) :
    ownLineBreak? lineStart { x with rest := x.rest ++ u } =
      (ownLineBreak? lineStart x).map fun p => (p.1, p.2 ++ u) := by
  unfold ownLineBreak?
  dsimp only
  split
  · exact splitLineBreak?_append_right hline u
  · rfl

variable [MarkerLimits]

/-- A tag that is read before the seam is read whole, and leaves whole lines. -/
theorem next_append_of_tag {tag : Tag} (hd : d.Valid) (hclose : d.closer.toList.head? ≠ some '=')
    (ht : endsLine t = true) (h : next d lineStart t = .lexeme (.tag tag) rest) (u : Text) :
    next d lineStart (t ++ u) = .lexeme (.tag tag) (rest ++ u) := by
  obtain ⟨indent, v, hopening, hread⟩ := next_eq_tag_iff.mp h
  obtain ⟨head, directive, hhead, hdirective, htag, hrest⟩ := readTag_eq_lexeme_iff.mp hread
  have happHead : head.read ++ head.rest = v := (TagHead.reader_faithful _).append hhead
  have happ : directive.read ++ directive.rest = head.rest :=
    (Directive.reader_faithful _ _).append hdirective
  have hline : endsLine directive.rest = true := by
    have hsource : indent ++ d.opener.toList ++ head.read ++ head.rest = t := by
      rw [← splitOpening_append hopening, ← happHead, List.append_assoc]
    rw [← hsource] at ht
    exact endsLine_rest_of_directive hd.2 hdirective ht
  obtain ⟨hhead', hdirective'⟩ := tag_readers_append hd.2 hhead hdirective (.inl hclose)
    (Eq.refl (directive.read ++ (directive.rest ++ u)))
  have hv : head.read ++ (directive.read ++ (directive.rest ++ u)) = v ++ u := by
    rw [← happHead, ← happ]
    simp
  rw [hv] at hhead'
  have hbreak := ownLineBreak?_append_right lineStart hline u
  refine next_eq_tag_iff.mpr ⟨indent, v ++ u, ?_, ?_⟩
  · rw [splitOpening_append_right hd.1 ht, hopening]
    rfl
  · refine readTag_eq_lexeme_iff.mpr ⟨_, _, hhead', hdirective', ?_, ?_⟩
    · rw [htag, Tag.ofReadings, Tag.ofReadings, hbreak]
      cases ownLineBreak? lineStart directive with
      | none => rfl
      | some parts => rfl
    · rw [hrest, restAfter, restAfter, hbreak]
      cases ownLineBreak? lineStart directive with
      | none => rfl
      | some parts => rfl

theorem next_append_of_text {text : Text} (hd : d.Valid) (ht : endsLine t = true)
    (h : next d lineStart t = .lexeme (.text text) rest) (hrest : rest ≠ []) (u : Text) :
    next d lineStart (t ++ u) = .lexeme (.text text) (rest ++ u) := by
  obtain ⟨hopening, htext⟩ := next_eq_text_iff.mp h
  have htne := ne_nil_of_endsLine ht
  obtain ⟨happ, hne, hfirst, hstop⟩ := (splitText_eq_iff htne).mp htext
  have hline : endsLine rest = true := by
    rw [happ, endsLine_append hrest] at ht
    exact ht
  refine next_eq_text_iff.mpr ⟨?_, (splitText_eq_iff (by simp [htne])).mpr ⟨?_, hne, ?_, ?_⟩⟩
  · rw [splitOpening_append_right hd.1 ht, hopening]
    rfl
  · rw [happ, List.append_assoc]
  · intro s v hsv hs hv
    have hvline : endsLine (v ++ rest) = true := by rw [endsLine_append hrest, hline]
    rw [← List.append_assoc, opensHere_append_right hd.1 hvline]
    exact hfirst s v hsv hs hv
  · intro _
    rw [opensHere_append_right hd.1 hline]
    exact hstop hrest

theorem opensHere_eq_false_of_text_end {text : Text} (hd : d.Valid) (ht : endsLine t = true)
    (h : next d lineStart t = .lexeme (.text text) []) :
    text = t ∧ splitOpening d.opener.toList t = none ∧ ∀ s v u, t = s ++ v → s ≠ [] → v ≠ [] →
      opensHere d.opener.toList (endsLine s) (v ++ u) = false := by
  obtain ⟨hopening, htext⟩ := next_eq_text_iff.mp h
  have htne := ne_nil_of_endsLine ht
  obtain ⟨happ, -, hfirst, -⟩ := (splitText_eq_iff htne).mp htext
  rw [List.append_nil] at happ
  subst happ
  refine ⟨rfl, hopening, ?_⟩
  intro s v u hsv hs hv
  have hvline : endsLine v = true := by
    rw [hsv, endsLine_append hv] at ht
    exact ht
  have := hfirst s v hsv hs hv
  rw [List.append_nil] at this
  rw [opensHere_append_right hd.1 hvline]
  exact this

/-- A run of text that goes up to the seam ends there if a tag opens behind it. -/
theorem next_append_of_text_opening {text u : Text} (hd : d.Valid) (ht : endsLine t = true)
    (h : next d lineStart t = .lexeme (.text text) [])
    (hu : (splitOpening d.opener.toList u).isSome = true) :
    next d lineStart (t ++ u) = .lexeme (.text text) u := by
  obtain ⟨rfl, hopening, hbefore⟩ := opensHere_eq_false_of_text_end hd ht h
  have htne := ne_nil_of_endsLine ht
  refine next_eq_text_iff.mpr ⟨?_, (splitText_eq_iff (by simp [htne])).mpr ⟨rfl, htne, ?_, ?_⟩⟩
  · rw [splitOpening_append_right hd.1 ht, hopening]
    rfl
  · intro s v hsv hs hv
    exact hbefore s v u hsv hs hv
  · intro _
    rw [ht, opensHere_lineStart hd.1, hu]

/-- A run of text that goes up to the seam goes on with the run of text behind it. -/
theorem next_append_of_text_text {text more u : Text} (hd : d.Valid) (ht : endsLine t = true)
    (h : next d lineStart t = .lexeme (.text text) []) (hne : u ≠ [])
    (hu : next d true u = .lexeme (.text more) rest) :
    next d lineStart (t ++ u) = .lexeme (.text (text ++ more)) rest := by
  obtain ⟨rfl, hopening, hbefore⟩ := opensHere_eq_false_of_text_end hd ht h
  obtain ⟨hopening', htext⟩ := next_eq_text_iff.mp hu
  obtain ⟨happ, hmore, hfirst, hstop⟩ := (splitText_eq_iff hne).mp htext
  refine next_eq_text_iff.mpr ⟨?_, (splitText_eq_iff (by simp [hne])).mpr ⟨?_, ?_, ?_, ?_⟩⟩
  · rw [splitOpening_append_right hd.1 ht, hopening]
    rfl
  · rw [happ, List.append_assoc]
  · simp [hmore]
  · intro s v hsv hs hv
    rcases List.append_eq_append_iff.mp hsv with ⟨s', rfl, hmore'⟩ | ⟨v', htext', rfl⟩
    · by_cases hs' : s' = []
      · subst hs'
        rw [List.nil_append] at hmore'
        rw [List.append_nil, ht, opensHere_lineStart hd.1, ← hmore', ← happ, hopening']
        rfl
      · rw [endsLine_append hs']
        exact hfirst s' v hmore' hs' hv
    · by_cases hv' : v' = []
      · subst hv'
        rw [List.append_nil] at htext'
        rw [← htext', ht, opensHere_lineStart hd.1, List.nil_append, ← happ, hopening']
        rfl
      · rw [List.append_assoc]
        exact hbefore s v' _ htext' hs hv'
  · intro hrest
    rw [endsLine_append hmore]
    exact hstop hrest

end Next

/-! ## Sequences of lexemes -/

namespace Lexeme

/-- Put lexemes one after the other. Two runs of text that meet become one. -/
def join : List Lexeme → List Lexeme → List Lexeme
  | [], more => more
  | [text t], text u :: more => text (t ++ u) :: more
  | lexeme :: lexemes, more => lexeme :: join lexemes more

theorem join_tag (tag : Tag) (lexemes more : List Lexeme) :
    join (.tag tag :: lexemes) more = .tag tag :: join lexemes more := by
  simp [join]

theorem join_cons (lexeme : Lexeme) {lexemes : List Lexeme} (h : lexemes ≠ [])
    (more : List Lexeme) : join (lexeme :: lexemes) more = lexeme :: join lexemes more := by
  rw [join]
  intro t u more' _ _ hnil
  exact h hnil

theorem join_text {t : Text} {more : List Lexeme} (h : ∀ u, more.head? ≠ some (.text u)) :
    join [.text t] more = .text t :: more := by
  rw [join]
  · rfl
  · intro t' u more' hmore _ _
    exact h u (by rw [hmore]; rfl)

end Lexeme

variable [MarkerLimits]

namespace Lexemes

theorem readFrom_cons {d : Delimiters} {lineStart : Bool} {t rest : Text} {lexeme : Lexeme}
    (ht : t ≠ []) (h : next d lineStart t = .lexeme lexeme rest) :
    readFrom d lineStart t [] =
      ⟨lexeme :: (readFrom (lexeme.delimitersAfter d) lexeme.startsLineAfter rest []).lexemes,
        (readFrom (lexeme.delimitersAfter d) lexeme.startsLineAfter rest []).broken?⟩ := by
  rw [readFrom_of_lexeme ht h, readFrom_seen]
  rfl

theorem head?_readFrom_of_opening {d : Delimiters} {lineStart : Bool} {t : Text}
    (h : (splitOpening d.opener.toList t).isSome = true) (text : Text) :
    (readFrom d lineStart t []).lexemes.head? ≠ some (.text text) := by
  by_cases ht : t = []
  · subst ht
    simp
  · cases hx : next d lineStart t with
    | broken tag => simp [readFrom_of_broken ht hx]
    | lexeme lexeme rest =>
        rw [readFrom_cons ht hx, List.head?_cons]
        intro htext
        cases Option.some.inj htext
        rw [(next_eq_text_iff.mp hx).1] at h
        cases h

end Lexemes

theorem next_eq_text_of_not_opening {d : Delimiters} {t : Text} (lineStart : Bool)
    (h : splitOpening d.opener.toList t = none) :
    next d lineStart t = .lexeme (.text (splitText d.opener.toList t).1)
      (splitText d.opener.toList t).2 :=
  next_eq_text_iff.mpr ⟨h, rfl⟩

theorem readFrom_append_of_text_end {d : Delimiters} {lineStart : Bool} {t text : Text}
    (hd : d.Valid) (ht : endsLine t = true)
    (h : next d lineStart t = .lexeme (.text text) []) (u : Text) :
    Lexemes.readFrom d lineStart (t ++ u) [] =
      ⟨Lexeme.join [.text text] (Lexemes.readFrom d true u []).lexemes,
        (Lexemes.readFrom d true u []).broken?⟩ := by
  obtain ⟨rfl, -, -⟩ := opensHere_eq_false_of_text_end hd ht h
  have htne := ne_nil_of_endsLine ht
  have htu : text ++ u ≠ [] := by simp [htne]
  cases hopening : splitOpening d.opener.toList u with
  | some parts =>
      have hsome : (splitOpening d.opener.toList u).isSome = true := by
        rw [hopening]
        rfl
      have hends : (Lexeme.text text).startsLineAfter = true := ht
      rw [Lexemes.readFrom_cons htu (next_append_of_text_opening hd ht h hsome),
        delimitersAfter_text, hends,
        Lexeme.join_text (Lexemes.head?_readFrom_of_opening hsome)]
  | none =>
      by_cases hu : u = []
      · subst hu
        rw [List.append_nil, Lexemes.readFrom_cons htne h]
        simp [Lexeme.join]
      · have hnext := next_eq_text_of_not_opening true hopening
        have hmore : (splitText d.opener.toList u).1 ≠ [] := splitText_ne_nil hu
        have hends : (Lexeme.text (text ++ (splitText d.opener.toList u).1)).startsLineAfter =
            (Lexeme.text (splitText d.opener.toList u).1).startsLineAfter := endsLine_append hmore
        rw [Lexemes.readFrom_cons htu (next_append_of_text_text hd ht h hu hnext),
          delimitersAfter_text, hends, Lexemes.readFrom_cons hu hnext]
        rfl

theorem Lexes.eq_nil {d : Delimiters} {lineStart : Bool} {lexemes : List Lexeme}
    (h : Lexes d lineStart [] lexemes) : lexemes = [] := by
  cases h with
  | nil => rfl
  | cons ht _ _ => exact absurd rfl ht

/-- The lexemes of a concatenation whose first part is some whole lines: those of the first part
and those of the second one, read with the pair that the first one leaves in force. -/
theorem Lexes.readFrom_append {d : Delimiters} {lineStart : Bool} {t : Text}
    {lexemes : List Lexeme} (hd : d.Valid ∧ d.withinLimit = true)
    (hclose : ∀ before after, lexemes = before ++ after →
      (pairAfter d before).closer.toList.head? ≠ some '=')
    (h : Lexes d lineStart t lexemes) (ht : t = [] ∧ lineStart = true ∨ endsLine t = true)
    (u : Text) :
    Lexemes.readFrom d lineStart (t ++ u) [] =
      ⟨Lexeme.join lexemes (Lexemes.readFrom (pairAfter d lexemes) true u []).lexemes,
        (Lexemes.readFrom (pairAfter d lexemes) true u []).broken?⟩ := by
  -- What is left always ends with a line feed, or it is nothing at the start of a line.
  induction h with
  | nil =>
      rcases ht with ⟨-, rfl⟩ | ht
      · rfl
      · cases ht
  | @cons d lineStart t rest lexeme lexemes htne hn hrest ih =>
      have hline : endsLine t = true := ht.resolve_left fun hnil => htne hnil.1
      have happ := next_append htne hn
      have htu : t ++ u ≠ [] := by simp [htne]
      have hrestLine : rest = [] ∧ lexeme.startsLineAfter = true ∨ endsLine rest = true := by
        rw [← happ.1] at hline
        by_cases hnil : rest = []
        · rw [hnil, List.append_nil] at hline
          exact .inl ⟨hnil, hline⟩
        · rw [endsLine_append hnil] at hline
          exact .inr hline
      have hmore := ih (valid_delimitersAfter hd hn)
        (fun before after hsplit => hclose (lexeme :: before) after (by simp [hsplit])) hrestLine
      have hfirst := hclose [] (lexeme :: lexemes) rfl
      rw [pairAfter_cons]
      cases lexeme with
      | tag tag =>
          have hn' := next_append_of_tag hd.1 hfirst hline hn u
          rw [Lexemes.readFrom_cons htu hn', hmore, Lexeme.join_tag]
      | text text =>
          by_cases hnil : rest = []
          · subst hnil
            have hlexemes : lexemes = [] := hrest.eq_nil
            rw [hlexemes, delimitersAfter_text, pairAfter_nil]
            exact readFrom_append_of_text_end hd.1 hline hn u
          · have hn' := next_append_of_text hd.1 hline hn hnil u
            have hne : lexemes ≠ [] := by
              intro hlexemes
              rw [hlexemes] at hrest
              cases hrest
              exact hnil rfl
            rw [Lexemes.readFrom_cons htu hn', hmore, Lexeme.join_cons _ hne]

end TagTemplate
