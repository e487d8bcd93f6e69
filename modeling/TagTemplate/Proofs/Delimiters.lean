import TagTemplate.Proofs.Text.Place
import TagTemplate.Proofs.Text.Trim

/-!
# Pairs as they are spelled

With the white space around it taken off, a text spells a pair if it is two words with a gap between
them. A text without a gap is refused as a whole. A text with more gaps is refused for what
follows the first one, so its first word is never to blame.
-/

namespace TagTemplate.Delimiters

open Text

/-! ## Words and gaps -/

def IsWord (t : Text) : Prop := t ≠ [] ∧ ∀ c ∈ t, isSpace c = false

def IsGap (t : Text) : Prop := t ≠ [] ∧ ∀ c ∈ t, isSpace c = true

/-- The text is a front without white space, the first gap in it, and the rest behind that gap. -/
structure SplitsInto (t front gap rest : Text) : Prop where
  append : t = front ++ gap ++ rest
  front : ∀ c ∈ front, isSpace c = false
  gap : IsGap gap
  rest : StopsRun isSpace rest

/-- The text is two words and a gap between them. -/
structure Spells (t opener gap closer : Text) : Prop where
  append : t = opener ++ gap ++ closer
  opener : IsWord opener
  gap : IsGap gap
  closer : IsWord closer

theorem isMarker_iff_isWord {t : Text} : isMarker t = true ↔ IsWord t := isMarker_iff

theorem not_exists_space {t : Text} (h : ∀ c ∈ t, isSpace c = false) :
    ¬ ∃ c ∈ t, isSpace c = true := by simpa using h

theorem exists_space_append {t : Text} (h : IsGap t) (before after : Text) :
    ∃ c ∈ before ++ t ++ after, isSpace c = true := by
  obtain ⟨c, u, rfl⟩ := List.exists_cons_of_ne_nil h.1
  exact ⟨c, by simp, h.2 c List.mem_cons_self⟩

theorem stopsRun_of_isGap {t : Text} (h : IsGap t) (rest : Text) :
    StopsRun (! isSpace ·) (t ++ rest) := by
  obtain ⟨c, u, rfl⟩ := List.exists_cons_of_ne_nil h.1
  exact stopsRun_cons (by simp [h.2 c List.mem_cons_self])

namespace SplitsInto

variable {t front gap rest : Text}

theorem takeWhile_eq (h : SplitsInto t front gap rest) : t.takeWhile (! isSpace ·) = front := by
  rw [h.append, List.append_assoc]
  exact takeWhile_append_stop (by simpa using h.front) (stopsRun_of_isGap h.gap rest)

theorem dropWhile_eq (h : SplitsInto t front gap rest) :
    t.dropWhile (! isSpace ·) = gap ++ rest := by
  rw [h.append, List.append_assoc]
  exact dropWhile_append_stop (by simpa using h.front) (stopsRun_of_isGap h.gap rest)

theorem unique {front' gap' rest' : Text} (h : SplitsInto t front gap rest)
    (h' : SplitsInto t front' gap' rest') : front = front' ∧ gap = gap' ∧ rest = rest' := by
  have htail : gap ++ rest = gap' ++ rest' := by rw [← h.dropWhile_eq, h'.dropWhile_eq]
  have hgap := congrArg (List.takeWhile isSpace) htail
  have hrest := congrArg (List.dropWhile isSpace) htail
  rw [takeWhile_append_stop h.gap.2 h.rest, takeWhile_append_stop h'.gap.2 h'.rest] at hgap
  rw [dropWhile_append_stop h.gap.2 h.rest, dropWhile_append_stop h'.gap.2 h'.rest] at hrest
  exact ⟨by rw [← h.takeWhile_eq, h'.takeWhile_eq], hgap, hrest⟩

theorem isWord_front (h : SplitsInto t front gap rest) (ht : IsTrimmed t) : IsWord front := by
  refine ⟨?_, h.front⟩
  rintro rfl
  obtain ⟨c, u, hgap⟩ := List.exists_cons_of_ne_nil h.gap.1
  have hspace := h.gap.2 c (hgap ▸ List.mem_cons_self)
  rw [ht.start c (by rw [h.append, hgap]; rfl)] at hspace
  cases hspace

theorem rest_ne_nil (h : SplitsInto t front gap rest) (ht : IsTrimmed t) : rest ≠ [] := by
  rintro rfl
  obtain ⟨u, c, hgap⟩ := (List.eq_nil_or_concat gap).resolve_left h.gap.1
  have hspace := h.gap.2 c (by simp [hgap])
  rw [ht.stop c (by simp [h.append, hgap])] at hspace
  cases hspace

end SplitsInto

theorem Spells.splitsInto {t opener gap closer : Text} (h : Spells t opener gap closer) :
    SplitsInto t opener gap closer :=
  ⟨h.append, h.opener.2, h.gap,
    List.append_nil closer ▸ stopsRun_of_isMarker (isMarker_iff_isWord.mpr h.closer) []⟩

/-- A text splits at its first gap unless it has no white space. -/
theorem splitsInto_or_forall (t : Text) :
    (∃ front gap rest, SplitsInto t front gap rest) ∨ ∀ c ∈ t, isSpace c = false := by
  have happ := List.takeWhile_append_dropWhile (p := (! isSpace ·)) (l := t)
  have hfront : ∀ c ∈ t.takeWhile (! isSpace ·), isSpace c = false := fun c hc => by
    simpa using List.mem_takeWhile_imp hc
  cases htail : t.dropWhile (! isSpace ·) with
  | nil =>
      rw [htail, List.append_nil] at happ
      exact .inr (happ ▸ hfront)
  | cons c u =>
      have hc : isSpace c = true := by
        simpa using stopsRun_dropWhile (! isSpace ·) t c (by rw [htail]; rfl)
      have hsplit := List.takeWhile_append_dropWhile (p := isSpace) (l := c :: u)
      refine .inl ⟨_, (c :: u).takeWhile isSpace, (c :: u).dropWhile isSpace, ?_, hfront,
        ⟨by simp [hc], fun _ => List.mem_takeWhile_imp⟩, stopsRun_dropWhile isSpace _⟩
      rw [List.append_assoc, hsplit, ← htail, happ]

/-! ## Reading -/

theorem parse_of_splitsInto {s : String} {front gap rest : Text}
    (h : SplitsInto (trim s.toList) front gap rest) :
    parse s = ofMarkers (String.ofList front) (String.ofList rest) := by
  obtain ⟨c, u, hgap⟩ := List.exists_cons_of_ne_nil h.gap.1
  have hu : ∀ c ∈ u, isSpace c = true := fun d hd => h.gap.2 d (hgap ▸ List.mem_cons_of_mem c hd)
  have hrest : trimStart (u ++ rest) = rest := dropWhile_append_stop hu h.rest
  simp only [parse, h.takeWhile_eq, h.dropWhile_eq, hgap, List.cons_append, hrest]

theorem parse_of_forall {s : String} (h : ∀ c ∈ trim s.toList, isSpace c = false) :
    parse s = .error ⟨String.ofList (trim s.toList)⟩ := by
  have hword : ∀ c ∈ trim s.toList, (! isSpace c) = true := by simpa using h
  have hdrop := dropWhile_append_stop hword (nofun : StopsRun (! isSpace ·) [])
  rw [List.append_nil] at hdrop
  simp only [parse, hdrop]

/-- Behind the first gap there is a pair, or more white space. -/
theorem parse_of_splitsInto_cases {s : String} {front gap rest : Text}
    (h : SplitsInto (trim s.toList) front gap rest) :
    Spells (trim s.toList) front gap rest ∧
        parse s = .ok ⟨String.ofList front, String.ofList rest⟩ ∨
      (∃ c ∈ rest, isSpace c = true) ∧ parse s = .error ⟨String.ofList rest⟩ := by
  have hfront := h.isWord_front (isTrimmed_trim _)
  have hopener : isMarker front = true := isMarker_iff_isWord.mpr hfront
  rw [parse_of_splitsInto h]
  by_cases hspace : ∃ c ∈ rest, isSpace c = true
  · have hcloser : isMarker rest = false := by
      rw [← Bool.not_eq_true, isMarker_iff]
      exact fun hword => not_exists_space hword.2 hspace
    exact .inr ⟨hspace, by simp [ofMarkers, hopener, hcloser]⟩
  · have hrest : IsWord rest := ⟨h.rest_ne_nil (isTrimmed_trim _), by simpa using hspace⟩
    have hcloser : isMarker rest = true := isMarker_iff_isWord.mpr hrest
    exact .inl ⟨⟨h.append, hfront, h.gap, hrest⟩, by simp [ofMarkers, hopener, hcloser]⟩

theorem parse_eq_ok_iff {s : String} {d : Delimiters} :
    parse s = .ok d ↔ ∃ gap, Spells (trim s.toList) d.opener.toList gap d.closer.toList := by
  constructor
  · intro h
    rcases splitsInto_or_forall (trim s.toList) with ⟨front, gap, rest, hsplit⟩ | hall
    · rcases parse_of_splitsInto_cases hsplit with ⟨hspells, hparse⟩ | ⟨-, hparse⟩
      · rw [hparse] at h
        cases h
        exact ⟨gap, by simpa using hspells⟩
      · rw [hparse] at h
        cases h
    · rw [parse_of_forall hall] at h
      cases h
  · intro h
    obtain ⟨gap, hspells⟩ := h
    rcases parse_of_splitsInto_cases hspells.splitsInto with ⟨-, hparse⟩ | ⟨hspace, -⟩
    · simpa using hparse
    · exact absurd hspace (not_exists_space hspells.closer.2)

theorem parse_eq_error_iff {s : String} {e : InvalidDelimiters} :
    parse s = .error e ↔
      (∀ c ∈ trim s.toList, isSpace c = false) ∧ e.marker.toList = trim s.toList ∨
        ∃ front gap rest, SplitsInto (trim s.toList) front gap rest ∧
          (∃ c ∈ rest, isSpace c = true) ∧ e.marker.toList = rest := by
  have hmarker : ∀ t : Text, (⟨String.ofList t⟩ : InvalidDelimiters) = e ↔ e.marker.toList = t := by
    intro t
    rw [← String.ofList_inj, String.ofList_toList]
    cases e
    simp [eq_comm]
  constructor
  · intro h
    rcases splitsInto_or_forall (trim s.toList) with ⟨front, gap, rest, hsplit⟩ | hall
    · rcases parse_of_splitsInto_cases hsplit with ⟨-, hparse⟩ | ⟨hspace, hparse⟩
      · rw [hparse] at h
        cases h
      · rw [hparse, Except.error.injEq, hmarker] at h
        exact .inr ⟨front, gap, rest, hsplit, hspace, h⟩
    · rw [parse_of_forall hall, Except.error.injEq, hmarker] at h
      exact .inl ⟨hall, h⟩
  · intro h
    rcases h with ⟨hall, he⟩ | ⟨front, gap, rest, hsplit, hspace, he⟩
    · rw [parse_of_forall hall, Except.error.injEq, hmarker, he]
    · rcases parse_of_splitsInto_cases hsplit with ⟨hspells, -⟩ | ⟨-, hparse⟩
      · exact absurd hspace (not_exists_space hspells.closer.2)
      · rw [hparse, Except.error.injEq, hmarker, he]

/-- A pair is read from its markers with white space between them, and around them or not. -/
theorem parse_spelled {d : Delimiters} (hd : d.Valid) {left gap right : Text}
    (hleft : ∀ c ∈ left, isSpace c = true) (hgap : IsGap gap)
    (hright : ∀ c ∈ right, isSpace c = true) :
    parse (String.ofList (left ++ (d.opener.toList ++ gap ++ d.closer.toList) ++ right)) =
      .ok d := by
  have htrimmed : IsTrimmed (d.opener.toList ++ gap ++ d.closer.toList) := by
    refine ⟨?_, ?_⟩
    · rw [List.append_assoc]
      exact stopsRun_of_isMarker hd.1 _
    · exact stopsRun_reverse_append (stopsRun_reverse_of_isMarker hd.2) (isMarker_iff.mp hd.2).1 _
  rw [parse_eq_ok_iff, String.toList_ofList, trim_append hleft hright htrimmed]
  exact ⟨gap, rfl, isMarker_iff_isWord.mp hd.1, hgap, isMarker_iff_isWord.mp hd.2⟩

/-- A text is read as the pair that it spells, however wide its white space is, and refused for what
keeps it from spelling one. -/
theorem parse_exact :
    (∀ (s : String) (d : Delimiters), parse s = .ok d ↔
      ∃ gap, Spells (trim s.toList) d.opener.toList gap d.closer.toList) ∧
    (∀ t opener gap closer opener' gap' closer', Spells t opener gap closer →
      Spells t opener' gap' closer' → opener = opener' ∧ gap = gap' ∧ closer = closer') ∧
    (∀ (s : String) (d : Delimiters), parse s = .ok d → ∀ left gap right,
      (∀ c ∈ left, isSpace c = true) → IsGap gap → (∀ c ∈ right, isSpace c = true) →
        parse (String.ofList (left ++ (d.opener.toList ++ gap ++ d.closer.toList) ++ right)) =
          .ok d) ∧
    (∀ (s : String) (e : InvalidDelimiters), parse s = .error e ↔
      (∀ c ∈ trim s.toList, isSpace c = false) ∧ e.marker.toList = trim s.toList ∨
        ∃ front gap rest, SplitsInto (trim s.toList) front gap rest ∧
          (∃ c ∈ rest, isSpace c = true) ∧ e.marker.toList = rest) ∧
    ∀ (s : String) front gap rest, SplitsInto (trim s.toList) front gap rest →
      IsWord front ∧ ∀ e, parse s = .error e → e.marker.toList ≠ front := by
  refine ⟨fun s d => parse_eq_ok_iff, ?_, ?_, fun s e => parse_eq_error_iff, ?_⟩
  · intro t opener gap closer opener' gap' closer' h h'
    exact h.splitsInto.unique h'.splitsInto
  · intro s d h left gap right hleft hgap hright
    obtain ⟨_, hspells⟩ := parse_eq_ok_iff.mp h
    exact parse_spelled ⟨isMarker_iff_isWord.mpr hspells.opener,
      isMarker_iff_isWord.mpr hspells.closer⟩ hleft hgap hright
  · intro s front gap rest hsplit
    refine ⟨hsplit.isWord_front (isTrimmed_trim _), ?_⟩
    rintro e he rfl
    rcases parse_eq_error_iff.mp he with ⟨hall, -⟩ | ⟨front', gap', rest', hsplit', hspace, hrest⟩
    · rw [hsplit.append] at hall
      exact not_exists_space hall (exists_space_append hsplit.gap _ _)
    · rw [← hrest] at hspace
      exact not_exists_space hsplit.front hspace

/-- Wide gaps between and around the markers, and a text with three words. -/
theorem parse_exact_wide_gaps :
    Spells (trim "\u2003<%\u00a0\t%>\n".toList) "<%".toList "\u00a0\t".toList "%>".toList ∧
      parse "\u2003<%\u00a0\t%>\n" = .ok ⟨"<%", "%>"⟩ ∧
      SplitsInto (trim "<% %> x".toList) "<%".toList " ".toList "%> x".toList ∧
      parse "<% %> x" = .error ⟨"%> x"⟩ := by
  obtain ⟨hok, -, -, herror, -⟩ := parse_exact
  have hspells : Spells (trim "\u2003<%\u00a0\t%>\n".toList) "<%".toList "\u00a0\t".toList
      "%>".toList := by
    refine ⟨by decide, ?_, ?_, ?_⟩ <;> exact ⟨by decide, by simp [isSpace]⟩
  have hsplit : SplitsInto (trim "<% %> x".toList) "<%".toList " ".toList "%> x".toList := by
    refine ⟨by decide, by simp [isSpace], ⟨by decide, by simp [isSpace]⟩, ?_⟩
    exact stopsRun_cons (by decide)
  have hspace : ∃ c ∈ "%> x".toList, isSpace c = true := ⟨' ', by decide, by decide⟩
  exact ⟨hspells, (hok _ _).mpr ⟨_, hspells⟩, hsplit,
    (herror _ _).mpr (.inr ⟨_, _, _, hsplit, hspace, rfl⟩)⟩

end TagTemplate.Delimiters
