import Mathlib.Logic.Basic
import TagTemplate.Pattern.Catalogue
import TagTemplate.Pattern.Search
import TagTemplate.Proofs.Tag.Reader

/-!
# What the patterns of the tag language match

Every pattern of the tag language matches what the readers cut off: the preferred way to match takes
the piece that the reader takes, and a search stops where a run of text or a free content ends. This
holds for every pair of markers, be they empty or made of white space.
-/

namespace TagTemplate.Pattern

open Text

/-! ## Repeated classes -/

/-- The places to which a run can be matched, the farthest first. The run comes last character
first, and `before` stands in front of it. -/
def placesIn (before : Option Char) : Text → Text → List Place
  | [], t => [⟨before, t⟩]
  | c :: run, t => ⟨some c, t⟩ :: placesIn before run (c :: t)

theorem placesIn_concat (before : Option Char) (c : Char) (run t : Text) :
    placesIn before (run ++ [c]) t =
      placesIn (some c) run t ++ [⟨before, c :: (run.reverse ++ t)⟩] := by
  induction run generalizing t with
  | nil => rfl
  | cons e run ih => simp [placesIn, ih]

theorem repeats_eq_placesIn (p : Char → Bool) (before : Option Char) (t : Text) :
    repeats p before t [] = placesIn before (t.takeWhile p).reverse (t.dropWhile p) := by
  induction t generalizing before with
  | nil => rfl
  | cons c t ih =>
      cases hc : p c with
      | true =>
          rw [repeats_cons hc, ih, List.takeWhile_cons_of_pos hc, List.dropWhile_cons_of_pos hc,
            List.reverse_cons, placesIn_concat, List.reverse_reverse,
            List.takeWhile_append_dropWhile]
      | false =>
          have hneg : ¬ p c = true := by simp [hc]
          rw [repeats, if_neg hneg, List.takeWhile_cons_of_neg hneg,
            List.dropWhile_cons_of_neg hneg]
          rfl

theorem head?_placesIn (before : Option Char) (run t : Text) :
    ∃ b, (placesIn before run t).head? = some ⟨b, t⟩ := by
  cases run with
  | nil => exact ⟨before, rfl⟩
  | cons c run => exact ⟨some c, rfl⟩

theorem ways_many (p : Char → Bool) (before : Option Char) (t : Text) :
    (many p).ways ⟨before, t⟩ =
      (placesIn before (t.takeWhile p).reverse (t.dropWhile p)).map (⟨·, []⟩) := by
  rw [ways, repeats_eq_placesIn]

/-! ## Anchored patterns -/

theorem ways_seq_textStart (q : Pattern) (t : Text) :
    (seq textStart q).ways (Place.start t) = q.ways (Place.start t) := by
  simp [ways, Place.start]

/-- The preferred way to match at the start of `t` leaves `rest`. -/
def Leaves (q : Pattern) (t rest : Text) : Prop :=
  ∃ way, q.match? (Place.start t) = some way ∧ way.stop.ahead = rest

theorem leaves_many (p : Char → Bool) (t : Text) :
    (seq textStart (many p)).Leaves t (t.dropWhile p) := by
  obtain ⟨b, hb⟩ := head?_placesIn none (t.takeWhile p).reverse (t.dropWhile p)
  have hmatch : (seq textStart (many p)).match? (Place.start t) =
      some ⟨⟨b, t.dropWhile p⟩, []⟩ := by
    rw [match?, ways_seq_textStart, Place.start, ways_many, List.head?_map, hb]
    rfl
  exact ⟨_, hmatch, rfl⟩

theorem dropLast_placesIn_cons (before : Option Char) (c : Char) (run t : Text) :
    (placesIn before (c :: run) t).dropLast =
      ⟨some c, t⟩ :: (placesIn before run (c :: t)).dropLast := by
  rw [placesIn, List.dropLast_cons_of_ne_nil]
  cases run with
  | nil => simp [placesIn]
  | cons e run => simp [placesIn]

theorem match?_someOf_eq_none {p : Char → Bool} {t : Text} (h : t.takeWhile p = []) :
    (seq textStart (someOf p)).match? (Place.start t) = none := by
  rw [match?, ways_seq_textStart, ways, Place.start, repeats_eq_placesIn, h]
  rfl

theorem leaves_someOf {p : Char → Bool} {t : Text} (h : t.takeWhile p ≠ []) :
    (seq textStart (someOf p)).Leaves t (t.dropWhile p) := by
  cases hrun : (t.takeWhile p).reverse with
  | nil => exact absurd (List.reverse_eq_nil_iff.mp hrun) h
  | cons c run =>
      have hmatch : (seq textStart (someOf p)).match? (Place.start t) =
          some ⟨⟨some c, t.dropWhile p⟩, []⟩ := by
        rw [match?, ways_seq_textStart, ways, Place.start, repeats_eq_placesIn, hrun,
          dropLast_placesIn_cons]
        rfl
      exact ⟨_, hmatch, rfl⟩

theorem match?_sigil_cons (c : Char) (t : Text) :
    sigil.match? (Place.start (c :: t)) =
      if (Sigil.ofChar? c).isSome then some ⟨⟨some c, t⟩, []⟩ else none := by
  rw [match?, sigil, ways_seq_textStart, ways, Place.start]
  dsimp only
  split
  · rfl
  · rfl

theorem match?_sigil_nil : sigil.match? (Place.start []) = none := rfl

/-- A line break in front of more text is what the pattern matches. The end of the text is left to
the cursor. -/
theorem leaves_lineBreak {t piece rest : Text} (h : splitLineBreak? t = some (piece, rest))
    (ht : t ≠ []) : lineBreak.Leaves t rest := by
  unfold splitLineBreak? at h
  split at h
  · exact absurd rfl ht
  · cases h
    exact ⟨_, rfl, rfl⟩
  · cases h
    exact ⟨_, rfl, rfl⟩
  · cases h

theorem match?_lineBreak_eq_none {t : Text} (h : splitLineBreak? t = none) :
    lineBreak.match? (Place.start t) = none := by
  unfold splitLineBreak? at h
  split at h
  · cases h
  · cases h
  · cases h
  · rename_i hnil hfeed hreturn
    rw [match?, lineBreak, ways_seq_textStart]
    cases t with
    | nil => exact absurd rfl hnil
    | cons c t =>
        have hc : c ≠ '\n' := fun hc => hfeed t (hc ▸ rfl)
        by_cases hr : c = '\r'
        · subst hr
          cases t with
          | nil => rfl
          | cons e t =>
              have he : e ≠ '\n' := fun he => hreturn t (he ▸ rfl)
              simp [ways, Place.start, he]
        · simp [ways, Place.start, hc, hr]

/-! ## Markers -/

theorem ways_literal_append (before : Option Char) (marker rest : Text) :
    ∃ b, (literal marker).ways ⟨before, marker ++ rest⟩ = [⟨⟨b, rest⟩, []⟩] := by
  induction marker generalizing before with
  | nil => exact ⟨before, rfl⟩
  | cons c marker ih =>
      obtain ⟨b, hb⟩ := ih (some c)
      exact ⟨b, by simp [literal, ways, hb]⟩

theorem ways_literal_eq_nil {marker t : Text} (h : ¬ marker <+: t) (before : Option Char) :
    (literal marker).ways ⟨before, t⟩ = [] := by
  induction marker generalizing before t with
  | nil => exact absurd List.nil_prefix h
  | cons c marker ih =>
      cases t with
      | nil => simp [literal, ways]
      | cons d t =>
          by_cases hcd : c = d
          · have hmarker : ¬ marker <+: t := fun hp => h (List.cons_prefix_cons.mpr ⟨hcd, hp⟩)
            simp [literal, ways, hcd, ih hmarker]
          · have hdc : ¬ (d == c) = true := by simpa using Ne.symm hcd
            simp [literal, ways, hdc]

theorem ways_literal_ne_nil_iff {marker t : Text} (before : Option Char) :
    (literal marker).ways ⟨before, t⟩ ≠ [] ↔ marker <+: t := by
  constructor
  · exact fun h => Classical.not_not.mp fun hno => h (ways_literal_eq_nil hno before)
  · intro h
    obtain ⟨rest, rfl⟩ := h
    obtain ⟨b, hb⟩ := ways_literal_append before marker rest
    simp [hb]

/-! ## Openings -/

def openings (start : Place) (marker : Text) (places : List Place) : List Way :=
  places.flatMap fun stop => ((literal marker).ways stop).map fun way =>
    { way with groups := [(1, ⟨start, stop⟩)] ++ way.groups }

theorem ways_tagOpening (d : Delimiters) (t : Text) :
    (tagOpening d).ways (Place.start t) = openings (Place.start t) d.opener.toList
      (placesIn none (t.takeWhile isIndent).reverse (t.dropWhile isIndent)) := by
  rw [tagOpening, ways_seq_textStart, openings]
  simp [ways, Place.start, repeats_eq_placesIn, List.flatMap_map]

theorem openings_of_go {start : Place} {marker run t indent rest : Text} (before : Option Char)
    (h : splitOpening.go marker run t = some (indent, rest)) :
    ∃ stop way, (openings start marker (placesIn before run t)).head? = some way ∧
      stop.ahead = marker ++ rest ∧ way.stop.ahead = rest ∧ way.groups = [(1, ⟨start, stop⟩)] := by
  have hhere : ∀ (stop : Place) (places : List Place), stop.ahead = marker ++ rest →
      ∃ way, (openings start marker (stop :: places)).head? = some way ∧ way.stop.ahead = rest ∧
        way.groups = [(1, ⟨start, stop⟩)] := by
    intro stop places hstop
    obtain ⟨b, hb⟩ := ways_literal_append stop.before marker rest
    rw [← hstop] at hb
    refine ⟨⟨⟨b, rest⟩, [(1, ⟨start, stop⟩)]⟩, ?_, rfl, rfl⟩
    simp [openings, hb]
  fun_induction splitOpening.go marker run t with
  | case1 t hmarker =>
      cases h
      have ht := (append_drop_of_isPrefixOf hmarker).symm
      obtain ⟨way, hway, hstop, hgroups⟩ := hhere ⟨before, t⟩ [] ht
      exact ⟨⟨before, t⟩, way, hway, ht, hstop, hgroups⟩
  | case2 => cases h
  | case3 c run t hmarker =>
      cases h
      have ht := (append_drop_of_isPrefixOf hmarker).symm
      obtain ⟨way, hway, hstop, hgroups⟩ := hhere ⟨some c, t⟩ _ ht
      exact ⟨⟨some c, t⟩, way, hway, ht, hstop, hgroups⟩
  | case4 c run t hmarker ih =>
      obtain ⟨stop, way, hway, hstop, hrest, hgroups⟩ := ih h
      have hnone := ways_literal_eq_nil (mt List.isPrefixOf_iff_prefix.mpr hmarker)
      have hskip : openings start marker (placesIn before (c :: run) t) =
          openings start marker (placesIn before run (c :: t)) := by
        simp [openings, placesIn, hnone]
      exact ⟨stop, way, hskip ▸ hway, hstop, hrest, hgroups⟩

theorem openings_eq_nil_of_go {start : Place} {marker run t : Text} (before : Option Char)
    (h : splitOpening.go marker run t = none) :
    openings start marker (placesIn before run t) = [] := by
  have hnone : ∀ {t : Text}, ¬ marker.isPrefixOf t = true → ∀ before,
      (literal marker).ways ⟨before, t⟩ = [] := fun hmarker =>
    ways_literal_eq_nil (mt List.isPrefixOf_iff_prefix.mpr hmarker)
  fun_induction splitOpening.go marker run t with
  | case1 => cases h
  | case2 t hmarker => simp [openings, placesIn, hnone hmarker]
  | case3 => cases h
  | case4 c run t hmarker ih =>
      rw [placesIn, openings, List.flatMap_cons, hnone hmarker]
      exact ih h

/-- The opening pattern finds a tag where `splitOpening` does, and its group holds the
indentation. -/
theorem match?_tagOpening_of_some {d : Delimiters} {t indent rest : Text}
    (h : splitOpening d.opener.toList t = some (indent, rest)) :
    ∃ way span, (tagOpening d).match? (Place.start t) = some way ∧ way.stop.ahead = rest ∧
      way.groups.lookup 1 = some span ∧ span.text = indent := by
  obtain ⟨stop, way, hway, hstop, hrest, hgroups⟩ := openings_of_go none h
  refine ⟨way, _, by rw [match?, ways_tagOpening]; exact hway, hrest, by rw [hgroups]; rfl, ?_⟩
  have happ := splitOpening_append h
  rw [List.append_assoc, ← hstop] at happ
  have htext := @Span.text_append ⟨Place.start t, stop⟩ ⟨indent, happ⟩
  rw [← happ] at htext ⊢
  exact List.append_cancel_right htext

theorem match?_tagOpening_of_none {d : Delimiters} {t : Text}
    (h : splitOpening d.opener.toList t = none) :
    (tagOpening d).match? (Place.start t) = none := by
  rw [match?, ways_tagOpening, openings_eq_nil_of_go none h]
  rfl

/-! ## Ends of text -/

theorem matchesAt_iff {q : Pattern} {place : Place} :
    q.matchesAt place = true ↔ q.ways place ≠ [] := by
  rw [← Bool.not_eq_false, Ne, matchesAt_eq_false_iff]

theorem ways_seq_ne_nil_iff {q r : Pattern} {place : Place} :
    (seq q r).ways place ≠ [] ↔ ∃ first ∈ q.ways place, r.ways first.stop ≠ [] := by
  simp [ways]

theorem exists_placesIn_iff {marker run t : Text} (before : Option Char) :
    (∃ place ∈ placesIn before run t, (literal marker).ways place ≠ []) ↔
      (splitOpening.go marker run t).isSome = true := by
  fun_induction splitOpening.go marker run t with
  | case1 t hmarker => simpa [placesIn, ways_literal_ne_nil_iff] using hmarker
  | case2 t hmarker => simpa [placesIn, ways_literal_ne_nil_iff] using hmarker
  | case3 c run t hmarker =>
      have hhere := (ways_literal_ne_nil_iff (some c)).mpr (List.isPrefixOf_iff_prefix.mp hmarker)
      simp [placesIn, hhere]
  | case4 c run t hmarker ih =>
      simp [placesIn, ways_literal_eq_nil (mt List.isPrefixOf_iff_prefix.mpr hmarker), ih]

theorem ways_indentation (before : Option Char) (t : Text) :
    (seq lineStart (many isIndent)).ways ⟨before, t⟩ =
      if Place.startsLine ⟨before, t⟩ then
        (placesIn before (t.takeWhile isIndent).reverse (t.dropWhile isIndent)).map (⟨·, []⟩)
      else [] := by
  cases hline : Place.startsLine ⟨before, t⟩ with
  | false => simp [ways, hline]
  | true => simp [ways, hline, repeats_eq_placesIn, Function.comp_def]

/-- A run of text ends where its end is matched. -/
theorem matchesAt_textEnd (d : Delimiters) (place : Place) :
    (textEnd d).matchesAt place = opensHere d.opener.toList place.startsLine place.ahead := by
  obtain ⟨before, t⟩ := place
  have hways : (option (seq lineStart (many isIndent))).ways ⟨before, t⟩ =
      (seq lineStart (many isIndent)).ways ⟨before, t⟩ ++ [⟨⟨before, t⟩, []⟩] := rfl
  have hhere : (literal d.opener.toList).ways ⟨before, t⟩ ≠ [] ↔
      d.opener.toList.isPrefixOf t = true := by
    rw [ways_literal_ne_nil_iff, List.isPrefixOf_iff_prefix]
  have hindent : (∃ place ∈ placesIn before (t.takeWhile isIndent).reverse (t.dropWhile isIndent),
      (literal d.opener.toList).ways place ≠ []) ↔
        (splitOpening d.opener.toList t).isSome = true := exists_placesIn_iff before
  rw [Bool.eq_iff_iff, matchesAt_iff, textEnd, ways_seq_ne_nil_iff, hways, ways_indentation,
    opensHere, Bool.or_eq_true, Bool.and_eq_true, ← hindent, ← hhere]
  cases Place.startsLine ⟨before, t⟩ with
  | false => simp
  | true => simp [or_comm]

theorem isPrefixOf_eq_false_of_go {marker run t : Text}
    (h : splitOpening.go marker run t = none) : marker.isPrefixOf (run.reverse ++ t) = false := by
  fun_induction splitOpening.go marker run t with
  | case1 => cases h
  | case2 t hmarker => exact Bool.eq_false_iff.mpr hmarker
  | case3 => cases h
  | case4 c run t hmarker ih => simpa using ih h

theorem isPrefixOf_eq_false_of_splitOpening {marker t : Text}
    (h : splitOpening marker t = none) : marker.isPrefixOf t = false := by
  have hnone := isPrefixOf_eq_false_of_go h
  rwa [List.reverse_reverse, List.takeWhile_append_dropWhile] at hnone

/-- Where no tag opens, no run of text ends, whatever stands before the place. -/
theorem matchesAt_textEnd_eq_false {d : Delimiters} {place : Place}
    (h : splitOpening d.opener.toList place.ahead = none) :
    (textEnd d).matchesAt place = false := by
  rw [matchesAt_textEnd, opensHere, h, isPrefixOf_eq_false_of_splitOpening h]
  simp

/-- What a search passes over and what it leaves, which is all and nothing if it finds nothing. -/
def found (t : Text) : Option (Text × Place) → Text × Text
  | some (text, place) => (text, place.ahead)
  | none => (t, [])

theorem found_seek?_go (d : Delimiters) (c : Char) (t seen : Text) :
    found (seen.reverse ++ t) (Place.seek?.go (textEnd d).matchesAt (some c) t seen) =
      splitText.go d.opener.toList (c == '\n') t seen := by
  induction t generalizing c seen with
  | nil =>
      rw [Place.seek?.go, splitText.go]
      split
      · rfl
      · simp [found]
  | cons e t ih =>
      have hline : Place.startsLine ⟨some c, e :: t⟩ = (c == '\n') := by simp [Place.startsLine]
      have hsame : seen.reverse ++ e :: t = (e :: seen).reverse ++ t := by simp
      rw [Place.seek?.go, splitText.go, matchesAt_textEnd, hline]
      split
      · rfl
      · rw [hsame]
        exact ih e (e :: seen)

/-- Where no tag opens, a run of text is split off where the search for its end stops. -/
theorem found_find?_textEnd {d : Delimiters} {place : Place}
    (h : splitOpening d.opener.toList place.ahead = none) :
    found place.ahead ((textEnd d).find? place) = splitText d.opener.toList place.ahead := by
  obtain ⟨before, t⟩ := place
  rw [find?_eq_seek?, Place.seek?]
  cases t with
  | nil =>
      rw [Place.seek?.go]
      split
      · rfl
      · rfl
  | cons c t =>
      rw [Place.seek?.go, matchesAt_textEnd_eq_false h]
      exact found_seek?_go d c t [c]

/-! ## Ends of free text -/

theorem exists_ahead_placesIn_iff {P : Text → Prop} (before : Option Char) (run t : Text) :
    (∃ place ∈ placesIn before run t, P place.ahead) ↔
      ∃ s u, run = s ++ u ∧ P (s.reverse ++ t) := by
  induction run generalizing t with
  | nil =>
      simp only [placesIn, List.mem_singleton, exists_eq_left]
      constructor
      · intro h
        exact ⟨[], [], rfl, h⟩
      · intro h
        obtain ⟨s, u, hsu, h⟩ := h
        rw [(List.append_eq_nil_iff.mp hsu.symm).1] at h
        exact h
  | cons c run ih =>
      simp only [placesIn, List.mem_cons, exists_eq_or_imp, ih]
      constructor
      · intro h
        rcases h with h | ⟨s, u, rfl, h⟩
        · exact ⟨[], c :: run, rfl, h⟩
        · exact ⟨c :: s, u, rfl, by simpa using h⟩
      · intro h
        obtain ⟨s, u, hsu, h⟩ := h
        cases s with
        | nil => exact .inl h
        | cons e s =>
            obtain ⟨rfl, rfl⟩ := List.cons.inj hsu
            exact .inr ⟨s, u, rfl, by simpa using h⟩

/-- A repeated class may stop behind every run of the class. -/
theorem exists_way_many_iff {P : Text → Prop} (p : Char → Bool) (before : Option Char) (t : Text) :
    (∃ way ∈ (many p).ways ⟨before, t⟩, P way.stop.ahead) ↔
      ∃ run rest, t = run ++ rest ∧ (∀ c ∈ run, p c = true) ∧ P rest := by
  have hways : (∃ way ∈ (many p).ways ⟨before, t⟩, P way.stop.ahead) ↔
      ∃ place ∈ placesIn before (t.takeWhile p).reverse (t.dropWhile p), P place.ahead := by
    rw [ways_many]
    simp
  rw [hways, exists_ahead_placesIn_iff]
  constructor
  · intro h
    obtain ⟨s, u, hsu, h⟩ := h
    have hrun : t.takeWhile p = u.reverse ++ s.reverse := by
      rw [← List.reverse_append, ← hsu, List.reverse_reverse]
    refine ⟨u.reverse, s.reverse ++ t.dropWhile p, ?_, ?_, h⟩
    · rw [← List.append_assoc, ← hrun, List.takeWhile_append_dropWhile]
    · intro c hc
      exact List.mem_takeWhile_imp (hrun ▸ List.mem_append_left _ hc)
  · intro h
    obtain ⟨run, rest, rfl, hrun, h⟩ := h
    refine ⟨(rest.takeWhile p).reverse, run.reverse, ?_, ?_⟩
    · rw [List.takeWhile_append_of_pos hrun, List.reverse_append]
    · rw [List.dropWhile_append_of_pos hrun, List.reverse_reverse, List.takeWhile_append_dropWhile]
      exact h

theorem ways_closing_ne_nil_iff {sigil : Char} {closer t : Text} {before : Option Char} :
    (seq (option (char (· == sigil))) (literal closer)).ways ⟨before, t⟩ ≠ [] ↔
      TagHead.closesHere sigil closer t = true := by
  rw [TagHead.closesHere.eq_def, Bool.or_eq_true, List.isPrefixOf_iff_prefix,
    ← ways_literal_ne_nil_iff before, ways_seq_ne_nil_iff]
  cases t with
  | nil => simp [ways]
  | cons c t =>
      dsimp only
      rw [Bool.and_eq_true, List.isPrefixOf_iff_prefix,
        ← ways_literal_ne_nil_iff (some c)]
      by_cases hc : c = sigil
      · simp [ways, hc, or_comm]
      · simp [ways, hc]

/-- The end of a free text is matched where blanks lead to a place at which the tag closes. -/
theorem matchesAt_freeEnd_iff {d : Delimiters} {sigil : Sigil} {place : Place} :
    (freeEnd d sigil).matchesAt place = true ↔ ∃ gap after, place.ahead = gap ++ after ∧
      (∀ c ∈ gap, isSpace c = true) ∧
        TagHead.closesHere sigil.toChar d.closer.toList after = true := by
  obtain ⟨before, t⟩ := place
  rw [matchesAt_iff, freeEnd, ways_seq_ne_nil_iff, ← exists_way_many_iff isSpace before t]
  constructor
  · intro h
    obtain ⟨way, hmem, hway⟩ := h
    exact ⟨way, hmem, ways_closing_ne_nil_iff.mp hway⟩
  · intro h
    obtain ⟨way, hmem, hway⟩ := h
    exact ⟨way, hmem, ways_closing_ne_nil_iff.mpr hway⟩

/-- Blanks that start inside a free text do not lead to a place at which the tag closes. -/
theorem cutFree?_first {sigil : Char} {closer content gap after s u gap' after' : Text}
    (hgap' : ∀ c ∈ gap', isSpace c = true) (hstop : StopsRun isSpace content.reverse)
    (hfirst : ∀ s u, content ++ gap = s ++ u → u ≠ [] →
      TagHead.closesHere sigil closer (u ++ after) = false)
    (hsu : content = s ++ u) (hu : u ≠ []) (happ : u ++ (gap ++ after) = gap' ++ after') :
    TagHead.closesHere sigil closer after' = false := by
  have hink : ¬ ∀ c ∈ u ++ gap, isSpace c = true := by
    intro hblank
    obtain ⟨c, hc⟩ : ∃ c, u.reverse.head? = some c := by
      cases hr : u.reverse with
      | nil => exact absurd (List.reverse_eq_nil_iff.mp hr) hu
      | cons c v => exact ⟨c, rfl⟩
    have hmem : c ∈ u := List.mem_reverse.mp (List.mem_of_mem_head? hc)
    have hstopped := hstop c (by simp [hsu, hc])
    rw [hblank c (List.mem_append_left _ hmem)] at hstopped
    cases hstopped
  rw [← List.append_assoc] at happ
  rcases List.append_eq_append_iff.mp happ with ⟨v, rfl, -⟩ | ⟨v, hv, rfl⟩
  · exact absurd (fun c hc => hgap' c (List.mem_append_left _ hc)) hink
  · refine hfirst (s ++ gap') v (by rw [hsu, List.append_assoc, hv, List.append_assoc]) ?_
    intro hnil
    rw [hv, hnil, List.append_nil] at hink
    exact hink hgap'

/-- A free text is cut off at the first place where blanks lead to its end. -/
theorem cutFree?_eq_splitAtFirst? {p : Text → Bool} {sigil : Char} {closer : Text}
    (hp : ∀ t, p t = true ↔ ∃ gap after, t = gap ++ after ∧ (∀ c ∈ gap, isSpace c = true) ∧
      TagHead.closesHere sigil closer after = true) (t : Text) :
    TagHead.cutFree? sigil closer t = splitAtFirst? p t := by
  cases h : TagHead.cutFree? sigil closer t with
  | some parts =>
      obtain ⟨content, rest⟩ := parts
      obtain ⟨gap, after, rfl, rfl, hgap, hstop, hcloses, hfirst⟩ :=
        TagHead.cutFree?_eq_some_iff.mp h
      refine (splitAtFirst?_eq_some_iff.mpr
        ⟨by simp, (hp _).mpr ⟨gap, after, rfl, hgap, hcloses⟩, ?_⟩).symm
      intro s u hsu hu
      rw [← Bool.not_eq_true, hp]
      intro hends
      obtain ⟨gap', after', happ, hgap', hcloses'⟩ := hends
      rw [cutFree?_first hgap' hstop hfirst hsu hu happ] at hcloses'
      cases hcloses'
  | none =>
      cases hsplit : splitAtFirst? p t with
      | none => rfl
      | some parts =>
          obtain ⟨before, after⟩ := parts
          obtain ⟨rfl, hends, -⟩ := splitAtFirst?_eq_some_iff.mp hsplit
          obtain ⟨gap, after', rfl, -, hcloses⟩ := (hp after).mp hends
          have hsome : splitAtFirst? (TagHead.closesHere sigil closer) ((before ++ gap) ++ after') ≠
              none := splitAtFirst?_ne_none hcloses
          rw [List.append_assoc] at hsome
          simp [TagHead.cutFree?, hsome] at h

theorem map_seek?_go_eq_splitAtFirst?_go {p : Place → Bool} {q : Text → Bool}
    (h : ∀ place, p place = q place.ahead) (before : Option Char) (t seen : Text) :
    (Place.seek?.go p before t seen).map (fun stop => (stop.1, stop.2.ahead)) =
      splitAtFirst?.go q t seen := by
  induction t generalizing before seen with
  | nil =>
      rw [Place.seek?.go, splitAtFirst?.go, h]
      split
      · rfl
      · rfl
  | cons c t ih =>
      rw [Place.seek?.go, splitAtFirst?.go, h]
      split
      · rfl
      · exact ih (some c) (c :: seen)

/-- A free text is cut off where the search for its end stops. -/
theorem find?_freeEnd (d : Delimiters) (sigil : Sigil) (place : Place) :
    ((freeEnd d sigil).find? place).map (fun stop => (stop.1, stop.2.ahead)) =
      TagHead.cutFree? sigil.toChar d.closer.toList place.ahead := by
  have hahead : ∀ place : Place, (freeEnd d sigil).matchesAt place =
      (freeEnd d sigil).matchesAt ⟨none, place.ahead⟩ := by
    intro place
    rw [Bool.eq_iff_iff, matchesAt_freeEnd_iff, matchesAt_freeEnd_iff]
  have hends : ∀ t, (freeEnd d sigil).matchesAt ⟨none, t⟩ = true ↔ ∃ gap after, t = gap ++ after ∧
      (∀ c ∈ gap, isSpace c = true) ∧
        TagHead.closesHere sigil.toChar d.closer.toList after = true :=
    fun t => matchesAt_freeEnd_iff
  rw [cutFree?_eq_splitAtFirst? hends place.ahead, find?_eq_seek?]
  exact map_seek?_go_eq_splitAtFirst?_go hahead place.before place.ahead []

end TagTemplate.Pattern
