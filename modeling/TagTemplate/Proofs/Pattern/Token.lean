import TagTemplate.Proofs.Argument.Token
import TagTemplate.Proofs.Pattern.Match

/-!
# What the pattern of a token matches

The pattern of a token may be matched in many ways, since a class is repeated as often as possible
first and less often after that. The preferred way takes the token that is cut off, and where no
token is cut off there is no way at all.
-/

namespace TagTemplate.Pattern

open Text ArgumentToken

/-! ## Classes -/

theorem ways_someOf (p : Char → Bool) (before : Option Char) (t : Text) :
    (someOf p).ways ⟨before, t⟩ =
      (placesIn before (t.takeWhile p).reverse (t.dropWhile p)).dropLast.map (⟨·, []⟩) := by
  rw [ways, repeats_eq_placesIn]

theorem ways_someOf_eq_nil {p : Char → Bool} {t : Text} (h : t.takeWhile p = [])
    (before : Option Char) : (someOf p).ways ⟨before, t⟩ = [] := by
  rw [ways_someOf, h]
  rfl

theorem ways_someOf_eq_cons {p : Char → Bool} {t : Text} (h : t.takeWhile p ≠ [])
    (before : Option Char) : ∃ way more, (someOf p).ways ⟨before, t⟩ = way :: more ∧
      way.stop.ahead = t.dropWhile p := by
  obtain ⟨c, run, hrun⟩ := List.exists_cons_of_ne_nil (mt List.reverse_eq_nil_iff.mp h)
  rw [ways_someOf, hrun, dropLast_placesIn_cons]
  exact ⟨_, _, rfl, rfl⟩

/-! ## A class and a character after it -/

/-- After a pattern without groups the next one goes on at each place that it leaves. -/
theorem ways_seq_of_places {q r : Pattern} {place : Place} {places : List Place}
    (h : q.ways place = places.map (⟨·, []⟩)) :
    (seq q r).ways place = places.flatMap r.ways := by
  rw [ways, h, List.flatMap_map]
  simp

theorem ways_char_cons (p : Char → Bool) (before : Option Char) (c : Char) (t : Text) :
    (char p).ways ⟨before, c :: t⟩ = if p c then [⟨⟨some c, t⟩, []⟩] else [] := rfl

/-- At the places that are reached with less of a run stands one of its characters. -/
theorem ways_char_of_mem_placesIn {p : Char → Bool} {before : Option Char} {c : Char} {run t : Text}
    (hc : p c = false) (hrun : ∀ d ∈ run, p d = false) {place : Place}
    (h : place ∈ placesIn before run (c :: t)) : (char p).ways place = [] := by
  have hhere : ∀ (b : Option Char), (char p).ways ⟨b, c :: t⟩ = [] := by
    intro b
    rw [ways_char_cons, hc]
    rfl
  induction run generalizing c t with
  | nil =>
      rw [placesIn, List.mem_singleton] at h
      rw [h, hhere]
  | cons d run ih =>
      obtain ⟨hd, hrun'⟩ := List.forall_mem_cons.mp hrun
      rw [placesIn, List.mem_cons] at h
      rcases h with rfl | h
      · exact hhere _
      · refine ih hd hrun' h fun b => ?_
        rw [ways_char_cons, hd]
        rfl

section Disjoint

variable {p q : Char → Bool} {before : Option Char} {t : Text}

/-- A character outside a class can follow only the whole run of the class. -/
theorem ways_many_char (hpq : ∀ c, p c = true → q c = false) :
    (seq (many p) (char q)).ways ⟨before, t⟩ = (char q).ways ⟨none, t.dropWhile p⟩ := by
  have hrun : ∀ c ∈ (t.takeWhile p).reverse, q c = false :=
    fun c hc => hpq c (List.mem_takeWhile_imp (List.mem_reverse.mp hc))
  rw [ways_seq_of_places (ways_many p before t)]
  cases hr : (t.takeWhile p).reverse with
  | nil => simp only [placesIn, List.flatMap_singleton]; rfl
  | cons c run =>
      rw [hr] at hrun
      obtain ⟨hc, hrun⟩ := List.forall_mem_cons.mp hrun
      rw [placesIn, List.flatMap_cons, List.flatMap_eq_nil_iff.mpr, List.append_nil]
      · rfl
      · exact fun place hplace => ways_char_of_mem_placesIn hc hrun hplace

theorem ways_someOf_char (hpq : ∀ c, p c = true → q c = false) (hne : t.takeWhile p ≠ []) :
    (seq (someOf p) (char q)).ways ⟨before, t⟩ = (char q).ways ⟨none, t.dropWhile p⟩ := by
  have hrun : ∀ c ∈ (t.takeWhile p).reverse, q c = false :=
    fun c hc => hpq c (List.mem_takeWhile_imp (List.mem_reverse.mp hc))
  obtain ⟨c, run, hr⟩ := List.exists_cons_of_ne_nil (mt List.reverse_eq_nil_iff.mp hne)
  rw [hr] at hrun
  obtain ⟨hc, hrun⟩ := List.forall_mem_cons.mp hrun
  rw [ways_seq_of_places (ways_someOf p before t), hr, dropLast_placesIn_cons, List.flatMap_cons,
    List.flatMap_eq_nil_iff.mpr, List.append_nil]
  · rfl
  · exact fun place hplace =>
      ways_char_of_mem_placesIn hc hrun (List.dropLast_subset _ hplace)

end Disjoint

/-! ## Values -/

section Value

variable {stop t piece rest : Text}

theorem ways_literalIn_of_ne {quote : Char} (h : t.head? ≠ some quote) (before : Option Char) :
    (literalIn quote).ways ⟨before, t⟩ = [] := by
  cases t with
  | nil => rfl
  | cons c t =>
      have hc : (c == quote) = false := by simpa using h
      rw [literalIn, ways, ways_char_cons, hc]
      rfl

/-- Behind its quote a literal ends at the next one. -/
theorem ways_literalIn_cons (quote : Char) (before : Option Char) (t : Text) :
    (literalIn quote).ways ⟨before, quote :: t⟩ =
      (char (· == quote)).ways ⟨none, t.dropWhile (· != quote)⟩ := by
  have hways : (char (· == quote)).ways ⟨before, quote :: t⟩ =
      [(⟨some quote, t⟩ : Place)].map (⟨·, []⟩) := by
    rw [ways_char_cons, if_pos (beq_self_eq_true quote)]
    rfl
  rw [literalIn, ways_seq_of_places hways, List.flatMap_singleton]
  exact ways_many_char (by simp)

theorem ways_value (stop : Text) (place : Place) : (value stop).ways place =
    (literalIn '"').ways place ++ ((literalIn '\'').ways place ++ (word stop).ways place) := rfl

theorem word_eq (stop : Text) : word stop = someOf (inWord stop) := rfl

theorem ways_literalIn_of_isBare {c quote : Char} (hc : isBare c = true)
    (hquote : isQuote quote = true) (before : Option Char) (t : Text) :
    (literalIn quote).ways ⟨before, c :: t⟩ = [] := by
  refine ways_literalIn_of_ne ?_ before
  intro heq
  cases heq
  rw [isQuote_eq_false_of_isBare hc] at hquote
  cases hquote

theorem ways_value_of_isQuote {quote : Char} (hquote : isQuote quote = true)
    (before : Option Char) (t : Text) : (value stop).ways ⟨before, quote :: t⟩ =
      (char (· == quote)).ways ⟨none, t.dropWhile (· != quote)⟩ := by
  have hbare : inWord stop quote = false := by
    cases hin : inWord stop quote with
    | false => rfl
    | true =>
        rw [isQuote_eq_false_of_isBare (isBare_of_inWord hin)] at hquote
        cases hquote
  have hword : (word stop).ways ⟨before, quote :: t⟩ = [] :=
    ways_someOf_eq_nil (List.takeWhile_cons_of_neg (by simpa [inWord] using hbare)) before
  simp only [isQuote, Bool.or_eq_true, beq_iff_eq] at hquote
  rw [ways_value, hword, List.append_nil]
  rcases hquote with rfl | rfl
  · rw [ways_literalIn_cons, ways_literalIn_of_ne (by simp), List.append_nil]
  · rw [ways_literalIn_cons, ways_literalIn_of_ne (by simp), List.nil_append]

theorem ways_value_of_isBare {c : Char} (hc : isBare c = true) (before : Option Char) (t : Text) :
    (value stop).ways ⟨before, c :: t⟩ = (word stop).ways ⟨before, c :: t⟩ := by
  rw [ways_value, ways_literalIn_of_isBare hc rfl, ways_literalIn_of_isBare hc rfl]
  rfl

theorem ways_value_of_cutValue? (h : cutValue? stop t = some (piece, rest))
    (before : Option Char) : ∃ way more, (value stop).ways ⟨before, t⟩ = way :: more ∧
      way.stop.ahead = rest := by
  rcases cutValue?_eq_some_iff.mp h with hquoted | hword
  · obtain ⟨quote, inner, hquote, hmem, rfl, rfl⟩ := cutQuoted?_eq_some_iff.mp hquoted
    refine ⟨⟨⟨some quote, rest⟩, []⟩, [], ?_, rfl⟩
    rw [List.cons_append, List.cons_append, List.append_assoc, List.singleton_append,
      ways_value_of_isQuote hquote, (span_literal hmem rest).2, ways_char_cons,
      if_pos (beq_self_eq_true quote)]
  · obtain ⟨rfl, hne, hin, hstop⟩ := cutWord?_eq_some_iff.mp hword
    have htake := takeWhile_append_stop hin hstop
    have hdrop := dropWhile_append_stop hin hstop
    obtain ⟨c, word, rfl⟩ := List.exists_cons_of_ne_nil hne
    obtain ⟨way, more, hways, hahead⟩ :=
      ways_someOf_eq_cons (p := inWord stop) (by rw [htake]; exact hne) before
    rw [hdrop] at hahead
    rw [List.cons_append,
      ways_value_of_isBare (isBare_of_inWord (hin c List.mem_cons_self))]
    exact ⟨way, more, hways, hahead⟩

theorem ways_value_eq_nil (h : cutValue? stop t = none) (before : Option Char) :
    (value stop).ways ⟨before, t⟩ = [] := by
  obtain ⟨hquoted, hword⟩ := cutValue?_eq_none_iff.mp h
  cases t with
  | nil => rfl
  | cons c t =>
      have htake : (c :: t).takeWhile (inWord stop) = [] :=
        List.takeWhile_cons_of_neg (by simp [hword c rfl])
      by_cases hc : isQuote c = true
      · have hdrop : t.dropWhile (· != c) = [] := by
          rw [cutQuoted?, if_pos hc] at hquoted
          split at hquoted
          · assumption
          · cases hquoted
        rw [ways_value_of_isQuote hc, hdrop]
        rfl
      · have hne : ∀ quote, isQuote quote = true → (c :: t).head? ≠ some quote := by
          intro quote hquote heq
          cases heq
          exact hc hquote
        rw [ways_value, ways_literalIn_of_ne (hne _ rfl), ways_literalIn_of_ne (hne _ rfl)]
        exact ways_someOf_eq_nil htake before

end Value

/-! ## Tokens -/

section Token

variable {stop t piece rest : Text}

theorem ways_name (stop t : Text) :
    (seq (word stop) (char (· == '='))).ways (Place.start t) =
      match cutWord? stop t with
      | some (_, '=' :: u) => [⟨⟨some '=', u⟩, []⟩]
      | _ => [] := by
  have hequals : ∀ c, inWord stop c = true → (c == '=') = false := by
    intro c hc
    simpa using ne_equals_of_isBare (isBare_of_inWord hc)
  cases hcut : cutWord? stop t with
  | none =>
      have hstop := cutWord?_eq_none_iff.mp hcut
      have htake : t.takeWhile (inWord stop) = [] := by
        have hnil : ∀ c ∈ ([] : Text), inWord stop c = true := nofun
        simpa using takeWhile_append_stop hnil hstop
      rw [ways, Place.start, word_eq, ways_someOf_eq_nil htake]
      rfl
  | some parts =>
      obtain ⟨word, rest⟩ := parts
      obtain ⟨rfl, hne, hin, hstop⟩ := cutWord?_eq_some_iff.mp hcut
      have htake := takeWhile_append_stop hin hstop
      have hdrop := dropWhile_append_stop hin hstop
      have hways : (seq (someOf (inWord stop)) (char (· == '='))).ways ⟨none, word ++ rest⟩ = _ :=
        ways_someOf_char hequals (by rw [htake]; exact hne)
      rw [hdrop] at hways
      refine hways.trans ?_
      cases rest with
      | nil => rfl
      | cons c u =>
          rw [ways_char_cons]
          by_cases hc : c = '='
          · subst hc
            rfl
          · simp [hc]

theorem head?_ways_value (stop : Text) (before : Option Char) (t : Text) :
    ((value stop).ways ⟨before, t⟩).head?.map (·.stop.ahead) =
      (cutValue? stop t).map Prod.snd := by
  cases hcut : cutValue? stop t with
  | none => rw [ways_value_eq_nil hcut, List.head?_nil, Option.map_none, Option.map_none]
  | some parts =>
      obtain ⟨way, more, hways, hahead⟩ := ways_value_of_cutValue? hcut before
      rw [hways, List.head?_cons, Option.map_some, hahead, Option.map_some]

def namedRest? (stop t : Text) : Option Text :=
  match cutWord? stop t with
  | some (_, '=' :: u) => (cutValue? stop u).map Prod.snd
  | _ => none

theorem head?_ways_token (stop t : Text) :
    ((token stop).ways (Place.start t)).head?.map (·.stop.ahead) =
      (namedRest? stop t).or ((cutValue? stop t).map Prod.snd) := by
  rw [token, ways_seq_textStart, ways, ways, List.flatMap_append, List.head?_append, Option.map_or,
    ways_name, namedRest?]
  congr 1
  · split
    · rw [List.flatMap_singleton, List.head?_map, Option.map_map]
      exact head?_ways_value stop _ _
    · rfl
  · rw [List.flatMap_singleton, List.head?_map, Option.map_map]
    exact head?_ways_value stop _ _

/-- A token is cut off with its name, or else as a value. -/
theorem map_cut? (stop t : Text) :
    (cut? stop t).map Prod.snd = (namedRest? stop t).or ((cutValue? stop t).map Prod.snd) := by
  unfold cut?
  split
  · rename_i name u hword
    have hvalue : cutValue? stop t = some (name, '=' :: u) :=
      cutValue?_eq_some_iff.mpr (.inr hword)
    have hnamed : namedRest? stop t = (cutValue? stop u).map Prod.snd := by
      simp only [namedRest?, hword]
    rw [hnamed, hvalue]
    cases cutValue? stop u with
    | none => rfl
    | some parts => rfl
  · rename_i hno
    have hnamed : namedRest? stop t = none := by
      unfold namedRest?
      split
      · rename_i name u hword
        exact absurd hword (hno name u)
      · rfl
    rw [hnamed, Option.none_or]

/-- A token is cut off as its pattern matches it. -/
theorem cut?_eq_map_match? (stop t : Text) :
    cut? stop t = ((token stop).match? (Place.start t)).map fun way =>
      (Span.text ⟨Place.start t, way.stop⟩, way.stop.ahead) := by
  have hmap := (head?_ways_token stop t).trans (map_cut? stop t).symm
  rw [← match?] at hmap
  cases hmatch : (token stop).match? (Place.start t) with
  | none =>
      rw [hmatch, Option.map_none] at hmap
      exact Option.map_eq_none_iff.mp hmap.symm
  | some way =>
      rw [hmatch, Option.map_some] at hmap
      obtain ⟨⟨piece, rest⟩, hcut, hrest⟩ := Option.map_eq_some_iff.mp hmap.symm
      have htext := @Span.text_append ⟨Place.start t, way.stop⟩ (reaches_of_match? hmatch)
      have happ := cut?_append hcut
      rw [← hrest] at htext
      rw [hcut, Option.map_some, ← hrest, List.append_cancel_right (htext.trans happ.symm)]

end Token

end TagTemplate.Pattern
