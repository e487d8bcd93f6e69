import TagTemplate.Proofs.Argument.Grammar
import TagTemplate.Proofs.Pattern.Token

/-!
# Cutting agrees with classifying

Tokens are cut off by a pattern and classified by a grammar, and neither is made from the other. Yet
whatever the pattern cuts off is a token of the grammar, and the pattern takes every token whole
unless a character at which words stop is in it, outside a literal.
-/

namespace TagTemplate.ArgumentToken

open Text

/-! ## Outside literals -/

/-- The characters of a token outside its literal, which ends the token if there is one. -/
def plain (t : Text) : Text := t.takeWhile fun c => ! isQuote c

theorem plain_of_isQuoted {t : Text} (h : IsQuoted t) : plain t = [] := by
  obtain ⟨quote, inner, hquote, -, rfl⟩ := h
  simp [plain, hquote]

theorem plain_append_of_isBare {t : Text} (h : ∀ c ∈ t, isBare c = true) (u : Text) :
    plain (t ++ u) = t ++ plain u :=
  List.takeWhile_append_of_pos fun c hc => by rw [isQuote_eq_false_of_isBare (h c hc)]; rfl

theorem plain_of_isWord {t : Text} (h : isWord t = true) : plain t = t := by
  simpa [plain] using plain_append_of_isBare (isWord_iff_isBare.mp h).2 []

theorem plain_name {name : Text} (h : isWord name = true) (t : Text) :
    plain (name ++ '=' :: t) = name ++ '=' :: plain t :=
  plain_append_of_isBare (isWord_iff_isBare.mp h).2 _

/-! ## Tokens that are cut off whole -/

section Whole

variable {stop t : Text}

theorem SpellsValue.isQuoted_or_isWord {isNumeral : Text → Bool} {value : Value}
    (h : SpellsValue isNumeral t value) : IsQuoted t ∨ isWord t = true := by
  cases h with
  | quoted hquote hmem => exact .inl ⟨_, _, hquote, hmem, rfl⟩
  | number hword _ => exact .inr hword
  | path hword _ => exact .inr hword

theorem ne_equals_of_mem_plain (h : IsQuoted t ∨ isWord t = true) {c : Char} (hc : c ∈ plain t) :
    c ≠ '=' := by
  rcases h with hquoted | hword
  · rw [plain_of_isQuoted hquoted] at hc
    cases hc
  · rw [plain_of_isWord hword] at hc
    exact ne_equals_of_isBare ((isWord_iff_isBare.mp hword).2 c hc)

theorem cutValue?_whole_iff :
    cutValue? stop t = some (t, []) ↔
      (IsQuoted t ∨ isWord t = true) ∧ ∀ c ∈ plain t, c ∉ stop := by
  rw [cutValue?_eq_some_iff]
  constructor
  · rintro (hquoted | hword)
    · obtain ⟨quote, inner, hquote, hmem, ht, -⟩ := cutQuoted?_eq_some_iff.mp hquoted
      have hquoted : IsQuoted t := ⟨quote, inner, hquote, hmem, ht⟩
      exact ⟨.inl hquoted, by simp [plain_of_isQuoted hquoted]⟩
    · obtain ⟨-, hne, hin, -⟩ := cutWord?_eq_some_iff.mp hword
      have hword : isWord t = true :=
        isWord_iff_isBare.mpr ⟨hne, fun c hc => isBare_of_inWord (hin c hc)⟩
      refine ⟨.inr hword, fun c hc => ?_⟩
      rw [plain_of_isWord hword] at hc
      simpa [inWord, isBare_of_inWord (hin c hc)] using hin c hc
  · rintro ⟨hquoted | hword, havoid⟩
    · exact .inl (by simpa using cutQuoted?_of_isQuoted hquoted [])
    · rw [plain_of_isWord hword] at havoid
      have hrun : ∀ c ∈ ([] : Text), inWord stop c = true := List.forall_mem_nil _
      have hstop : StopsRun (inWord stop) [] := by simp [StopsRun]
      exact .inr (by simpa using cutWord?_of_isWord [] hword havoid hrun hstop)

theorem cut?_of_cutValue? (h : cutValue? stop t = some (t, [])) : cut? stop t = some (t, []) := by
  rcases cutValue?_eq_some_iff.mp h with hquoted | hword
  · exact cut?_eq_some_iff.mpr (.inl hquoted)
  · exact cut?_eq_some_iff.mpr (.inr (.inl ⟨hword, nofun⟩))

/-- An equals sign behind a name belongs to the token even where words stop at it. -/
theorem cut?_whole_iff :
    cut? stop t = some (t, []) ↔
      (∃ token, classify? t = some token) ∧ ∀ c ∈ plain t, c ∈ stop → c = '=' := by
  constructor
  · intro h
    refine ⟨Option.isSome_iff_exists.mp (isSome_classify?_of_cut? h), fun c hc hstop => ?_⟩
    have hvalue : ∀ {u : Text}, cutValue? stop u = some (u, []) → c ∉ plain u :=
      fun hcut hc => (cutValue?_whole_iff.mp hcut).2 c hc hstop
    rcases cut?_eq_some_iff.mp h with hquoted | ⟨hword, -⟩ | ⟨name, value, u, hword, hcut, ht⟩
    · exact absurd hc (hvalue (cutValue?_eq_some_iff.mpr (.inl hquoted)))
    · exact absurd hc (hvalue (cutValue?_eq_some_iff.mpr (.inr hword)))
    · obtain rfl : value = u := by simpa using cutValue?_append hcut
      obtain ⟨-, hne, hin, -⟩ := cutWord?_eq_some_iff.mp hword
      have hname : isWord name = true :=
        isWord_iff_isBare.mpr ⟨hne, fun c hc => isBare_of_inWord (hin c hc)⟩
      rw [ht, plain_name hname, List.mem_append, List.mem_cons] at hc
      rcases hc with hc | hc | hc
      · have := hin c hc
        simp [inWord, hstop] at this
      · exact hc
      · exact absurd hc (hvalue hcut)
  · rintro ⟨⟨token, htoken⟩, havoid⟩
    have hplain : ∀ {u : Text}, IsQuoted u ∨ isWord u = true → (∀ c ∈ plain u, c ∈ plain t) →
        cutValue? stop u = some (u, []) := fun hform hsub =>
      cutValue?_whole_iff.mpr ⟨hform, fun c hc hstop =>
        ne_equals_of_mem_plain hform hc (havoid c (hsub c hc) hstop)⟩
    cases classify?_eq_some_iff.mp htoken with
    | positional hspells =>
        exact cut?_of_cutValue? (hplain hspells.isQuoted_or_isWord fun _ => id)
    | named hname hspells =>
        rw [plain_name hname] at havoid hplain
        refine cut?_of_name hname (fun c hc hstop => ?_)
          (hplain hspells.isQuoted_or_isWord fun c hc => by simp [hc])
        exact ne_equals_of_isBare ((isWord_iff_isBare.mp hname).2 c hc)
          (havoid c (by simp [hc]) hstop)

end Whole

/-! ## The agreement -/

theorem exists_reader_of_cut? {stop t piece rest : Text} (h : cut? stop t = some (piece, rest)) :
    ∃ token, Spells piece token ∧ reader stop t = .ok ⟨token, piece, rest⟩ := by
  obtain rfl := cut?_append h
  obtain ⟨token, htoken, hreads⟩ := exists_reads_of_cut? h
  exact ⟨token, classify?_eq_some_iff.mp htoken, hreads rest rfl⟩

/-- The pattern of a token, the grammar of an argument and the readers say the same. A text is cut
off whole if and only if the grammar parses it and no character at which words stop is in it outside
its literal, save an equals sign. -/
theorem pattern_agrees_grammar (stop : Text) :
    (∀ t, cut? stop t = ((Pattern.token stop).match? (Place.start t)).map fun way =>
      (Pattern.Span.text ⟨Place.start t, way.stop⟩, way.stop.ahead)) ∧
    (∀ t, Grammar.argument t = (classify? t).map (·, [])) ∧
    (∀ t piece rest, cut? stop t = some (piece, rest) → piece ++ rest = t ∧
      ∃ token, Spells piece token ∧ reader stop t = .ok ⟨token, piece, rest⟩) ∧
    (∀ t token, classify? t = some token ↔ Spells t token) ∧
    (∀ t, cut? stop t = some (t, []) ↔
      (∃ token, classify? t = some token) ∧ ∀ c ∈ plain t, c ∈ stop → c = '=') :=
  ⟨Pattern.cut?_eq_map_match? stop, Grammar.argument_apply,
    fun _ _ _ h => ⟨cut?_append h, exists_reader_of_cut? h⟩,
    fun _ _ => classify?_eq_some_iff, fun _ => cut?_whole_iff⟩

/-- In a literal the close may stand, and the token is still cut off whole. -/
theorem cut?_literal_of_close :
    cut? "%>".toList "end='%>'".toList = some ("end='%>'".toList, []) := by
  have hplain : plain "end='%>'".toList = "end=".toList := rfl
  refine ((pattern_agrees_grammar _).2.2.2.2 _).mpr ⟨⟨named "end" (.quoted "%>"), by decide⟩, ?_⟩
  rw [hplain]
  simp

end TagTemplate.ArgumentToken
