import TagTemplate.Argument.Token
import TagTemplate.Proofs.Text.Cut

/-!
# How tokens are cut

A bare word is cut where its class of characters ends and a quoted literal at the next quote of
its kind. What follows a literal never matters. What follows a word matters only if it is an
equals sign, since then a value may belong to the token.
-/

namespace TagTemplate

namespace ArgumentToken

open Text

def inWord (stop : Text) (c : Char) : Bool := isBare c && ! stop.contains c

theorem isBare_of_inWord {stop : Text} {c : Char} (h : inWord stop c = true) : isBare c = true := by
  simp only [inWord, Bool.and_eq_true] at h
  exact h.1

theorem isQuote_eq_false_of_isBare {c : Char} (h : isBare c = true) : isQuote c = false := by
  simp only [isBare, Bool.and_eq_true, bne_iff_ne, ne_eq] at h
  simp [isQuote, h.1.1.2, h.1.2]

theorem ne_equals_of_isBare {c : Char} (h : isBare c = true) : c ≠ '=' := by
  simp only [isBare, Bool.and_eq_true, bne_iff_ne, ne_eq] at h
  exact h.2

theorem isSpace_eq_false_of_isBare {c : Char} (h : isBare c = true) : isSpace c = false := by
  simp only [isBare, Bool.and_eq_true, Bool.not_eq_true'] at h
  exact h.1.1.1

theorem isSpace_eq_false_of_isQuote {c : Char} (h : isQuote c = true) : isSpace c = false := by
  simp only [isQuote, Bool.or_eq_true, beq_iff_eq] at h
  rcases h with rfl | rfl
  · decide
  · decide

theorem cutWord?_eq_some_iff {stop t word rest : Text} :
    cutWord? stop t = some (word, rest) ↔ t = word ++ rest ∧ word ≠ [] ∧
      (∀ c ∈ word, inWord stop c = true) ∧ StopsRun (inWord stop) rest := by
  have hclass : (fun c => isBare c && ! stop.contains c) = inWord stop := rfl
  simp only [cutWord?, hclass]
  constructor
  · intro h
    split at h
    · cases h
    · rename_i hne
      simp only [Option.some.injEq, Prod.mk.injEq] at h
      obtain ⟨rfl, rfl⟩ := h
      exact ⟨List.takeWhile_append_dropWhile.symm, hne, fun _ => List.mem_takeWhile_imp,
        stopsRun_dropWhile _ t⟩
  · intro h
    rcases h with ⟨rfl, hne, hword, hrest⟩
    rw [takeWhile_append_stop hword hrest, dropWhile_append_stop hword hrest]
    cases word with
    | nil => exact absurd rfl hne
    | cons c word => rfl

/-- The inside of a literal ends at the next quote of its kind. -/
theorem span_literal {quote : Char} {inner : Text} (h : quote ∉ inner) (rest : Text) :
    (inner ++ quote :: rest).takeWhile (· != quote) = inner ∧
      (inner ++ quote :: rest).dropWhile (· != quote) = quote :: rest := by
  have hinner : ∀ c ∈ inner, (c != quote) = true := by
    intro c hc
    simp only [bne_iff_ne]
    rintro rfl
    exact h hc
  have hstop : StopsRun (· != quote) (quote :: rest) := stopsRun_cons (by simp)
  exact ⟨takeWhile_append_stop hinner hstop, dropWhile_append_stop hinner hstop⟩

theorem cutQuoted?_eq_some_iff {t piece rest : Text} :
    cutQuoted? t = some (piece, rest) ↔ ∃ quote inner, isQuote quote = true ∧ quote ∉ inner ∧
      piece = quote :: inner ++ [quote] ∧ t = piece ++ rest := by
  constructor
  · intro h
    have happ := cutQuoted?_append h
    cases t with
    | nil => cases h
    | cons quote t =>
        simp only [cutQuoted?] at h
        split at h
        · rename_i hq
          split at h
          · cases h
          · simp only [Option.some.injEq, Prod.mk.injEq] at h
            refine ⟨quote, t.takeWhile (· != quote), hq, ?_, h.1.symm, happ.symm⟩
            intro hmem
            have := List.mem_takeWhile_imp hmem
            simp at this
        · cases h
  · intro h
    rcases h with ⟨quote, inner, hq, hmem, rfl, rfl⟩
    obtain ⟨htake, hdrop⟩ := span_literal hmem rest
    have hsplit : inner ++ [quote] ++ rest = inner ++ quote :: rest := by simp
    simp only [cutQuoted?, List.cons_append, hsplit, htake, hdrop, hq, if_true]

theorem cutQuoted?_eq_none_of_isQuote {c : Char} {t : Text} (h : isQuote c = false) :
    cutQuoted? (c :: t) = none := by
  simp [cutQuoted?, h]

theorem cutQuoted?_eq_none_of_word {stop word rest : Text} (hne : word ≠ [])
    (hword : ∀ c ∈ word, inWord stop c = true) : cutQuoted? (word ++ rest) = none := by
  cases word with
  | nil => exact absurd rfl hne
  | cons c word =>
      exact cutQuoted?_eq_none_of_isQuote
        (isQuote_eq_false_of_isBare (isBare_of_inWord (hword c List.mem_cons_self)))

theorem cutValue?_eq_some_iff {stop t piece rest : Text} :
    cutValue? stop t = some (piece, rest) ↔
      cutQuoted? t = some (piece, rest) ∨ cutWord? stop t = some (piece, rest) := by
  unfold cutValue?
  cases hq : cutQuoted? t with
  | none => simp
  | some parts =>
      simp only [Option.some.injEq]
      constructor
      · exact .inl
      · intro h
        rcases h with h | h
        · exact h
        · obtain ⟨rfl, hne, hword, -⟩ := cutWord?_eq_some_iff.mp h
          rw [cutQuoted?_eq_none_of_word hne hword] at hq
          cases hq

theorem cutWord?_eq_none_iff {stop t : Text} :
    cutWord? stop t = none ↔ StopsRun (inWord stop) t := by
  have hclass : (fun c => isBare c && ! stop.contains c) = inWord stop := rfl
  simp only [cutWord?, hclass]
  cases t with
  | nil => exact ⟨fun _ c hc => (by cases hc), fun _ => rfl⟩
  | cons c t =>
      cases hc : inWord stop c with
      | false => simpa [hc] using stopsRun_cons hc
      | true =>
          have hruns : ¬ StopsRun (inWord stop) (c :: t) := by
            intro hstop
            rw [hstop c rfl] at hc
            cases hc
          simpa [hc] using hruns

theorem cutValue?_eq_none_iff {stop t : Text} :
    cutValue? stop t = none ↔ cutQuoted? t = none ∧ StopsRun (inWord stop) t := by
  rw [← cutWord?_eq_none_iff]
  unfold cutValue?
  cases cutQuoted? t with
  | none => simp
  | some parts => simp

/-- The three forms of a token: a literal, a word that no value follows, a name and a value. -/
theorem cut?_eq_some_iff {stop t piece rest : Text} :
    cut? stop t = some (piece, rest) ↔
      cutQuoted? t = some (piece, rest) ∨
      (cutWord? stop t = some (piece, rest) ∧
        ∀ u, rest = '=' :: u → cutValue? stop u = none) ∨
      (∃ name value u, cutWord? stop t = some (name, '=' :: u) ∧
        cutValue? stop u = some (value, rest) ∧ piece = name ++ '=' :: value) := by
  cases hw : cutWord? stop t with
  | none =>
      have hcut : cut? stop t = cutValue? stop t := by
        simp [cut?, hw]
      rw [hcut, cutValue?_eq_some_iff]
      simp [hw]
  | some parts =>
      obtain ⟨word, after⟩ := parts
      have hq : cutQuoted? t = none := by
        obtain ⟨rfl, hne, hword, -⟩ := cutWord?_eq_some_iff.mp hw
        exact cutQuoted?_eq_none_of_word hne hword
      by_cases heq : ∃ u, after = '=' :: u
      · obtain ⟨u, rfl⟩ := heq
        cases hv : cutValue? stop u with
        | none =>
            have hcut : cut? stop t = some (word, '=' :: u) := by
              simp [cut?, hw, hv]
            rw [hcut, hq]
            grind
        | some parts =>
            have hcut : cut? stop t = some (word ++ '=' :: parts.1, parts.2) := by
              simp [cut?, hw, hv]
            rw [hcut, hq]
            grind
      · have hcut : cut? stop t = cutValue? stop t := by
          unfold cut?
          split
          · rename_i name t' h
            rw [hw] at h
            simp only [Option.some.injEq, Prod.mk.injEq] at h
            exact absurd ⟨t', h.2⟩ heq
          · rfl
        rw [hcut, cutValue?_eq_some_iff, hw, hq]
        grind

/-! ## Classifying -/

def valueOf? (isNumeral : Text → Bool) (t : Text) : Option Value :=
  match unquoted? t with
  | some inner => some (.quoted (String.ofList inner))
  | none =>
      if ! isWord t then none
      else if isNumeral t then some (.number (String.ofList t))
      else some (.path (.ofText t))

theorem positionalValue?_eq (t : Text) : positionalValue? t = valueOf? (·.all isNumeric) t := rfl

theorem namedValue?_eq (t : Text) : namedValue? t = valueOf? (·.getLast?.any isNumeric) t := rfl

theorem unquoted?_quote {quote : Char} {inner : Text} (hq : isQuote quote = true)
    (hmem : quote ∉ inner) : unquoted? (quote :: inner ++ [quote]) = some inner := by
  obtain ⟨htake, hdrop⟩ := span_literal hmem []
  simp [unquoted?, hq, htake, hdrop]

theorem isSome_valueOf?_of_cutValue? {stop t piece rest : Text}
    (h : cutValue? stop t = some (piece, rest)) (isNumeral : Text → Bool) :
    (valueOf? isNumeral piece).isSome = true := by
  rcases cutValue?_eq_some_iff.mp h with hq | hw
  · obtain ⟨quote, inner, hquote, hmem, rfl, -⟩ := cutQuoted?_eq_some_iff.mp hq
    rw [valueOf?, unquoted?_quote hquote hmem]
    rfl
  · obtain ⟨-, hne, hword, -⟩ := cutWord?_eq_some_iff.mp hw
    have hall : piece.all isBare = true :=
      List.all_eq_true.mpr fun c hc => isBare_of_inWord (hword c hc)
    have hisWord : isWord piece = true := by simp [isWord, hall, hne]
    unfold valueOf?
    split
    · rfl
    · rw [hisWord]
      cases isNumeral piece with
      | false => rfl
      | true => rfl

/-- Every token spells an argument. -/
theorem isSome_classify?_of_cut? {stop t piece rest : Text}
    (h : cut? stop t = some (piece, rest)) : (classify? piece).isSome = true := by
  rcases cut?_eq_some_iff.mp h with hq | ⟨hw, -⟩ | ⟨name, value, u, hw, hv, rfl⟩
  · have hcut : cutValue? stop t = some (piece, rest) := cutValue?_eq_some_iff.mpr (.inl hq)
    have hvalue := isSome_valueOf?_of_cutValue? hcut (·.all isNumeric)
    obtain ⟨quote, inner, hquote, -, rfl, -⟩ := cutQuoted?_eq_some_iff.mp hq
    have hbare : isBare quote = false := by
      cases hb : isBare quote with
      | false => rfl
      | true => rw [isQuote_eq_false_of_isBare hb] at hquote; cases hquote
    have htake : (quote :: inner ++ [quote]).takeWhile isBare = [] := by simp [hbare]
    unfold classify?
    rw [htake]
    rw [← positionalValue?_eq] at hvalue
    simpa using hvalue
  · have hcut : cutValue? stop t = some (piece, rest) := cutValue?_eq_some_iff.mpr (.inr hw)
    have hvalue := isSome_valueOf?_of_cutValue? hcut (·.all isNumeric)
    obtain ⟨-, -, hword, -⟩ := cutWord?_eq_some_iff.mp hw
    have hdrop : piece.dropWhile isBare = [] := by
      have hbare : ∀ c ∈ piece, isBare c = true := fun c hc => isBare_of_inWord (hword c hc)
      simpa using dropWhile_append_stop hbare (nofun : StopsRun isBare [])
    unfold classify?
    rw [hdrop]
    rw [← positionalValue?_eq] at hvalue
    simpa using hvalue
  · have hvalue := isSome_valueOf?_of_cutValue? hv (·.getLast?.any isNumeric)
    obtain ⟨-, hne, hword, -⟩ := cutWord?_eq_some_iff.mp hw
    have hbare : ∀ c ∈ name, isBare c = true := fun c hc => isBare_of_inWord (hword c hc)
    have hstop : StopsRun isBare ('=' :: value) := stopsRun_cons (by decide)
    obtain ⟨c, word, rfl⟩ := List.exists_cons_of_ne_nil hne
    unfold classify?
    rw [takeWhile_append_stop hbare hstop, dropWhile_append_stop hbare hstop]
    rw [← namedValue?_eq] at hvalue
    simpa using hvalue

/-! ## Arguments from tokens -/

def positional? : ArgumentToken → Option Argument
  | positional value => some (.positional value)
  | named _ _ => none

def entry? : ArgumentToken → Option (String × Value)
  | positional _ => none
  | named name value => some (name, value)

end ArgumentToken

open ArgumentToken

/-- Arguments are the positional tokens and behind them one argument for all the named ones. -/
theorem Argument.ofTokens_eq (tokens : List ArgumentToken) :
    ofTokens tokens = tokens.filterMap positional? ++
      if tokens.filterMap entry? = [] then [] else [.named ⟨tokens.filterMap entry?⟩] := by
  by_cases hnone : tokens.filterMap entry? = []
  · rw [if_pos hnone, List.append_nil, ofTokens]
    split
    case h_1 => rfl
    case h_2 hsome => exact absurd hnone hsome
  · rw [if_neg hnone, ofTokens]
    split
    case h_1 hnil => exact absurd hnil hnone
    case h_2 => rfl

end TagTemplate
