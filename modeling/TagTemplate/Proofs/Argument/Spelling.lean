import TagTemplate.Proofs.Argument.Written

/-!
# What a token spells

A token is classified by its form. A literal stands for what is between its quotes, and a word for a
number or a path. By position a number is made of digits and dots alone, by name it only has to end
in one of them.
-/

namespace TagTemplate.ArgumentToken

open Text

/-- The text of a value and the value, where a word is a numeral if `isNumeral` holds of it. -/
inductive SpellsValue (isNumeral : Text → Bool) : Text → Value → Prop where
  | quoted {quote : Char} {inner : Text} : isQuote quote = true → quote ∉ inner →
      SpellsValue isNumeral (quote :: inner ++ [quote]) (.quoted (String.ofList inner))
  | number {word : Text} : isWord word = true → isNumeral word = true →
      SpellsValue isNumeral word (.number (String.ofList word))
  | path {word : Text} : isWord word = true → isNumeral word = false →
      SpellsValue isNumeral word (.path ⟨(List.splitOn '.' word).map String.ofList⟩)

/-- The text of a token and the argument that it stands for. -/
inductive Spells : Text → ArgumentToken → Prop where
  | positional {t : Text} {value : Value} : SpellsValue (·.all isNumeric) t value →
      Spells t (.positional value)
  /-- A word holds no equals sign, so the name ends in front of the first one. -/
  | named {name t : Text} {value : Value} : isWord name = true →
      SpellsValue (·.getLast?.any isNumeric) t value →
      Spells (name ++ '=' :: t) (.named (String.ofList name) value)

/-! ## Values -/

theorem unquoted?_eq_some_iff {t inner : Text} :
    unquoted? t = some inner ↔
      ∃ quote, isQuote quote = true ∧ quote ∉ inner ∧ t = quote :: inner ++ [quote] := by
  constructor
  · intro h
    cases t with
    | nil => cases h
    | cons quote t =>
        rw [unquoted?] at h
        split at h
        · rename_i hquote
          simp only [Bool.and_eq_true, beq_iff_eq] at hquote
          cases h
          have happ := List.takeWhile_append_dropWhile (p := (· != quote)) (l := t)
          rw [hquote.2] at happ
          refine ⟨quote, hquote.1, fun hmem => ?_, by rw [List.cons_append, happ]⟩
          simpa using List.mem_takeWhile_imp hmem
        · cases h
  · rintro ⟨quote, hquote, hmem, rfl⟩
    exact unquoted?_quote hquote hmem

theorem unquoted?_of_isWord {t : Text} (h : isWord t = true) : unquoted? t = none := by
  obtain ⟨hne, hbare⟩ := isWord_iff_isBare.mp h
  obtain ⟨c, t, rfl⟩ := List.exists_cons_of_ne_nil hne
  simp [unquoted?, isQuote_eq_false_of_isBare (hbare c List.mem_cons_self)]

theorem valueOf?_eq_some_iff {isNumeral : Text → Bool} {t : Text} {value : Value} :
    valueOf? isNumeral t = some value ↔ SpellsValue isNumeral t value := by
  constructor
  · intro h
    rw [valueOf?] at h
    split at h
    · rename_i inner hinner
      cases h
      obtain ⟨quote, hquote, hmem, rfl⟩ := unquoted?_eq_some_iff.mp hinner
      exact .quoted hquote hmem
    · cases hword : isWord t with
      | false => simp [hword] at h
      | true =>
          cases hnum : isNumeral t with
          | false =>
              simp only [hword, hnum] at h
              cases h
              exact .path hword hnum
          | true =>
              simp only [hword, hnum] at h
              cases h
              exact .number hword hnum
  · intro h
    cases h with
    | quoted hquote hmem => rw [valueOf?, unquoted?_quote hquote hmem]
    | number hword hnum => simp [valueOf?, unquoted?_of_isWord hword, hword, hnum]
    | path hword hnum => simp [valueOf?, unquoted?_of_isWord hword, hword, hnum, Path.ofText]

/-! ## Tokens -/

/-- A text that starts with a name and an equals sign. -/
def IsNamed (t : Text) : Prop := ∃ name rest, isWord name = true ∧ t = name ++ '=' :: rest

theorem takeWhile_name {name : Text} (h : isWord name = true) (rest : Text) :
    (name ++ '=' :: rest).takeWhile isBare = name :=
  takeWhile_append_stop (isWord_iff_isBare.mp h).2 (stopsRun_cons (by decide))

theorem dropWhile_name {name : Text} (h : isWord name = true) (rest : Text) :
    (name ++ '=' :: rest).dropWhile isBare = '=' :: rest :=
  dropWhile_append_stop (isWord_iff_isBare.mp h).2 (stopsRun_cons (by decide))

theorem isNamed_iff {t : Text} :
    IsNamed t ↔ t.takeWhile isBare ≠ [] ∧ ∃ rest, t.dropWhile isBare = '=' :: rest := by
  constructor
  · rintro ⟨name, rest, hname, rfl⟩
    rw [takeWhile_name hname, dropWhile_name hname]
    exact ⟨(isWord_iff_isBare.mp hname).1, rest, rfl⟩
  · rintro ⟨hne, rest, hrest⟩
    refine ⟨t.takeWhile isBare, rest, ?_, ?_⟩
    · exact isWord_iff_isBare.mpr ⟨hne, fun _ => List.mem_takeWhile_imp⟩
    · rw [← hrest, List.takeWhile_append_dropWhile]

theorem classify?_of_name {name : Text} (h : isWord name = true) (rest : Text) :
    classify? (name ++ '=' :: rest) = (namedValue? rest).map (named (String.ofList name)) := by
  obtain ⟨c, word, rfl⟩ := List.exists_cons_of_ne_nil (isWord_iff_isBare.mp h).1
  unfold classify?
  rw [takeWhile_name h, dropWhile_name h]
  rfl

theorem classify?_of_not_isNamed {t : Text} (h : ¬ IsNamed t) :
    classify? t = (positionalValue? t).map positional := by
  rw [classify?]
  split
  · rename_i c word value hword hvalue
    exact absurd (isNamed_iff.mpr ⟨by simp [hword], value, hvalue⟩) h
  · rfl

/-- A value has no name, since no literal starts as a word does and no word holds an equals sign. -/
theorem not_isNamed_of_positionalValue? {t : Text} {value : Value}
    (h : positionalValue? t = some value) : ¬ IsNamed t := by
  rintro ⟨name, rest, hname, rfl⟩
  obtain ⟨hne, hbare⟩ := isWord_iff_isBare.mp hname
  obtain ⟨c, word, rfl⟩ := List.exists_cons_of_ne_nil hne
  have hequals : isBare '=' = false := by decide
  have hword : isWord (c :: word ++ '=' :: rest) = false := by simp [isWord, hequals]
  have hunquoted : unquoted? (c :: word ++ '=' :: rest) = none := by
    simp [unquoted?, isQuote_eq_false_of_isBare (hbare c List.mem_cons_self)]
  rw [positionalValue?, hunquoted, hword] at h
  cases h

theorem classify?_eq_some_iff {t : Text} {token : ArgumentToken} :
    classify? t = some token ↔ Spells t token := by
  constructor
  · intro h
    by_cases hnamed : IsNamed t
    · obtain ⟨name, rest, hname, rfl⟩ := hnamed
      rw [classify?_of_name hname] at h
      obtain ⟨value, hvalue, rfl⟩ := Option.map_eq_some_iff.mp h
      exact .named hname (valueOf?_eq_some_iff.mp hvalue)
    · rw [classify?_of_not_isNamed hnamed] at h
      obtain ⟨value, hvalue, rfl⟩ := Option.map_eq_some_iff.mp h
      exact .positional (valueOf?_eq_some_iff.mp hvalue)
  · intro h
    cases h with
    | positional hspells =>
        have hvalue := valueOf?_eq_some_iff.mpr hspells
        rw [← positionalValue?_eq] at hvalue
        rw [classify?_of_not_isNamed (not_isNamed_of_positionalValue? hvalue), hvalue]
        rfl
    | named hname hspells =>
        have hvalue := valueOf?_eq_some_iff.mpr hspells
        rw [← namedValue?_eq] at hvalue
        rw [classify?_of_name hname, hvalue]
        rfl

end TagTemplate.ArgumentToken
