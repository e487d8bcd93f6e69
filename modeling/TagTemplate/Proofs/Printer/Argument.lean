import TagTemplate.Proofs.Argument.Spelling
import TagTemplate.Proofs.Text.Place

/-!
# Printing arguments

A value is printed so that it can be read back: a literal in quotes of a kind that it does not
hold, a numeral or a path as a bare word. Values by name follow the values by position. The lemmas
read back first one token, then a list of tokens up to the closing marker.
-/

namespace TagTemplate

open Text

/-! ## Printing -/

/-- The quote for a literal: a double quote, unless the literal holds one. -/
def quoteFor (t : Text) : Char := if '"' ∈ t then '\'' else '"'

def Value.print : Value → Text
  | quoted text => quoteFor text.toList :: text.toList ++ [quoteFor text.toList]
  | number numeral => numeral.toList
  | path p => p.dotted.toList

def ArgumentToken.print : ArgumentToken → Text
  | positional value => value.print
  | named name value => name.toList ++ '=' :: value.print

def Argument.tokens : Argument → List ArgumentToken
  | positional value => [.positional value]
  | named args => args.entries.map fun entry => .named entry.1 entry.2

def ArgumentToken.printAll (close : Text) : List ArgumentToken → Text
  | [] => ' ' :: close
  | token :: tokens => ' ' :: token.print ++ printAll close tokens

/-! ## What can be read back -/

/-- The text is a bare word in a tag that closes with `stop`. -/
def IsWord (stop t : Text) : Prop := t ≠ [] ∧ ∀ c ∈ t, ArgumentToken.inWord stop c = true

theorem isWord_iff {stop t : Text} :
    (! t.isEmpty && t.all (ArgumentToken.inWord stop)) = true ↔ IsWord stop t := by
  simp [IsWord]

instance (stop t : Text) : Decidable (IsWord stop t) := decidable_of_decidable_of_iff isWord_iff

/-- The value is read back as what it is: a literal lacks one kind of quote, and a word is a numeral
if and only if the value is a number. -/
def Value.Spelled (stop : Text) (isNumeral : Text → Bool) : Value → Prop
  | quoted text => '"' ∉ text.toList ∨ '\'' ∉ text.toList
  | number numeral => IsWord stop numeral.toList ∧ isNumeral numeral.toList = true
  | path p => IsWord stop p.dotted.toList ∧ isNumeral p.dotted.toList = false ∧
      Path.ofString p.dotted = p

instance (stop : Text) (isNumeral : Text → Bool) : (value : Value) →
    Decidable (value.Spelled stop isNumeral)
  | .quoted _ => inferInstanceAs (Decidable (_ ∨ _))
  | .number _ => inferInstanceAs (Decidable (_ ∧ _))
  | .path _ => inferInstanceAs (Decidable (_ ∧ _ ∧ _))

/-- By position a numeral is a word of digits and dots, by name a word that ends in one. -/
def ArgumentToken.Spelled (stop : Text) : ArgumentToken → Prop
  | positional value => value.Spelled stop (·.all isNumeric)
  | named name value => IsWord stop name.toList ∧ value.Spelled stop (·.getLast?.any isNumeric)

instance (stop : Text) : (token : ArgumentToken) → Decidable (token.Spelled stop)
  | .positional value =>
      inferInstanceAs (Decidable (value.Spelled stop (·.all ArgumentToken.isNumeric)))
  | .named _ _ => inferInstanceAs (Decidable (_ ∧ _))

/-- Values by position come first, and values by name all together after them. -/
def Argument.InOrder (args : List Argument) : Prop :=
  ∃ values : List Value, args = values.map .positional ∨
    ∃ entries, entries ≠ [] ∧ args = values.map .positional ++ [.named ⟨entries⟩]

theorem Argument.ofTokens_flatMap_tokens {args : List Argument} (h : InOrder args) :
    ofTokens (args.flatMap tokens) = args := by
  have hvalues : ∀ values : List Value, (values.map positional).flatMap tokens =
      values.map ArgumentToken.positional := by
    intro values
    induction values with
    | nil => rfl
    | cons value values ih => simpa [tokens] using ih
  have hnone : ∀ {α β : Type} (l : List α), l.filterMap (fun _ => (none : Option β)) = [] := by
    intro α β l
    exact List.filterMap_eq_nil_iff.mpr fun _ _ => rfl
  obtain ⟨values, rfl | ⟨entries, hne, rfl⟩⟩ := h
  · rw [hvalues]
    simp only [ofTokens, List.filterMap_map, Function.comp_def]
    simp [hnone]
  · rw [List.flatMap_append, hvalues]
    cases entries with
    | nil => exact absurd rfl hne
    | cons entry entries =>
        simp only [ofTokens, List.flatMap_singleton, tokens, List.filterMap_append,
          List.filterMap_map, Function.comp_def]
        simp [hnone]

/-! ## Values -/

theorem quoteFor_spec {t : Text} (h : '"' ∉ t ∨ '\'' ∉ t) :
    ArgumentToken.isQuote (quoteFor t) = true ∧ quoteFor t ∉ t := by
  unfold quoteFor
  by_cases hd : '"' ∈ t
  · rw [if_pos hd]
    exact ⟨rfl, h.resolve_left (fun hno => hno hd)⟩
  · rw [if_neg hd]
    exact ⟨rfl, hd⟩

namespace ArgumentToken

theorem isWord_of_word {stop word : Text} (h : IsWord stop word) : isWord word = true := by
  obtain ⟨hne, hin⟩ := h
  have hall : word.all isBare = true :=
    List.all_eq_true.mpr fun c hc => isBare_of_inWord (hin c hc)
  simp [isWord, hall, hne]

theorem spellsValue_print {stop : Text} {isNumeral : Text → Bool} {value : Value}
    (h : value.Spelled stop isNumeral) : SpellsValue isNumeral value.print value := by
  cases value with
  | quoted text =>
      obtain ⟨hq, hmem⟩ := quoteFor_spec h
      have hspells : SpellsValue isNumeral _ _ := .quoted hq hmem
      rwa [String.ofList_toList] at hspells
  | number numeral =>
      obtain ⟨hword, hnum⟩ := h
      have hspells := SpellsValue.number (isWord_of_word hword) hnum
      rwa [String.ofList_toList] at hspells
  | path p =>
      obtain ⟨hword, hnum, hpath⟩ := h
      have hspells := SpellsValue.path (isWord_of_word hword) hnum
      rwa [← Path.ofText, ← Path.ofString, hpath] at hspells

theorem print_value_head {stop : Text} {isNumeral : Text → Bool} {value : Value}
    (h : value.Spelled stop isNumeral) :
    ∃ c u, value.print = c :: u ∧ (isQuote c = true ∨ inWord stop c = true) := by
  have hword : ∀ {t}, IsWord stop t → ∃ c u, t = c :: u ∧
      (isQuote c = true ∨ inWord stop c = true) := by
    intro t ht
    obtain ⟨c, u, rfl⟩ := List.exists_cons_of_ne_nil ht.1
    exact ⟨c, u, rfl, .inr (ht.2 c List.mem_cons_self)⟩
  cases value with
  | quoted text => exact ⟨_, _, rfl, .inl (quoteFor_spec h).1⟩
  | number numeral => exact hword h.1
  | path p => exact hword h.1

/-! ## Tokens -/

theorem classify?_print {stop : Text} {token : ArgumentToken} (h : token.Spelled stop) :
    classify? token.print = some token := by
  apply classify?_eq_some_iff.mpr
  cases token with
  | positional value => exact .positional (spellsValue_print h)
  | named name value =>
      obtain ⟨hname, hspelled⟩ := h
      have hspells := Spells.named (isWord_of_word hname) (spellsValue_print hspelled)
      rwa [String.ofList_toList] at hspells

theorem cutValue?_print {stop rest : Text} {isNumeral : Text → Bool} {value : Value}
    (h : value.Spelled stop isNumeral) (hrest : StopsRun (inWord stop) rest) :
    cutValue? stop (value.print ++ rest) = some (value.print, rest) := by
  apply cutValue?_eq_some_iff.mpr
  cases value with
  | quoted text =>
      obtain ⟨hq, hmem⟩ := quoteFor_spec h
      exact .inl (cutQuoted?_eq_some_iff.mpr ⟨_, _, hq, hmem, rfl, rfl⟩)
  | number numeral =>
      exact .inr (cutWord?_eq_some_iff.mpr ⟨rfl, h.1.1, h.1.2, hrest⟩)
  | path p =>
      exact .inr (cutWord?_eq_some_iff.mpr ⟨rfl, h.1.1, h.1.2, hrest⟩)

theorem cut?_print {stop rest : Text} {token : ArgumentToken} (h : token.Spelled stop) :
    cut? stop (token.print ++ ' ' :: rest) = some (token.print, ' ' :: rest) := by
  have hspace : StopsRun (inWord stop) (' ' :: rest) := by
    apply stopsRun_cons
    have : isBare ' ' = false := by decide
    simp [inWord, this]
  apply cut?_eq_some_iff.mpr
  cases token with
  | positional value =>
      have hspelled : value.Spelled stop (·.all isNumeric) := h
      rcases cutValue?_eq_some_iff.mp (cutValue?_print hspelled hspace) with hq | hw
      · exact .inl hq
      · refine .inr (.inl ⟨hw, ?_⟩)
        intro u hu
        cases hu
  | named name value =>
      obtain ⟨hname, hspelled⟩ := h
      refine .inr (.inr ⟨name.toList, value.print, value.print ++ ' ' :: rest, ?_, ?_, rfl⟩)
      · have hequals : StopsRun (inWord stop) ('=' :: (value.print ++ ' ' :: rest)) := by
          apply stopsRun_cons
          have : isBare '=' = false := by decide
          simp [inWord, this]
        refine cutWord?_eq_some_iff.mpr ⟨?_, hname.1, hname.2, hequals⟩
        simp [print]
      · exact cutValue?_print hspelled hspace

theorem reads_reader_print {stop : Text} {token : ArgumentToken} (h : token.Spelled stop) :
    Reader.Reads (reader stop) token token.print (fun rest => ∃ u, rest = ' ' :: u) := by
  refine reads_reader ?_ (classify?_print h)
  intro rest h
  rcases h with ⟨u, rfl⟩
  exact cut?_print h

/-! ## Lists of tokens -/

theorem print_token_head {stop : Text} {token : ArgumentToken} (h : token.Spelled stop) :
    ∃ c u, token.print = c :: u ∧ (isQuote c = true ∨ inWord stop c = true) := by
  cases token with
  | positional value =>
      have hspelled : value.Spelled stop (·.all isNumeric) := h
      exact print_value_head hspelled
  | named name value =>
      obtain ⟨⟨hne, hin⟩, -⟩ := h
      obtain ⟨c, u, hcons⟩ := List.exists_cons_of_ne_nil hne
      exact ⟨c, u ++ '=' :: value.print, by simp [print, hcons],
        .inr (hin c (by simp [hcons]))⟩

theorem not_prefix_print {close rest : Text} {token : ArgumentToken} (hne : close ≠ [])
    (hquote : ∀ c ∈ close.head?, isQuote c = false) (h : token.Spelled close) :
    ¬ close <+: token.print ++ rest := by
  obtain ⟨c, u, hcons, hc⟩ := print_token_head h
  obtain ⟨e, v, rfl⟩ := List.exists_cons_of_ne_nil hne
  apply not_prefix_of_head
  rw [hcons]
  intro d h heq
  rcases h with ⟨rfl⟩
  subst heq
  rcases hc with hc | hc
  · rw [hquote c rfl] at hc
    cases hc
  · simp [inWord] at hc

theorem isSpace_eq_false_of_head {stop : Text} {c : Char}
    (h : isQuote c = true ∨ inWord stop c = true) : isSpace c = false := by
  rcases h with h | h
  · exact isSpace_eq_false_of_isQuote h
  · exact isSpace_eq_false_of_isBare (isBare_of_inWord h)

theorem exists_printAll_eq_cons (close : Text) (tokens : List ArgumentToken) :
    ∃ u, printAll close tokens = ' ' :: u := by
  cases tokens with
  | nil => exact ⟨_, rfl⟩
  | cons token tokens => exact ⟨_, rfl⟩

/-- Printed tokens are read back, in front of any text, if there are not too many. -/
theorem reads_listReader_printAll {close : Text} (hmarker : Delimiters.isMarker close = true)
    (hquote : ∀ c ∈ close.head?, isQuote c = false) {tokens : List ArgumentToken} {scans : Nat}
    (h : ∀ token ∈ tokens, token.Spelled close) (hscans : tokens.length < scans)
    (P : Text → Prop) :
    Reader.Reads (listReader close close scans) tokens (printAll close tokens) P := by
  have hne := (Delimiters.isMarker_iff.mp hmarker).1
  have hgap : ∀ c ∈ [' '], isSpace c = true := List.forall_mem_singleton.mpr rfl
  induction tokens generalizing scans with
  | nil =>
      cases scans with
      | zero => cases hscans
      | succ scans =>
          exact reads_listReader_close close scans hgap fun rest _ =>
            Delimiters.stopsRun_of_isMarker hmarker rest
  | cons token tokens ih =>
      cases scans with
      | zero => cases hscans
      | succ scans =>
          have htoken := h token List.mem_cons_self
          have htokens := ih (fun x hx => h x (List.mem_cons_of_mem _ hx))
            (Nat.lt_of_succ_lt_succ hscans)
          obtain ⟨v, hv⟩ := exists_printAll_eq_cons close tokens
          refine reads_listReader_cons hgap (reads_reader_print htoken) htokens ?_ ?_
          · intro rest _
            exact ⟨v ++ rest, by rw [hv]; rfl⟩
          · intro rest _
            obtain ⟨c, u, hcons, hc⟩ := print_token_head htoken
            constructor
            · rw [hcons]
              exact stopsRun_cons (isSpace_eq_false_of_head hc)
            · rw [List.append_assoc]
              exact not_prefix_print hne hquote htoken

end ArgumentToken

end TagTemplate
