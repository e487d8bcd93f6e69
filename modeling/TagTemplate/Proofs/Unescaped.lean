import Mathlib.Data.List.Basic
import TagTemplate.Proofs.Argument.Written
import TagTemplate.Proofs.Balance

/-!
# The two unescaped forms

A value is shown unescaped by a tag with a brace at both ends or with an ampersand. Words stop at
the characters of the closing marker, but the brace in front of it is none of them unless the marker
holds one: a last argument that is a bare word takes the brace along, and the tag is not closed. The
form with an ampersand is cut short only by a marker that reads like the value of a name.
-/

namespace TagTemplate

open Text Reader ArgumentToken

/-! ## Tags -/

namespace InterpolationForm

def sigil? : InterpolationForm → Option Sigil
  | plain => none
  | braced => some .brace
  | ampersand => some .ampersand

def mark : InterpolationForm → Text
  | plain => []
  | braced => [Sigil.brace.toChar]
  | ampersand => [Sigil.ampersand.toChar]

theorem isMark_mark {form : InterpolationForm} (h : form.escape = .unescaped) (rest : Text) :
    TagHead.IsMark form.sigil? form.mark rest := by
  cases form with
  | plain => cases h
  | braced => rfl
  | ampersand => rfl

theorem takesFreeText_sigil? (form : InterpolationForm) :
    TagHead.takesFreeText form.sigil? = false := by
  cases form with
  | plain => rfl
  | braced => rfl
  | ampersand => rfl

variable [MarkerLimits]

theorem reader_sigil? (form : InterpolationForm) (closer callee : Text) :
    Directive.reader closer ⟨form.sigil?, callee⟩ =
      Directive.interpolationReader form closer callee := by
  cases form with
  | plain => rfl
  | braced => rfl
  | ampersand => rfl

end InterpolationForm

def Delimiters.showTag (d : Delimiters) (form : InterpolationForm) (callee : Text)
    (tokens : List Text) : Text :=
  d.opener.toList ++
    (form.mark ++ callee ++ (written tokens ++ form.close d.closer.toList))

/-! ## Where the last argument ends -/

/-- The marker reads like the value of a name: an equals sign and a literal. -/
def ReadsAsValue (closer : Text) : Prop :=
  ∃ literal more, IsQuoted literal ∧ closer = '=' :: (literal ++ more)

/-- A bare word ends where the form is closed. -/
def InterpolationForm.EndsWords (closer : Text) : InterpolationForm → Prop
  | braced => '\x7d' ∈ closer
  | plain | ampersand => ¬ ReadsAsValue closer

/-- The last argument, if there is one, ends with a quote or where the form is closed. -/
def InterpolationForm.KeepsLast (form : InterpolationForm) (closer : Text) (tokens : List Text) :
    Prop :=
  ∀ t ∈ tokens.getLast?, EndsQuoted t ∨ form.EndsWords closer

section Last

variable {closer t : Text}

theorem inWord_of_mem {c : Char} (h : c ∈ closer) : inWord closer c = false := by
  simp [inWord, h]

theorem cutValue?_of_not_readsAsValue {u : Text} (h : ¬ ReadsAsValue ('=' :: u)) :
    cutValue? ('=' :: u) u = none := by
  refine cutValue?_eq_none_iff.mpr ⟨?_, ?_⟩
  · cases hq : cutQuoted? u with
    | none => rfl
    | some parts =>
        obtain ⟨quote, inner, hquote, hmem, hliteral, rfl⟩ := cutQuoted?_eq_some_iff.mp hq
        exact absurd ⟨parts.1, parts.2, ⟨quote, inner, hquote, hmem, hliteral⟩, rfl⟩ h
  · intro c hc
    exact inWord_of_mem (List.mem_cons_of_mem _ (List.mem_of_mem_head? hc))

theorem cut?_close (form : InterpolationForm) (hne : closer ≠ [])
    (hfit : Fits closer (form.close closer) t) (h : EndsQuoted t ∨ form.EndsWords closer) :
    cut? closer (t ++ form.close closer) = some (t, form.close closer) := by
  rcases h with hends | hwords
  · exact cut?_of_endsQuoted hfit.isWritten hfit.avoids_stop hends _
  · obtain ⟨e, u, rfl⟩ := List.exists_cons_of_ne_nil hne
    cases form with
    | braced =>
        exact cut?_of_isWritten hfit.isWritten hfit.avoids_stop
          (stopsRun_cons (inWord_of_mem hwords)) nofun
    | plain | ampersand =>
        refine cut?_of_isWritten hfit.isWritten hfit.avoids_stop
          (stopsRun_cons (inWord_of_mem List.mem_cons_self)) ?_
        intro v heq
        cases heq
        exact cutValue?_of_not_readsAsValue hwords

/-- A bare word that the close does not end is cut beyond its end. -/
theorem exists_cut?_close (form : InterpolationForm)
    (hfit : Fits closer (form.close closer) t) (hbare : ¬ EndsQuoted t)
    (hwords : ¬ form.EndsWords closer) :
    ∃ past u, past ≠ [] ∧ cut? closer (t ++ form.close closer) = some (t ++ past, u) := by
  cases form with
  | braced =>
      have hbrace : isBare '\x7d' = true := by decide
      have hno : '\x7d' ∉ closer := hwords
      exact exists_cut?_past hfit.isWritten hfit.avoids_stop hbare (by simp [inWord, hbrace, hno])
        closer
  | plain | ampersand =>
      obtain ⟨literal, more, hliteral, rfl⟩ := Classical.not_not.mp hwords
      have hword : isWord t = true := by
        cases hfit.isWritten with
        | quoted hquoted => exact absurd (hquoted.endsQuoted []) hbare
        | word hword => exact hword
        | named _ _ => exact absurd List.mem_cons_self (hfit.avoids_stop '=' (by simp))
      refine ⟨'=' :: literal, more, by simp, ?_⟩
      exact cut?_of_name hword hfit.avoids_stop
        (cutValue?_eq_some_iff.mpr (.inl (cutQuoted?_of_isQuoted hliteral more)))

end Last

/-! ## Compiling -/

section Compile

variable {d : Delimiters} {form : InterpolationForm} {callee : Text} {tokens : List Text}

theorem stopsRun_written (hends : d.EndsNames) (tokens : List Text) :
    StopsRun isContent (written tokens ++ form.close d.closer.toList) := by
  cases tokens with
  | cons t tokens => exact stopsRun_cons (by decide)
  | nil =>
      cases form with
      | braced => exact stopsRun_cons (by decide)
      | plain | ampersand => exact hends

theorem reader_showTag (hends : d.EndsNames) (hcallee : IsName callee)
    (hform : form.escape = .unescaped) (tokens : List Text) :
    TagHead.reader d.closer.toList
      (form.mark ++ callee ++ (written tokens ++ form.close d.closer.toList)) =
        .ok ⟨⟨form.sigil?, callee⟩, form.mark ++ callee,
          written tokens ++ form.close d.closer.toList⟩ := by
  have hreads : Reads (TagHead.reader d.closer.toList) ⟨form.sigil?, callee⟩
      (form.mark ++ ([] ++ callee)) (· = written tokens ++ form.close d.closer.toList) := by
    refine reads_head form.mark [] form.takesFreeText_sigil?
      (fun rest => InterpolationForm.isMark_mark hform _) nofun hcallee ?_
    intro rest heq
    rw [heq]
    exact stopsRun_written hends tokens
  exact hreads _ rfl

theorem showTag_eq (d : Delimiters) (form : InterpolationForm) (callee : Text)
    (tokens : List Text) : d.showTag form callee tokens = [] ++ d.opener.toList ++
      (form.mark ++ callee ++ (written tokens ++ form.close d.closer.toList)) := rfl

theorem showTag_ne_nil (hd : d.Valid) (form : InterpolationForm) (callee : Text)
    (tokens : List Text) : d.showTag form callee tokens ≠ [] := by
  intro hnil
  exact (Delimiters.isMarker_iff.mp hd.1).1 (List.append_eq_nil_iff.mp hnil).1

section

variable [MarkerLimits]

/-- If the last argument is cut as it was written, the tag makes the node that it spells. -/
theorem compile_showTag_of_cut? (hd : d.Valid) (hlimit : d.withinLimit = true)
    (hends : d.EndsNames) (hcallee : IsName callee) (hform : form.escape = .unescaped)
    (hfits : ∀ t ∈ tokens, Fits d.closer.toList (form.close d.closer.toList) t)
    (hlength : tokens.length ≤ 30)
    (hlast : ∀ t ∈ tokens.getLast?, cut? d.closer.toList (t ++ form.close d.closer.toList) =
      some (t, form.close d.closer.toList)) :
    compile d (String.ofList (d.showTag form callee tokens)) =
      .ok (.multi [.interpolation .unescaped (.ofText callee)
        (Argument.ofTokens (tokens.filterMap classify?))]) := by
  have hclose : form.close d.closer.toList ≠ [] :=
    form.close_ne_nil (Delimiters.isMarker_iff.mp hd.2).1
  have hstart : StopsRun isSpace (form.close d.closer.toList) := by
    cases form with
    | braced => exact stopsRun_cons (by decide)
    | plain | ampersand =>
        have hmarker := Delimiters.stopsRun_of_isMarker hd.2 []
        rw [List.append_nil] at hmarker
        exact hmarker
  have hscans : tokens.length < ArgumentToken.scanLimit := Nat.lt_succ_of_le hlength
  have hlist := reads_listReader_written hclose hstart hfits hlast hscans
  have hreads : Reads (Directive.reader d.closer.toList ⟨form.sigil?, callee⟩)
      (.interpolation form callee (tokens.filterMap classify?))
      (written tokens ++ form.close d.closer.toList) (· = []) := by
    rw [form.reader_sigil?, Directive.interpolationReader_eq, ← List.append_nil (_ ++ _)]
    exact hlist.bind (reads_pure _ _) fun rest hrest => hrest
  have hdirective := hreads [] rfl
  rw [List.append_nil] at hdirective
  have hnext := next_of_readers hd true [] nofun (reader_showTag hends hcallee hform tokens)
    hdirective
  rw [← showTag_eq] at hnext
  rw [compile_of_next hlimit (showTag_ne_nil hd form callee tokens) hnext rfl rfl]
  simp [Tag.leaves, Tag.ofReadings, hform]

theorem exists_error_of_cut? (hd : d.Valid) (hlimit : d.withinLimit = true)
    (hends : d.EndsNames) (hcallee : IsName callee) (hform : form.escape = .unescaped)
    (hfits : ∀ t ∈ tokens, Fits d.closer.toList (form.close d.closer.toList) t)
    (hlast : ∃ t ∈ tokens.getLast?, ∃ past u, past ≠ [] ∧
      cut? d.closer.toList (t ++ form.close d.closer.toList) = some (t ++ past, u)) :
    ∃ error, compile d (String.ofList (d.showTag form callee tokens)) = .error error ∧
      error.message = Fault.unclosedTag.message := by
  have hclose : form.close d.closer.toList ≠ [] :=
    form.close_ne_nil (Delimiters.isMarker_iff.mp hd.2).1
  have hstops : Stops (Directive.reader d.closer.toList ⟨form.sigil?, callee⟩)
      (written tokens ++ form.close d.closer.toList) .unclosedTag := by
    rw [form.reader_sigil?, Directive.interpolationReader_eq]
    exact (stops_listReader_written _ hclose hfits hlast).bind
  obtain ⟨stop, hstop, hfault⟩ := hstops
  have hnext := next_of_stop hd true [] nofun (reader_showTag hends hcallee hform tokens) hstop
  rw [← showTag_eq] at hnext
  have hkind : ∀ head, some (⟨form.sigil?, callee⟩ : TagHead) = some head →
      head.kind ≠ .closeBlock := by
    intro head heq
    cases heq
    cases form with
    | plain => nofun
    | braced => nofun
    | ampersand => nofun
  obtain ⟨error, herror, hmessage⟩ :=
    exists_error_of_broken hlimit (showTag_ne_nil hd form callee tokens) hnext hkind
  exact ⟨error, herror, by rw [hmessage, hfault]⟩

/-- A tag that shows a value unescaped, with arguments that hold neither a brace nor a character of
the closing marker, makes the same node in both forms, each as far as it keeps its last argument
apart from the close. Otherwise the tag is not closed. Pairs that are too long are refused in
both forms. -/
theorem compile_showTag (hd : d.Valid) (hends : d.EndsNames) (hcallee : IsName callee)
    (htokens : ∀ t ∈ tokens, IsWritten t ∧ ∀ c ∈ t, c ≠ '\x7d' ∧ c ∉ d.closer.toList)
    (hlength : tokens.length ≤ 30) (hform : form.escape = .unescaped) :
    (d.withinLimit = true →
      (form.KeepsLast d.closer.toList tokens →
        compile d (String.ofList (d.showTag form callee tokens)) =
          .ok (.multi [.interpolation .unescaped (.ofText callee)
            (Argument.ofTokens (tokens.filterMap classify?))])) ∧
      (¬ form.KeepsLast d.closer.toList tokens →
        ∃ error, compile d (String.ofList (d.showTag form callee tokens)) = .error error ∧
          error.message = "Unclosed tag")) ∧
    (d.withinLimit = false →
      compile d (String.ofList (d.showTag form callee tokens)) = .error (SyntaxError.locate
        (String.ofList (d.showTag form callee tokens)) 0 "Invalid delimiters")) := by
  have hne := (Delimiters.isMarker_iff.mp hd.2).1
  have hfits : ∀ t ∈ tokens, Fits d.closer.toList (form.close d.closer.toList) t := by
    intro t ht
    obtain ⟨hwritten, havoid⟩ := htokens t ht
    refine ⟨hwritten, fun c hc => (havoid c hc).2, ?_⟩
    intro c hc hmem
    cases form with
    | braced =>
        cases hc
        exact (havoid _ hmem).1 rfl
    | plain | ampersand => exact (havoid c hmem).2 (List.mem_of_mem_head? hc)
  refine ⟨fun hlimit => ⟨?_, ?_⟩, fun hlimit => compile_of_not_withinLimit hlimit _⟩
  · intro hkeeps
    refine compile_showTag_of_cut? hd hlimit hends hcallee hform hfits hlength ?_
    intro t ht
    exact cut?_close form hne (hfits t (List.mem_of_getLast? ht)) (hkeeps t ht)
  · intro hloses
    obtain ⟨t, ht, hno⟩ :
        ∃ t ∈ tokens.getLast?, ¬ (EndsQuoted t ∨ form.EndsWords d.closer.toList) := by
      apply Classical.byContradiction
      intro hnone
      exact hloses fun t ht => Classical.byContradiction fun h => hnone ⟨t, ht, h⟩
    have hcut := exists_cut?_close form (hfits t (List.mem_of_getLast? ht))
      (fun h => hno (.inl h)) (fun h => hno (.inr h))
    exact exists_error_of_cut? hd hlimit hends hcallee hform hfits ⟨t, ht, hcut⟩

end

/-- Markers without a brace: the last argument is kept as a literal, and as a bare word only in the
form with an ampersand. -/
theorem compile_showTag_percent :
    compile ⟨"<%", "%>"⟩ "<%\x7bx a k='b'\x7d%>" = .ok (.multi [.interpolation .unescaped ⟨["x"]⟩
        [.positional (.path ⟨["a"]⟩), .named ⟨[("k", .quoted "b")]⟩]]) ∧
      compile ⟨"<%", "%>"⟩ "<%&x a%>" = .ok (.multi [.interpolation .unescaped ⟨["x"]⟩
        [.positional (.path ⟨["a"]⟩)]]) ∧
      ∃ error, compile ⟨"<%", "%>"⟩ "<%\x7bx a\x7d%>" = .error error ∧
        error.message = "Unclosed tag" := by
  have hd : Delimiters.Valid ⟨"<%", "%>"⟩ := by decide
  have hends : Delimiters.EndsNames ⟨"<%", "%>"⟩ := stopsRun_cons (by decide)
  have hcallee : IsName ['x'] := by decide
  have hword : IsWritten ['a'] := .word (by decide)
  have hnamed : IsWritten (['k'] ++ '=' :: ['\'', 'b', '\'']) :=
    .named (by decide) (.inl ⟨'\'', ['b'], by decide, by decide, rfl⟩)
  have hcloser : "%>".toList = ['%', '>'] := rfl
  have hone : ∀ t ∈ [['a']], IsWritten t ∧ ∀ c ∈ t, c ≠ '\x7d' ∧ c ∉ "%>".toList :=
    List.forall_mem_singleton.mpr ⟨hword, by simp [hcloser]⟩
  have htwo : ∀ t ∈ [['a'], ['k'] ++ '=' :: ['\'', 'b', '\'']],
      IsWritten t ∧ ∀ c ∈ t, c ≠ '\x7d' ∧ c ∉ "%>".toList :=
    List.forall_mem_cons.mpr ⟨⟨hword, by simp [hcloser]⟩,
      List.forall_mem_singleton.mpr ⟨hnamed, by simp [hcloser]⟩⟩
  have hkeepsQuoted : InterpolationForm.braced.KeepsLast "%>".toList
      [['a'], ['k'] ++ '=' :: ['\'', 'b', '\'']] := by
    intro t ht
    cases ht
    left
    intro c hc
    cases hc
    decide
  have hkeepsWord : InterpolationForm.ampersand.KeepsLast "%>".toList [['a']] := by
    intro t ht
    cases ht
    right
    intro h
    obtain ⟨literal, more, -, heq⟩ := h
    exact absurd (List.cons.inj heq).1 (by decide)
  have hlosesWord : ¬ InterpolationForm.braced.KeepsLast "%>".toList [['a']] := by
    intro hkeeps
    rcases hkeeps ['a'] rfl with hquoted | hwords
    · exact absurd (hquoted 'a' rfl) (by decide)
    · have hbrace : '\x7d' ∈ "%>".toList := hwords
      exact absurd hbrace (by decide)
  have hbraced := @compile_showTag ⟨"<%", "%>"⟩ .braced ['x']
  have hampersand := @compile_showTag ⟨"<%", "%>"⟩ .ampersand ['x']
  have hquotedNode :=
    ((hbraced hd hends hcallee htwo (by decide) rfl).1 (by decide)).1 hkeepsQuoted
  have hwordNode :=
    ((hampersand hd hends hcallee hone (by decide) rfl).1 (by decide)).1 hkeepsWord
  have herror := ((hbraced hd hends hcallee hone (by decide) rfl).1 (by decide)).2 hlosesWord
  have hquotedArgs : Argument.ofTokens
      ([['a'], ['k'] ++ '=' :: ['\'', 'b', '\'']].filterMap classify?) =
        [.positional (.path ⟨["a"]⟩), .named ⟨[("k", .quoted "b")]⟩] := by decide +kernel
  have hwordArgs : Argument.ofTokens ([['a']].filterMap classify?) =
      [.positional (.path ⟨["a"]⟩)] := by decide +kernel
  rw [hquotedArgs] at hquotedNode
  rw [hwordArgs] at hwordNode
  exact ⟨hquotedNode, hwordNode, herror⟩

/-- A bare word in front of the brace takes it along, while the other form keeps the word. -/
theorem compile_braced_word :
    compile ⟨"<%", "%>"⟩ "<%\x7bx a\x7d%>" =
        .error ⟨"Unclosed tag", 1, 7, "<%\x7bx a\x7d%>"⟩ ∧
      compile ⟨"<%", "%>"⟩ "<%&x a%>" = .ok (.multi [.interpolation .unescaped ⟨["x"]⟩
        [.positional (.path ⟨["a"]⟩)]]) := by
  rw [compile_eq_evaluate, compile_eq_evaluate]
  decide +kernel

end Compile

end TagTemplate
