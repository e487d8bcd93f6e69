import TagTemplate.Delimiters
import TagTemplate.Lexeme.Boundary
import TagTemplate.Proofs.Text.Cut
import TagTemplate.Proofs.Text.Region

/-!
# Where lexemes end

With a marker that holds no white space the boundaries of lexemes can be told without the
functions that find them: a tag opens where blanks and then the opening marker stand, and a run
of text reaches to the first place after its first character where a tag opens.
-/

namespace TagTemplate

open Text

/-! ## Markers -/

theorem notMem_of_isMarker {marker : Text} (h : Delimiters.isMarker marker = true) {c : Char}
    (hc : isSpace c = true) : c ∉ marker := by
  intro hmem
  have := (Delimiters.isMarker_iff.mp h).2 c hmem
  rw [hc] at this
  cases this

theorem isIndent_eq_false_of_isMarker {marker : Text} (h : Delimiters.isMarker marker = true)
    {c : Char} (hc : c ∈ marker) : isIndent c = false := by
  cases hi : isIndent c with
  | false => rfl
  | true => exact absurd hc (notMem_of_isMarker h (isSpace_of_isIndent hi))

theorem stopsRun_marker {marker : Text} (h : Delimiters.isMarker marker = true) (rest : Text) :
    StopsRun isIndent (marker ++ rest) := by
  cases marker with
  | nil => cases h
  | cons c marker => exact stopsRun_cons (isIndent_eq_false_of_isMarker h List.mem_cons_self)

/-! ## Openings -/

theorem splitOpening_go_mem {opener revIndent t indent rest : Text}
    (h : splitOpening.go opener revIndent t = some (indent, rest)) :
    ∀ c ∈ indent, c ∈ revIndent := by
  fun_induction splitOpening.go opener revIndent t with
  | case1 =>
      cases h
      simp
  | case2 => cases h
  | case3 c revIndent t hopener =>
      cases h
      intro d hd
      exact List.mem_reverse.mp hd
  | case4 c revIndent t hopener ih =>
      intro d hd
      exact List.mem_cons_of_mem _ (ih h d hd)

theorem splitOpening_indent {opener t indent rest : Text}
    (h : splitOpening opener t = some (indent, rest)) : ∀ c ∈ indent, isIndent c = true := by
  intro c hc
  have hmem := splitOpening_go_mem h c hc
  exact List.mem_takeWhile_imp (List.mem_reverse.mp hmem)

theorem splitOpening_go_append_marker (opener revIndent rest : Text) :
    splitOpening.go opener revIndent (opener ++ rest) = some (revIndent.reverse, rest) := by
  cases revIndent with
  | nil => simp [splitOpening.go]
  | cons c revIndent => simp [splitOpening.go]

theorem splitOpening_eq_some_iff {opener t indent rest : Text}
    (ho : Delimiters.isMarker opener = true) :
    splitOpening opener t = some (indent, rest) ↔
      t = indent ++ opener ++ rest ∧ ∀ c ∈ indent, isIndent c = true := by
  constructor
  · intro h
    exact ⟨(splitOpening_append h).symm, splitOpening_indent h⟩
  · intro h
    rcases h with ⟨rfl, hindent⟩
    have hstop := stopsRun_marker ho rest
    unfold splitOpening
    rw [List.append_assoc, takeWhile_append_stop hindent hstop,
      dropWhile_append_stop hindent hstop, splitOpening_go_append_marker, List.reverse_reverse]

theorem splitOpening_eq_none_iff {opener t : Text} (ho : Delimiters.isMarker opener = true) :
    splitOpening opener t = none ↔
      ∀ indent rest, t = indent ++ opener ++ rest → ¬ ∀ c ∈ indent, isIndent c = true := by
  constructor
  · intro h indent rest ht hindent
    rw [(splitOpening_eq_some_iff ho).mpr ⟨ht, hindent⟩] at h
    cases h
  · intro h
    cases hs : splitOpening opener t with
    | none => rfl
    | some parts =>
        obtain ⟨indent, rest⟩ := parts
        obtain ⟨ht, hindent⟩ := (splitOpening_eq_some_iff ho).mp hs
        exact absurd hindent (h indent rest ht)

theorem opensHere_iff {opener t : Text} {lineStart : Bool}
    (ho : Delimiters.isMarker opener = true) :
    opensHere opener lineStart t = true ↔ ∃ indent rest, t = indent ++ opener ++ rest ∧
      (∀ c ∈ indent, isIndent c = true) ∧ (lineStart = true ∨ indent = []) := by
  unfold opensHere
  rw [Bool.or_eq_true, Bool.and_eq_true, List.isPrefixOf_iff_prefix, Option.isSome_iff_exists]
  constructor
  · intro h
    rcases h with ⟨rest, rfl⟩ | ⟨hl, ⟨indent, rest⟩, hs⟩
    · exact ⟨[], rest, rfl, by simp, .inr rfl⟩
    · obtain ⟨ht, hindent⟩ := (splitOpening_eq_some_iff ho).mp hs
      exact ⟨indent, rest, ht, hindent, .inl hl⟩
  · intro h
    rcases h with ⟨indent, rest, ht, hindent, hl | rfl⟩
    · exact .inr ⟨hl, _, (splitOpening_eq_some_iff ho).mpr ⟨ht, hindent⟩⟩
    · exact .inl ⟨rest, ht.symm⟩

/-- At the start of a line, text runs end exactly where tags open. -/
theorem opensHere_lineStart {opener : Text} (ho : Delimiters.isMarker opener = true) (t : Text) :
    opensHere opener true t = (splitOpening opener t).isSome := by
  rw [Bool.eq_iff_iff, opensHere_iff ho, Option.isSome_iff_exists]
  constructor
  · intro h
    rcases h with ⟨indent, rest, ht, hindent, -⟩
    exact ⟨_, (splitOpening_eq_some_iff ho).mpr ⟨ht, hindent⟩⟩
  · intro h
    rcases h with ⟨⟨indent, rest⟩, hs⟩
    obtain ⟨ht, hindent⟩ := (splitOpening_eq_some_iff ho).mp hs
    exact ⟨indent, rest, ht, hindent, .inl rfl⟩

/-! ## Runs of text -/

theorem splitText_go_eq_iff {opener t seen text rest : Text} (hseen : seen ≠ []) :
    splitText.go opener (endsLine seen.reverse) t seen = (text, rest) ↔
      ∃ piece, text = seen.reverse ++ piece ∧ t = piece ++ rest ∧
        (∀ s u, piece = s ++ u → u ≠ [] →
          opensHere opener (endsLine (seen.reverse ++ s)) (u ++ rest) = false) ∧
        (rest ≠ [] → opensHere opener (endsLine text) rest = true) := by
  induction t generalizing seen with
  | nil =>
      simp only [splitText.go, Prod.mk.injEq]
      constructor
      · intro h
        rcases h with ⟨rfl, rfl⟩
        exact ⟨[], by simp, rfl, by simp, by simp⟩
      · intro h
        rcases h with ⟨piece, rfl, ht, -⟩
        obtain ⟨rfl, rfl⟩ := List.append_eq_nil_iff.mp ht.symm
        simp
  | cons c t ih =>
      simp only [splitText.go]
      by_cases hc : opensHere opener (endsLine seen.reverse) (c :: t) = true
      · rw [if_pos hc]
        constructor
        · intro h
          simp only [Prod.mk.injEq] at h
          obtain ⟨rfl, rfl⟩ := h
          exact ⟨[], by simp, rfl, by simp, fun _ => hc⟩
        · intro h
          rcases h with ⟨piece, rfl, ht, hfirst, -⟩
          cases piece with
          | nil => simpa using ht
          | cons d piece =>
              have := hfirst [] (d :: piece) rfl (by simp)
              rw [← ht, List.append_nil, hc] at this
              cases this
      · rw [if_neg hc]
        have hline : (c == '\n') = endsLine (c :: seen).reverse := by
          simp [endsLine]
        rw [hline, ih (by simp)]
        constructor
        · intro h
          rcases h with ⟨piece, rfl, rfl, hfirst, hrest⟩
          refine ⟨c :: piece, by simp, rfl, ?_, by simpa using hrest⟩
          intro s u hsu hu
          cases s with
          | nil =>
              rw [List.nil_append] at hsu
              subst hsu
              simpa using hc
          | cons d s =>
              obtain ⟨rfl, rfl⟩ : c = d ∧ piece = s ++ u := by simpa using hsu
              simpa using hfirst s u rfl hu
        · intro h
          rcases h with ⟨piece, rfl, ht, hfirst, hrest⟩
          cases piece with
          | nil =>
              rw [List.nil_append] at ht
              rw [List.append_nil, ← ht] at hrest
              exact absurd (hrest (by simp)) hc
          | cons d piece =>
              obtain ⟨rfl, rfl⟩ : c = d ∧ t = piece ++ rest := by simpa using ht
              refine ⟨piece, by simp, rfl, ?_, by simpa using hrest⟩
              intro s u hsu hu
              simpa using hfirst (c :: s) u (by simp [hsu]) hu

/-- A run of text takes its first character and goes on up to the first place where a tag
opens. -/
theorem splitText_eq_iff {opener t text rest : Text} (ht : t ≠ []) :
    splitText opener t = (text, rest) ↔ t = text ++ rest ∧ text ≠ [] ∧
      (∀ s u, text = s ++ u → s ≠ [] → u ≠ [] →
        opensHere opener (endsLine s) (u ++ rest) = false) ∧
      (rest ≠ [] → opensHere opener (endsLine text) rest = true) := by
  cases t with
  | nil => exact absurd rfl ht
  | cons c t =>
      have hline : (c == '\n') = endsLine [c].reverse := by
        simp [endsLine]
      simp only [splitText]
      rw [hline, splitText_go_eq_iff (by simp)]
      constructor
      · intro h
        rcases h with ⟨piece, rfl, rfl, hfirst, hrest⟩
        refine ⟨by simp, by simp, ?_, hrest⟩
        intro s u hsu hs hu
        cases s with
        | nil => exact absurd rfl hs
        | cons d s =>
            obtain ⟨rfl, rfl⟩ : c = d ∧ piece = s ++ u := by simpa using hsu
            exact hfirst s u rfl hu
      · intro h
        rcases h with ⟨ht, htext, hfirst, hrest⟩
        cases text with
        | nil => exact absurd rfl htext
        | cons d piece =>
            obtain ⟨rfl, rfl⟩ : c = d ∧ t = piece ++ rest := by simpa using ht
            refine ⟨piece, by simp, rfl, ?_, hrest⟩
            intro s u hsu hu
            exact hfirst (c :: s) u (by simp [hsu]) (by simp) hu

/-! ## Line breaks -/

theorem splitLineBreak?_eq_some_iff {t lineBreak rest : Text} :
    splitLineBreak? t = some (lineBreak, rest) ↔ t = [] ∧ lineBreak = [] ∧ rest = [] ∨
      t = '\n' :: rest ∧ lineBreak = ['\n'] ∨
        t = '\r' :: '\n' :: rest ∧ lineBreak = ['\r', '\n'] := by
  constructor
  · intro h
    unfold splitLineBreak? at h
    split at h
    · cases h
      exact .inl ⟨rfl, rfl, rfl⟩
    · cases h
      exact .inr (.inl ⟨rfl, rfl⟩)
    · cases h
      exact .inr (.inr ⟨rfl, rfl⟩)
    · cases h
  · intro h
    rcases h with ⟨rfl, rfl, rfl⟩ | ⟨rfl, rfl⟩ | ⟨rfl, rfl⟩
    · rfl
    · rfl
    · rfl

theorem eq_of_splitLineBreak? {t lineBreak rest : Text}
    (h : splitLineBreak? t = some (lineBreak, rest)) :
    lineBreak = [] ∧ rest = [] ∨ endsLine lineBreak = true := by
  rcases splitLineBreak?_eq_some_iff.mp h with ⟨-, rfl, rfl⟩ | ⟨-, rfl⟩ | ⟨-, rfl⟩
  · exact .inl ⟨rfl, rfl⟩
  · exact .inr rfl
  · exact .inr rfl

theorem endsLine_append_marker {marker : Text} (h : Delimiters.isMarker marker = true)
    (front : Text) : endsLine (front ++ marker) = false := by
  obtain ⟨hne, -⟩ := Delimiters.isMarker_iff.mp h
  rw [endsLine_append hne]
  cases hends : endsLine marker with
  | false => rfl
  | true =>
      have hmem : '\n' ∈ marker := List.mem_of_getLast? (endsLine_iff.mp hends)
      exact absurd hmem (notMem_of_isMarker h (by decide))

end TagTemplate
