import Mathlib.Data.List.DropRight
import TagTemplate.Text.Basic

/-!
# Cuts and the text after them

Where a cut is made is settled by the text up to the cut and by little of what follows. These
lemmas say by how little, for each way of cutting.
-/

namespace TagTemplate.Text

/-! ## Runs of a class -/

/-- Nothing stands here, or a character that is not in the class. -/
def StopsRun (p : Char → Bool) (t : Text) : Prop := ∀ c ∈ t.head?, p c = false

theorem stopsRun_cons {p : Char → Bool} {c : Char} {t : Text} (h : p c = false) :
    StopsRun p (c :: t) := by
  intro d hd
  cases hd
  exact h

theorem StopsRun.append {p : Char → Bool} {t s : Text} (h : StopsRun p (t ++ s)) (ht : t ≠ [])
    (s' : Text) : StopsRun p (t ++ s') := by
  cases t with
  | nil => exact absurd rfl ht
  | cons c t => exact stopsRun_cons (h c rfl)

theorem takeWhile_append_stop {p : Char → Bool} {run rest : Text} (hrun : ∀ c ∈ run, p c = true)
    (hrest : StopsRun p rest) : (run ++ rest).takeWhile p = run := by
  rw [List.takeWhile_append_of_pos hrun]
  cases rest with
  | nil => simp
  | cons c rest => simp [hrest c rfl]

theorem dropWhile_append_stop {p : Char → Bool} {run rest : Text} (hrun : ∀ c ∈ run, p c = true)
    (hrest : StopsRun p rest) : (run ++ rest).dropWhile p = rest := by
  rw [List.dropWhile_append_of_pos hrun]
  cases rest with
  | nil => simp
  | cons c rest => simp [hrest c rfl]

theorem stopsRun_dropWhile (p : Char → Bool) (t : Text) : StopsRun p (t.dropWhile p) := by
  intro c hc
  have := List.head?_dropWhile_not p t
  rw [Option.mem_def.mp hc] at this
  simpa using this

/-! ## Prefixes -/

/-- Whether a text that is long enough starts with a piece does not depend on what follows. -/
theorem prefix_append_iff {piece t : Text} (h : piece.length ≤ t.length) (s : Text) :
    piece <+: t ++ s ↔ piece <+: t :=
  ⟨fun hpiece => List.prefix_of_prefix_length_le hpiece (List.prefix_append t s) h,
    fun hpiece => hpiece.trans (List.prefix_append t s)⟩

theorem isPrefixOf_append_right {piece t : Text} (h : piece.length ≤ t.length) (s : Text) :
    piece.isPrefixOf (t ++ s) = piece.isPrefixOf t := by
  rw [Bool.eq_iff_iff, List.isPrefixOf_iff_prefix, List.isPrefixOf_iff_prefix, prefix_append_iff h]

theorem not_prefix_of_head {c : Char} {piece t : Text} (h : ∀ d ∈ t.head?, d ≠ c) :
    ¬ c :: piece <+: t := by
  intro hpiece
  obtain ⟨u, rfl⟩ := hpiece
  exact h c rfl rfl

/-! ## The first place of a kind -/

theorem splitAtFirst?_go_eq_some_iff {p : Text → Bool} {t seen before after : Text} :
    splitAtFirst?.go p t seen = some (before, after) ↔
      ∃ piece, before = seen.reverse ++ piece ∧ t = piece ++ after ∧ p after = true ∧
        ∀ s u, piece = s ++ u → u ≠ [] → p (u ++ after) = false := by
  induction t generalizing seen with
  | nil =>
      simp only [splitAtFirst?.go]
      constructor
      · intro h
        split at h
        · rename_i hp
          simp only [Option.some.injEq, Prod.mk.injEq] at h
          obtain ⟨rfl, rfl⟩ := h
          exact ⟨[], by simp, rfl, hp, by simp⟩
        · cases h
      · intro h
        rcases h with ⟨piece, rfl, ht, hp, -⟩
        obtain ⟨rfl, rfl⟩ := List.append_eq_nil_iff.mp ht.symm
        simp [hp]
  | cons c t ih =>
      simp only [splitAtFirst?.go]
      by_cases hc : p (c :: t) = true
      · rw [if_pos hc]
        constructor
        · intro h
          simp only [Option.some.injEq, Prod.mk.injEq] at h
          obtain ⟨rfl, rfl⟩ := h
          exact ⟨[], by simp, rfl, hc, by simp⟩
        · intro h
          rcases h with ⟨piece, rfl, ht, -, hfirst⟩
          cases piece with
          | nil => simp [ht]
          | cons d piece =>
              have := hfirst [] (d :: piece) rfl (by simp)
              rw [← ht, hc] at this
              cases this
      · rw [if_neg hc, ih]
        constructor
        · intro h
          rcases h with ⟨piece, rfl, rfl, hp, hfirst⟩
          refine ⟨c :: piece, by simp, rfl, hp, ?_⟩
          intro s u hsu hu
          cases s with
          | nil =>
              rw [List.nil_append] at hsu
              subst hsu
              simpa using hc
          | cons d s =>
              obtain ⟨rfl, rfl⟩ : c = d ∧ piece = s ++ u := by simpa using hsu
              exact hfirst s u rfl hu
        · intro h
          rcases h with ⟨piece, rfl, ht, hp, hfirst⟩
          cases piece with
          | nil =>
              rw [List.nil_append] at ht
              rw [ht] at hc
              exact absurd hp hc
          | cons d piece =>
              obtain ⟨rfl, rfl⟩ : c = d ∧ t = piece ++ after := by simpa using ht
              refine ⟨piece, by simp, rfl, hp, ?_⟩
              intro s u hsu hu
              exact hfirst (c :: s) u (by simp [hsu]) hu

/-- The split is at a place that satisfies `p`, and no place before it does. -/
theorem splitAtFirst?_eq_some_iff {p : Text → Bool} {t before after : Text} :
    splitAtFirst? p t = some (before, after) ↔ t = before ++ after ∧ p after = true ∧
      ∀ s u, before = s ++ u → u ≠ [] → p (u ++ after) = false := by
  unfold splitAtFirst?
  rw [splitAtFirst?_go_eq_some_iff]
  constructor
  · intro h
    rcases h with ⟨piece, rfl, h⟩
    exact h
  · intro h
    exact ⟨before, rfl, h⟩

theorem splitAtFirst?_go_ne_none {p : Text → Bool} {before after : Text} (h : p after = true)
    (seen : Text) : splitAtFirst?.go p (before ++ after) seen ≠ none := by
  induction before generalizing seen with
  | nil =>
      cases after with
      | nil => simp [splitAtFirst?.go, h]
      | cons c after => simp [splitAtFirst?.go, h]
  | cons c before ih =>
      rw [List.cons_append, splitAtFirst?.go]
      split
      · nofun
      · exact ih (c :: seen)

/-- There is a split if some place satisfies `p`. -/
theorem splitAtFirst?_ne_none {p : Text → Bool} {before after : Text} (h : p after = true) :
    splitAtFirst? p (before ++ after) ≠ none := splitAtFirst?_go_ne_none h []

/-! ## The end of a text -/

theorem fst_splitEndWhile (p : Char → Bool) (t : Text) : (splitEndWhile p t).1 = t.rdropWhile p :=
  rfl

theorem splitEndWhile_eq_iff {p : Char → Bool} {t before after : Text} :
    splitEndWhile p t = (before, after) ↔
      t = before ++ after ∧ (∀ c ∈ after, p c = true) ∧ StopsRun p before.reverse := by
  unfold splitEndWhile
  rw [Prod.mk.injEq]
  constructor
  · intro h
    rcases h with ⟨rfl, rfl⟩
    refine ⟨?_, ?_, ?_⟩
    · rw [← List.reverse_append, List.takeWhile_append_dropWhile, List.reverse_reverse]
    · intro c hc
      exact List.mem_takeWhile_imp (List.mem_reverse.mp hc)
    · rw [List.reverse_reverse]
      exact stopsRun_dropWhile p t.reverse
  · intro h
    rcases h with ⟨rfl, hafter, hbefore⟩
    have hall : ∀ c ∈ after.reverse, p c = true := by
      intro c hc
      exact hafter c (List.mem_reverse.mp hc)
    rw [List.reverse_append, takeWhile_append_stop hall hbefore,
      dropWhile_append_stop hall hbefore, List.reverse_reverse, List.reverse_reverse]
    exact ⟨rfl, rfl⟩

end TagTemplate.Text
