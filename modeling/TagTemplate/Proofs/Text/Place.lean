import TagTemplate.Delimiters
import TagTemplate.Proofs.Text.Cut
import TagTemplate.Proofs.Text.Region

/-!
# Places outside white space

A place in a text is given by what stands on both sides of it. It lies outside white space if one of
its sides does not go on with white space. What is dropped from the end of a line then ends
before it reaches such a place, unless the text ends there.
-/

namespace TagTemplate.Text

/-! ## Ends of texts -/

theorem StopsRun.mono {p q : Char → Bool} {t : Text} (h : StopsRun q t)
    (hpq : ∀ c, q c = false → p c = false) : StopsRun p t :=
  fun c hc => hpq c (h c hc)

theorem stopsRun_takeWhile {p : Char → Bool} {t : Text} (h : StopsRun p t) (q : Char → Bool) :
    StopsRun p (t.takeWhile q) := by
  cases t with
  | nil => exact h
  | cons c t =>
      cases hq : q c with
      | false => simp [hq, StopsRun]
      | true =>
          rw [List.takeWhile_cons_of_pos hq]
          exact stopsRun_cons (h c rfl)

theorem stopsRun_reverse_of_forall {p : Char → Bool} {t : Text} (h : ∀ c ∈ t, p c = false) :
    StopsRun p t.reverse :=
  fun c hc => h c (List.mem_reverse.mp (List.mem_of_mem_head? hc))

theorem stopsRun_reverse_append {p : Char → Bool} {t : Text} (h : StopsRun p t.reverse)
    (ht : t ≠ []) (s : Text) : StopsRun p (s ++ t).reverse := by
  rw [← List.append_nil t.reverse] at h
  rw [List.reverse_append]
  exact h.append (by simpa using ht) s.reverse

/-- The last line ends as the text does. -/
theorem stopsRun_reverse_lastLine {p : Char → Bool} {t : Text} (h : StopsRun p t.reverse) :
    StopsRun p (lastLine t).reverse := by
  rw [lastLine, List.reverse_reverse]
  exact stopsRun_takeWhile h _

/-! ## What is dropped from an end -/

theorem rdropWhile_eq_iff {p : Char → Bool} {t kept : Text} :
    t.rdropWhile p = kept ↔ ∃ dropped, t = kept ++ dropped ∧ (∀ c ∈ dropped, p c = true) ∧
      StopsRun p kept.reverse := by
  constructor
  · intro h
    have hsplit : splitEndWhile p t = (kept, (splitEndWhile p t).2) := Prod.ext h rfl
    exact ⟨_, splitEndWhile_eq_iff.mp hsplit⟩
  · intro h
    obtain ⟨dropped, hsplit⟩ := h
    exact congrArg Prod.fst (splitEndWhile_eq_iff.mpr hsplit)

theorem size_rdropWhile_le (p : Char → Bool) (t : Text) : size (t.rdropWhile p) ≤ size t := by
  obtain ⟨dropped, ht⟩ := List.rdropWhile_prefix p t
  have hsize := congrArg size ht
  rw [size_append] at hsize
  exact Nat.le.intro hsize

/-- What is dropped from the end of a text does not reach into its front, if the front keeps its own
end or the rest does not begin with what is dropped. -/
theorem rdropWhile_append {p : Char → Bool} {s t : Text}
    (h : StopsRun p s.reverse ∨ t ≠ [] ∧ StopsRun p t) :
    (s ++ t).rdropWhile p = s ++ t.rdropWhile p := by
  obtain ⟨dropped, ht, hdropped, hkept⟩ := rdropWhile_eq_iff.mp (rfl : t.rdropWhile p = _)
  have hend : StopsRun p (s ++ t.rdropWhile p).reverse := by
    by_cases hnil : t.rdropWhile p = []
    · rw [hnil, List.append_nil]
      rcases h with hs | ⟨hne, hstart⟩
      · exact hs
      · obtain ⟨c, u, rfl⟩ := List.exists_cons_of_ne_nil hne
        rw [hnil, List.nil_append] at ht
        have hc := hdropped c (ht ▸ List.mem_cons_self)
        rw [hstart c rfl] at hc
        cases hc
    · exact stopsRun_reverse_append hkept hnil s
  exact rdropWhile_eq_iff.mpr ⟨dropped, by rw [List.append_assoc, ← ht], hdropped, hend⟩

/-! ## Places -/

theorem ne_of_isSpace {c d : Char} (hc : isSpace c = false) (hd : isSpace d = true) : c ≠ d := by
  intro heq
  rw [heq, hd] at hc
  cases hc

/-- The place between the two texts does not have white space on both sides. -/
def OutsideSpace (before after : Text) : Prop :=
  StopsRun isSpace before.reverse ∨ StopsRun isSpace after

theorem OutsideSpace.append_left {before after : Text} (h : OutsideSpace before after)
    (hne : before ≠ []) (s : Text) : OutsideSpace (s ++ before) after :=
  h.imp_left fun hbefore => stopsRun_reverse_append hbefore hne s

/-- Behind a piece that does not end in white space. -/
theorem OutsideSpace.advance {before piece after : Text} (h : OutsideSpace before (piece ++ after))
    (hpiece : StopsRun isSpace piece.reverse) : OutsideSpace (before ++ piece) after := by
  by_cases hne : piece = []
  · subst hne
    rwa [List.append_nil]
  · exact .inl (stopsRun_reverse_append hpiece hne before)

/-- The piece is the front of the text and ends outside white space, whatever comes before. -/
def EndsOutside (t piece : Text) : Prop :=
  ∃ after, t = piece ++ after ∧ ∀ before, OutsideSpace (before ++ piece) after

theorem endsOutside_of_stopsRun {piece after : Text} (h : StopsRun isSpace after) :
    EndsOutside (piece ++ after) piece :=
  ⟨after, rfl, fun _ => .inr h⟩

theorem endsOutside_of_outsideSpace {piece after : Text} (h : OutsideSpace piece after)
    (hne : piece ≠ []) (indent : Text) : EndsOutside (indent ++ piece ++ after) (indent ++ piece) :=
  ⟨after, rfl, fun before => by
    rw [← List.append_assoc]
    exact h.append_left hne (before ++ indent)⟩

end TagTemplate.Text

/-! ## Markers -/

namespace TagTemplate.Delimiters

open Text

theorem stopsRun_of_isMarker {t : Text} (h : isMarker t = true) (rest : Text) :
    StopsRun isSpace (t ++ rest) := by
  obtain ⟨hne, hspace⟩ := isMarker_iff.mp h
  obtain ⟨c, u, rfl⟩ := List.exists_cons_of_ne_nil hne
  exact stopsRun_cons (hspace c List.mem_cons_self)

theorem stopsRun_reverse_of_isMarker {t : Text} (h : isMarker t = true) :
    StopsRun isSpace t.reverse :=
  stopsRun_reverse_of_forall (isMarker_iff.mp h).2

end TagTemplate.Delimiters
