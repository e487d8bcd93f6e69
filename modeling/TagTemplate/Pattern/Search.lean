import TagTemplate.Pattern.Basic

/-!
# Searching for a pattern

A search tries one place after the other. A pattern that begins with a repeated class of
characters can stop, from a place inside a run of the class, only where it can also stop from the
place before. So where it does not match, it does not match in the rest of the run either, and
the search passes over the run. `find?_eq_seek?` says that it finds what a plain search finds.
-/

namespace TagTemplate.Pattern

/-- The class of characters that a pattern begins to repeat. -/
def lead? : Pattern → Option (Char → Bool)
  | many p | someOf p => some p
  | group _ q => q.lead?
  | seq q _ => q.lead?
  | _ => none

theorem repeats_eq_append (p : Char → Bool) (before : Option Char) (t : Text)
    (nearer : List Place) : repeats p before t nearer = repeats p before t [] ++ nearer := by
  induction t generalizing before nearer with
  | nil => rfl
  | cons c t ih =>
      simp only [repeats]
      split
      · rw [ih, ih _ [_]]
        simp
      · rfl

theorem repeats_cons {p : Char → Bool} {before : Option Char} {c : Char} {t : Text}
    (h : p c = true) :
    repeats p before (c :: t) [] = repeats p (some c) t [] ++ [⟨before, c :: t⟩] := by
  rw [repeats, if_pos h, repeats_eq_append]

/-- Inside a run of its leading class, a pattern stops only where it stops from the place before. -/
theorem exists_way_of_lead {q : Pattern} {p : Char → Bool} {before : Option Char} {c : Char}
    {t : Text} {way : Way} (hq : q.lead? = some p) (hc : p c = true)
    (h : way ∈ q.ways ⟨some c, t⟩) :
    ∃ earlier ∈ q.ways ⟨before, c :: t⟩, earlier.stop = way.stop := by
  induction q generalizing way with
  | empty | textStart | lineStart | char | option | alt => cases hq
  | many r =>
      cases hq
      simp only [ways, List.mem_map] at h ⊢
      obtain ⟨stop, hs, rfl⟩ := h
      exact ⟨_, ⟨stop, by simp [repeats_cons hc, hs], rfl⟩, rfl⟩
  | someOf r =>
      cases hq
      simp only [ways, List.mem_map] at h ⊢
      obtain ⟨stop, hs, rfl⟩ := h
      exact ⟨_, ⟨stop, by simpa [repeats_cons hc] using List.dropLast_subset _ hs, rfl⟩, rfl⟩
  | group number r ih =>
      simp only [ways, List.mem_map] at h ⊢
      obtain ⟨inner, hi, rfl⟩ := h
      obtain ⟨earlier, he, hstop⟩ := ih hq hi
      exact ⟨_, ⟨earlier, he, rfl⟩, hstop⟩
  | seq r s ihr =>
      simp only [ways, List.mem_flatMap, List.mem_map] at h ⊢
      obtain ⟨first, hf, second, hs, rfl⟩ := h
      obtain ⟨earlier, he, hstop⟩ := ihr hq hf
      exact ⟨_, ⟨earlier, he, second, hstop ▸ hs, rfl⟩, rfl⟩

theorem matchesAt_eq_false_iff {q : Pattern} {place : Place} :
    q.matchesAt place = false ↔ q.ways place = [] := by
  simp [matchesAt, match?]

theorem matchesAt_eq_false_of_lead {q : Pattern} {p : Char → Bool} {before : Option Char}
    {c : Char} {t : Text} (hq : q.lead? = some p) (hc : p c = true)
    (h : q.matchesAt ⟨before, c :: t⟩ = false) : q.matchesAt ⟨some c, t⟩ = false := by
  rw [matchesAt_eq_false_iff, List.eq_nil_iff_forall_not_mem] at h ⊢
  intro way hway
  obtain ⟨earlier, he, -⟩ := exists_way_of_lead hq hc hway
  exact h earlier he

/-- The first place from `place` on where the pattern matches, and the text on the way to it. -/
def find? (q : Pattern) (place : Place) : Option (Text × Place) :=
  go false place.before place.ahead []
where
  /-- `hopeless` tells that the pattern is known not to match at the place; `seen` holds the
  characters passed over, last one first. -/
  go (hopeless : Bool) (before : Option Char) : Text → Text → Option (Text × Place)
    | [], seen =>
        if ! hopeless && q.matchesAt ⟨before, []⟩ then some (seen.reverse, ⟨before, []⟩) else none
    | c :: t, seen =>
        if ! hopeless && q.matchesAt ⟨before, c :: t⟩ then some (seen.reverse, ⟨before, c :: t⟩)
        else go (q.lead?.any (· c)) (some c) t (c :: seen)

theorem find?_go_eq_seek?_go {q : Pattern} {hopeless : Bool} {before : Option Char} {t seen : Text}
    (h : hopeless = true → q.matchesAt ⟨before, t⟩ = false) :
    find?.go q hopeless before t seen = Place.seek?.go q.matchesAt before t seen := by
  have test : (! hopeless && q.matchesAt ⟨before, t⟩) = q.matchesAt ⟨before, t⟩ := by
    cases hopeless with
    | false => rfl
    | true => simp [h rfl]
  induction t generalizing hopeless before seen with
  | nil => rw [find?.go, Place.seek?.go, test]
  | cons c t ih =>
      rw [find?.go, Place.seek?.go, test]
      cases hm : q.matchesAt ⟨before, c :: t⟩ with
      | true => rfl
      | false =>
          have next : q.lead?.any (· c) = true → q.matchesAt ⟨some c, t⟩ = false := by
            cases hp : q.lead? with
            | none => simp
            | some p => exact fun hc => matchesAt_eq_false_of_lead hp hc hm
          refine ih next ?_
          cases hl : q.lead?.any (· c) with
          | false => rfl
          | true => simp [next hl]

theorem find?_eq_seek? (q : Pattern) (place : Place) :
    q.find? place = place.seek? q.matchesAt := find?_go_eq_seek?_go (by simp)

end TagTemplate.Pattern
