import TagTemplate.Text.Basic

/-!
# Patterns

A pattern is matched at a place of a text. It may match there in several ways, which are listed
by preference: repetition and options take as much as they can first. A place knows the
character before it, so that a pattern can ask for the start of a line.
-/

namespace TagTemplate

/-- A place in a text: the character before it, if there is one, and the text ahead. -/
structure Place where
  before : Option Char
  ahead : Text
deriving DecidableEq, Repr, Inhabited

namespace Place

def start (t : Text) : Place := ⟨none, t⟩

def startsLine (place : Place) : Bool := place.before.all (· == '\n')

/-- The first place from `place` on that satisfies `p`, and the text on the way to it. -/
def seek? (p : Place → Bool) (place : Place) : Option (Text × Place) :=
  go place.before place.ahead []
where
  /-- `seen` holds the characters passed over, last one first. -/
  go (before : Option Char) : Text → Text → Option (Text × Place)
    | [], seen => if p ⟨before, []⟩ then some (seen.reverse, ⟨before, []⟩) else none
    | c :: t, seen =>
        if p ⟨before, c :: t⟩ then some (seen.reverse, ⟨before, c :: t⟩)
        else go (some c) t (c :: seen)

theorem seek?_go_append {p : Place → Bool} {before : Option Char} {t seen text : Text}
    {place : Place} (h : seek?.go p before t seen = some (text, place)) :
    text ++ place.ahead = seen.reverse ++ t ∧ p place = true := by
  fun_induction seek?.go p before t seen with
  | case1 before seen hp =>
      cases h
      exact ⟨rfl, hp⟩
  | case2 => cases h
  | case3 before seen c t hp =>
      cases h
      exact ⟨rfl, hp⟩
  | case4 before seen c t hp ih => simpa using ih h

theorem seek?_append {p : Place → Bool} {place found : Place} {text : Text}
    (h : place.seek? p = some (text, found)) :
    text ++ found.ahead = place.ahead ∧ p found = true := by
  simpa using seek?_go_append h

end Place

inductive Pattern where
  | empty
  | textStart
  | lineStart
  | char (p : Char → Bool)
  /-- As many characters of a class as there are, or fewer. -/
  | many (p : Char → Bool)
  /-- The same, but at least one character. -/
  | someOf (p : Char → Bool)
  | option (q : Pattern)
  /-- The pattern, its text kept under a number. -/
  | group (number : Nat) (q : Pattern)
  | seq (q r : Pattern)
  /-- Either pattern, the first one if both match. -/
  | alt (q r : Pattern)

namespace Pattern

def literal : Text → Pattern
  | [] => empty
  | c :: t => seq (char (· == c)) (literal t)

def groupCount : Pattern → Nat
  | option q => q.groupCount
  | group number q => max number q.groupCount
  | seq q r | alt q r => max q.groupCount r.groupCount
  | _ => 0

structure Span where
  start : Place
  stop : Place
deriving DecidableEq, Repr, Inhabited

def Span.text (span : Span) : Text :=
  span.start.ahead.take (span.start.ahead.length - span.stop.ahead.length)

/-- Spans of the groups that took part in a match, by number. -/
abbrev Groups := List (Nat × Span)

/-- One way to match: where it ends, and what its groups hold. -/
structure Way where
  stop : Place
  groups : Groups := []
deriving DecidableEq, Repr, Inhabited

/-- The places to which a class can be repeated, the farthest first, before those in `nearer`. -/
def repeats (p : Char → Bool) (before : Option Char) : Text → List Place → List Place
  | [], nearer => ⟨before, []⟩ :: nearer
  | c :: t, nearer =>
      if p c then repeats p c t (⟨before, c :: t⟩ :: nearer) else ⟨before, c :: t⟩ :: nearer

/-- All ways to match at a place, by preference. -/
def ways : Pattern → Place → List Way
  | empty, place => [⟨place, []⟩]
  | textStart, place => if place.before.isNone then [⟨place, []⟩] else []
  | lineStart, place => if place.startsLine then [⟨place, []⟩] else []
  | char p, place =>
      match place.ahead with
      | [] => []
      | c :: t => if p c then [⟨⟨c, t⟩, []⟩] else []
  | many p, place => (repeats p place.before place.ahead []).map (⟨·, []⟩)
  | someOf p, place => (repeats p place.before place.ahead []).dropLast.map (⟨·, []⟩)
  | option q, place => q.ways place ++ [⟨place, []⟩]
  | group number q, place =>
      (q.ways place).map fun way =>
        { way with groups := way.groups ++ [(number, ⟨place, way.stop⟩)] }
  | seq q r, place =>
      (q.ways place).flatMap fun first =>
        (r.ways first.stop).map fun second =>
          { second with groups := first.groups ++ second.groups }
  | alt q r, place => q.ways place ++ r.ways place

def match? (q : Pattern) (place : Place) : Option Way := (q.ways place).head?

def matchesAt (q : Pattern) (place : Place) : Bool := (q.match? place).isSome

def Reaches (start stop : Place) : Prop := stop.ahead <:+ start.ahead

/-- The text of a span, put before what follows it, is the text ahead. -/
theorem Span.text_append {span : Span} (h : Reaches span.start span.stop) :
    span.text ++ span.stop.ahead = span.start.ahead := by
  obtain ⟨piece, h⟩ := h
  simp [Span.text, ← h]

theorem reaches_of_mem_repeats {p : Char → Bool} {before : Option Char} {t whole : Text}
    {nearer : List Place} {place : Place} (ht : t <:+ whole)
    (hn : ∀ q ∈ nearer, q.ahead <:+ whole) (h : place ∈ repeats p before t nearer) :
    place.ahead <:+ whole := by
  induction t generalizing before nearer with
  | nil =>
      rcases List.mem_cons.mp h with rfl | h
      · exact ht
      · exact hn _ h
  | cons c t ih =>
      have hcons : ∀ q ∈ (⟨before, c :: t⟩ : Place) :: nearer, q.ahead <:+ whole := by
        intro q hq
        rcases List.mem_cons.mp hq with rfl | hq
        · exact ht
        · exact hn _ hq
      unfold repeats at h
      split at h
      · exact ih ((List.suffix_cons c t).trans ht) hcons h
      · exact hcons _ h

theorem reaches_of_mem_ways {q : Pattern} {place : Place} {way : Way} (h : way ∈ q.ways place) :
    Reaches place way.stop := by
  unfold Reaches
  induction q generalizing place way with
  | empty | textStart | lineStart =>
      simp only [ways] at h
      try split at h
      all_goals simp_all
  | char p =>
      simp only [ways] at h
      split at h
      · simp at h
      · rename_i c t ha
        split at h
        · obtain rfl : way = _ := by simpa using h
          rw [ha]
          exact List.suffix_cons c t
        · simp at h
  | many p =>
      simp only [ways, List.mem_map] at h
      obtain ⟨stop, hs, rfl⟩ := h
      exact reaches_of_mem_repeats (List.suffix_refl _) (by simp) hs
  | someOf p =>
      simp only [ways, List.mem_map] at h
      obtain ⟨stop, hs, rfl⟩ := h
      exact reaches_of_mem_repeats (List.suffix_refl _) (by simp) (List.dropLast_subset _ hs)
  | option q ih =>
      simp only [ways, List.mem_append, List.mem_singleton] at h
      rcases h with h | rfl
      · exact ih h
      · exact List.suffix_refl _
  | group number q ih =>
      simp only [ways, List.mem_map] at h
      obtain ⟨inner, hi, rfl⟩ := h
      exact @ih place inner hi
  | seq q r ihq ihr =>
      simp only [ways, List.mem_flatMap, List.mem_map] at h
      obtain ⟨first, hf, second, hs, rfl⟩ := h
      exact (@ihr first.stop second hs).trans (ihq hf)
  | alt q r ihq ihr =>
      simp only [ways, List.mem_append] at h
      rcases h with h | h
      · exact ihq h
      · exact ihr h

theorem reaches_of_match? {q : Pattern} {place : Place} {way : Way}
    (h : q.match? place = some way) : Reaches place way.stop :=
  reaches_of_mem_ways (List.mem_of_mem_head? h)

end Pattern

end TagTemplate
