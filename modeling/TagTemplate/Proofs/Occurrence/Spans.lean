import TagTemplate.Proofs.Occurrence.Basic

/-!
# Spans of occurrences

The span of a tag runs from an opening marker to a closing one, and the markers are those that the
last directive before it has set. Spans follow each other without overlap.
-/

namespace TagTemplate.Occurrence

open Text

def pair? (o : Occurrence) : Option Delimiters :=
  match o.directive with
  | .setDelimiters _ pair => some pair
  | _ => none

def pairs (d : Delimiters) (tags : List Occurrence) : List Delimiters := d :: tags.filterMap pair?

/-- The pair set by the last of the tags that set one, or `d` if none does. -/
def pairAtEnd (d : Delimiters) (tags : List Occurrence) : Delimiters :=
  (tags.filterMap pair?).getLast?.getD d

/-- The pair set last by the tags that stand before an offset. -/
def pairBefore (d : Delimiters) (tags : List Occurrence) (n : Nat) : Delimiters :=
  pairAtEnd d (tags.filter (·.start < n))

/-- The occurrence is a piece of the template between two markers of the pair in force. -/
structure Spans (d : Delimiters) (t : Text) (tags : List Occurrence) (o : Occurrence) : Prop where
  start_lt_stop : o.start < o.stop
  stop_le : o.stop ≤ size t
  starts_opener : o.delimiters.opener.toList <+: slice o.start o.stop t
  ends_closer : o.delimiters.closer.toList <:+ slice o.start o.stop t
  delimiters_eq : o.delimiters = pairBefore d tags o.start

/-! ## The pair in force -/

theorem pairAtEnd_listFrom (d : Delimiters) (offset : Nat) (lexemes : List Lexeme) :
    pairAtEnd d (listFrom offset lexemes) = pairAfter d lexemes := by
  induction lexemes generalizing d offset with
  | nil => rfl
  | cons lexeme lexemes ih =>
      cases lexeme with
      | text t => exact ih d _
      | tag tag =>
          rw [pairAfter_cons, ← ih _ (offset + size tag.source), delimitersAfter_tag, listFrom,
            pairAtEnd, pairAtEnd, List.filterMap_cons]
          cases hd : tag.directive with
          | setDelimiters text pair =>
              have hpair : pair? (ofTag offset tag) = some pair := by
                simp [pair?, ofTag, hd]
              rw [hpair, List.getLast?_cons]
              rfl
          | interpolation | comment | partialRef | openBlock | closeBlock =>
              have hpair : pair? (ofTag offset tag) = none := by
                simp [pair?, ofTag, hd]
              rw [hpair]

theorem pairAtEnd_mem_pairs (d : Delimiters) (tags : List Occurrence) :
    pairAtEnd d tags ∈ pairs d tags := by
  unfold pairAtEnd pairs
  cases h : (tags.filterMap pair?).getLast? with
  | none => exact List.mem_cons_self
  | some pair => exact List.mem_cons_of_mem _ (List.mem_of_getLast? h)

theorem pairAfter_mem_pairs (d : Delimiters) (before after : List Lexeme) :
    pairAfter d before ∈ pairs d (listFrom 0 (before ++ after)) := by
  have hmem := pairAtEnd_mem_pairs d (listFrom 0 before)
  rw [pairAtEnd_listFrom] at hmem
  rw [listFrom_append, pairs, List.filterMap_append]
  rcases List.mem_cons.mp hmem with h | h
  · rw [h]
    exact List.mem_cons_self
  · exact List.mem_cons_of_mem _ (List.mem_append_left _ h)

variable [MarkerLimits]

section InPlace

variable {d : Delimiters} {template : Text} {before after : List Lexeme} {tag : Tag}

theorem written_ne_nil (hd : d.Valid ∧ d.withinLimit = true)
    (h : Lexes d true template (before ++ .tag tag :: after)) : tag.written ≠ [] := by
  intro hnil
  have hstarts := (h.placed hd).starts_opener
  rw [hnil, List.prefix_nil] at hstarts
  have hmarker := (h.valid_pairAfter_left hd).1.1
  rw [hstarts] at hmarker
  cases hmarker

theorem filter_start_lt (hd : d.Valid ∧ d.withinLimit = true)
    (h : Lexes d true template (before ++ .tag tag :: after)) :
    (listFrom 0 (before ++ .tag tag :: after)).filter
      (·.start < (ofTag (size (sourceOf before)) tag).start) = listFrom 0 before := by
  have hleft : ∀ o ∈ listFrom 0 before,
      o.start < (ofTag (size (sourceOf before)) tag).start := by
    intro o ho
    obtain ⟨before', tag', after', rfl, rfl⟩ := mem_listFrom_iff.mp ho
    have hne := written_ne_nil hd (by simpa using h)
    have hpos : size tag'.written ≠ 0 := fun hzero => hne (size_eq_zero_iff.mp hzero)
    simp only [ofTag, sourceOf_append, sourceOf_cons, Lexeme.source, tag'.source_eq, size_append]
    omega
  have hright : ∀ o ∈ listFrom (size (sourceOf before)) (.tag tag :: after),
      ¬ o.start < (ofTag (size (sourceOf before)) tag).start := by
    intro o ho
    rcases List.mem_cons.mp ho with rfl | ho
    · omega
    · have := (bounds_of_mem_listFrom ho).1
      simp only [ofTag, tag.source_eq, size_append] at this ⊢
      omega
  have hkeep : (listFrom 0 before).filter
      (·.start < (ofTag (size (sourceOf before)) tag).start) = listFrom 0 before := by
    apply List.filter_eq_self.mpr
    intro o ho
    exact decide_eq_true (hleft o ho)
  have hdrop : (listFrom (size (sourceOf before)) (.tag tag :: after)).filter
      (·.start < (ofTag (size (sourceOf before)) tag).start) = [] := by
    apply List.filter_eq_nil_iff.mpr
    intro o ho
    simpa using hright o ho
  rw [listFrom_append, Nat.zero_add, List.filter_append, hkeep, hdrop, List.append_nil]

/-- The pair in force at a tag is told from the tags before it. -/
theorem pairBefore_ofTag (hd : d.Valid ∧ d.withinLimit = true)
    (h : Lexes d true template (before ++ .tag tag :: after)) :
    pairBefore d (listFrom 0 (before ++ .tag tag :: after))
      (ofTag (size (sourceOf before)) tag).start = pairAfter d before := by
  rw [pairBefore, filter_start_lt hd h, pairAtEnd_listFrom]

theorem slice_ofTag (h : Lexes d true template (before ++ .tag tag :: after)) :
    slice (ofTag (size (sourceOf before)) tag).start (ofTag (size (sourceOf before)) tag).stop
      template = tag.written := by
  have htemplate : template = (sourceOf before ++ tag.indent) ++ tag.written ++
      (tag.lineBreak ++ sourceOf after) := by
    rw [← h.sourceOf_eq, sourceOf_append, sourceOf_cons, Lexeme.source, tag.source_eq]
    simp
  have hslice := slice_append (sourceOf before ++ tag.indent) tag.written
    (tag.lineBreak ++ sourceOf after)
  rw [← htemplate, size_append] at hslice
  exact hslice

end InPlace

theorem spans_of_mem {d : Delimiters} {template : Text} {lexemes : List Lexeme} {o : Occurrence}
    (hd : d.Valid ∧ d.withinLimit = true) (h : Lexes d true template lexemes)
    (ho : o ∈ listFrom 0 lexemes) : o.Spans d template (listFrom 0 lexemes) := by
  have hbounds := bounds_of_mem_listFrom ho
  obtain ⟨before, tag, after, rfl, rfl⟩ := mem_listFrom_iff.mp ho
  rw [Nat.zero_add] at hbounds ho ⊢
  have hplaced := h.placed hd
  have hpos : size tag.written ≠ 0 := fun hzero =>
    written_ne_nil hd h (size_eq_zero_iff.mp hzero)
  have hdelimiters : (ofTag (size (sourceOf before)) tag).delimiters = pairAfter d before :=
    hplaced.delimiters_eq
  exact {
    start_lt_stop := by
      simp only [ofTag]
      omega
    stop_le := by
      rw [← h.sourceOf_eq]
      omega
    starts_opener := by
      rw [hdelimiters, slice_ofTag h]
      exact hplaced.starts_opener
    ends_closer := by
      rw [hdelimiters, slice_ofTag h]
      exact hplaced.ends_closer
    delimiters_eq := by rw [hdelimiters, pairBefore_ofTag hd h] }

end TagTemplate.Occurrence
