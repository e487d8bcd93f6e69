import TagTemplate.Proofs.Assembly.Walk
import TagTemplate.Proofs.Evaluation
import TagTemplate.Proofs.Occurrence.Lines
import TagTemplate.Proofs.Occurrence.Sections
import TagTemplate.Proofs.Occurrence.Spans

/-!
# The source of a section

A section keeps the text of its body and the pair that was in force at its closing tag. Both are
told from the template and its tags: the text from where the opening tag stops erasing to the
closing tag's marker, and the pair that the last directive before that marker has set.
-/

namespace TagTemplate

open Text Occurrence

def Node.sectionData? : Node → Option (Bool × Path × String × Delimiters)
  | block inverted callee _ raw d => some (inverted, callee, raw, d)
  | _ => none

/-- What the template shows of a section with the given opening and closing tag. -/
def Occurrence.sectionData? (d : Delimiters) (t : Text) (tags : List Occurrence)
    (opening closing : Occurrence) : Option (Bool × Path × String × Delimiters) :=
  match opening.opened? with
  | some (inverted, name) => some (inverted, .ofText name,
      String.ofList (slice (opening.eraseStop t) closing.start t), pairBefore d tags closing.start)
  | none => none

/-- The opening tag and the closing tag have one name, and the section's text lies between them. -/
structure Occurrence.Encloses (t : Text) (opening closing : Occurrence) : Prop where
  same_name : ∃ inverted name, opening.directive = .openBlock inverted name ∧
    closing.directive = .closeBlock name
  eraseStop_le_start : opening.eraseStop t ≤ closing.start

/-! ## One section -/

section Block

variable {d : Delimiters} {template : Text} {before body after : List Lexeme}
  {opening closing : Tag}

theorem start_closing (before body : List Lexeme) (opening closing : Tag) :
    (ofTag (size (sourceOf before) + size opening.source + size (sourceOf body)) closing).start =
      size (sourceOf before) + size opening.source + size (sourceOf body ++ closing.indent) := by
  rw [size_append]
  simp only [ofTag]
  omega

variable [MarkerLimits]

theorem encloses_of_block {inverted : Bool} {name : Text} (hd : d.Valid ∧ d.withinLimit = true)
    (h : Lexes d true template (before ++ .tag opening :: body ++ .tag closing :: after))
    (hopen : opening.directive = .openBlock inverted name)
    (hclose : closing.directive = .closeBlock name) :
    Encloses template (ofTag (size (sourceOf before)) opening)
      (ofTag (size (sourceOf before) + size opening.source + size (sourceOf body)) closing) := by
  rw [List.append_assoc] at h
  exact {
    same_name := ⟨inverted, name, hopen, hclose⟩
    eraseStop_le_start := by
      rw [eraseStop_ofTag hd h, start_closing]
      omega }

theorem slice_of_block (hd : d.Valid ∧ d.withinLimit = true)
    (h : Lexes d true template (before ++ .tag opening :: body ++ .tag closing :: after)) :
    slice ((ofTag (size (sourceOf before)) opening).eraseStop template)
      (ofTag (size (sourceOf before) + size opening.source + size (sourceOf body)) closing).start
      template = sourceOf body ++ closing.indent := by
  have htemplate : template = (sourceOf before ++ opening.source) ++
      (sourceOf body ++ closing.indent) ++
        (closing.written ++ closing.lineBreak ++ sourceOf after) := by
    rw [← h.sourceOf_eq]
    simp [Lexeme.source, closing.source_eq]
  have hslice := slice_append (sourceOf before ++ opening.source) (sourceOf body ++ closing.indent)
    (closing.written ++ closing.lineBreak ++ sourceOf after)
  rw [List.append_assoc] at h
  rw [eraseStop_ofTag hd h, start_closing]
  rw [← htemplate, size_append (sourceOf before)] at hslice
  exact hslice

theorem sectionData?_of_block {inverted : Bool} {name : Text}
    (hd : d.Valid ∧ d.withinLimit = true)
    (h : Lexes d true template (before ++ .tag opening :: body ++ .tag closing :: after))
    (hopen : opening.directive = .openBlock inverted name) :
    sectionData? d template (listFrom 0 (before ++ .tag opening :: body ++ .tag closing :: after))
      (ofTag (size (sourceOf before)) opening)
      (ofTag (size (sourceOf before) + size opening.source + size (sourceOf body)) closing) =
      some (inverted, .ofText name, String.ofList (sourceOf body ++ closing.indent),
        closing.delimiters) := by
  have hopened : (ofTag (size (sourceOf before)) opening).opened? = some (inverted, name) := by
    simp [opened?, ofTag, hopen]
  have hoffset : size (sourceOf before) + size opening.source + size (sourceOf body) =
      size (sourceOf (before ++ .tag opening :: body)) := by
    simp [Lexeme.source, Nat.add_assoc]
  have hpair := pairBefore_ofTag hd h
  rw [sectionData?, hopened, slice_of_block hd h, hoffset, hpair, (h.placed hd).delimiters_eq]

end Block

/-! ## All sections -/

theorem sectionData?_eq_none_of_not_isBlock {node : Node} (h : node.isBlock = false) :
    node.sectionData? = none := by
  cases node with
  | block => cases h
  | multi | static | interpolation | partialRef => rfl

theorem filterMap_sectionData?_filter (nodes : List Node) :
    (nodes.filter Node.isBlock).filterMap Node.sectionData? =
      nodes.filterMap Node.sectionData? := by
  induction nodes with
  | nil => rfl
  | cons node nodes ih =>
      cases hblock : node.isBlock with
      | true => simp [hblock, ih, List.filterMap_cons]
      | false => simp [hblock, ih, sectionData?_eq_none_of_not_isBlock]

theorem filterMap_eq_of_forall₂ {α β γ : Type} {f : α → Option γ} {g : β → Option γ} {xs : List α}
    {ys : List β} (h : List.Forall₂ (fun x y => f x = g y) xs ys) :
    xs.filterMap f = ys.filterMap g := by
  induction h with
  | nil => rfl
  | cons hxy _ ih => rw [List.filterMap_cons, List.filterMap_cons, hxy, ih]

section

variable [MarkerLimits]

theorem Forms.sections_eq {d : Delimiters} {template : Text} {lexemes : List Lexeme}
    {nodes : List Node} (hd : d.Valid ∧ d.withinLimit = true) (h : Forms lexemes nodes)
    (hlexes : Lexes d true template lexemes) :
    (∀ s ∈ sections (listFrom 0 lexemes), Encloses template s.1 s.2) ∧
      (Node.walkAll nodes).filterMap Node.sectionData? =
        (sections (listFrom 0 lexemes)).filterMap
          fun s => sectionData? d template (listFrom 0 lexemes) s.1 s.2 := by
  have hall : List.Forall₂ (fun node s => Encloses template s.1 s.2 ∧
        sectionData? d template (listFrom 0 lexemes) s.1 s.2 = node.sectionData?)
      ((Node.walkAll nodes).filter Node.isBlock) (sections (listFrom 0 lexemes)) := by
    refine h.forall₂_sections ?_ [] [] (List.append_nil lexemes).symm
    intro before after body inner opening closing inverted name hall hopen hclose _
    rw [hall] at hlexes ⊢
    exact ⟨encloses_of_block hd hlexes hopen hclose, sectionData?_of_block hd hlexes hopen⟩
  obtain ⟨hencloses, hdata⟩ := (List.forall₂_and_left _ _).mp hall.flip
  rw [← filterMap_sectionData?_filter, ← filterMap_eq_of_forall₂ hdata]
  exact ⟨hencloses, rfl⟩

/-- Every section of a compiled template belongs to an opening tag and its closing tag. It keeps
the template's text from where the opening tag stops erasing to the closing marker's place, and
the pair set last before that place. -/
theorem sections_of_compile {d : Delimiters} {template : String} {root : Node}
    (hd : d.Valid) (h : compile d template = .ok root) :
    (sections (Occurrence.list d template)).map Prod.fst =
        (Occurrence.list d template).filter (·.opened?.isSome) ∧
      (∀ s ∈ sections (Occurrence.list d template), Encloses template.toList s.1 s.2) ∧
      root.walk.filterMap Node.sectionData? =
        (sections (Occurrence.list d template)).filterMap fun s =>
          sectionData? d template.toList (Occurrence.list d template) s.1 s.2 := by
  obtain ⟨hlimit, hread, nodes, rfl, hforms⟩ := compile_eq_ok_iff.mp h
  have hlexes : Lexes d true template.toList (Lexemes.read d template.toList).lexemes :=
    Lexes.of_readFrom hread
  have hsections := hforms.sections_eq ⟨hd, hlimit⟩ hlexes
  refine ⟨hforms.map_fst_sections 0, hsections.1, ?_⟩
  rw [Node.walk_multi, List.filterMap_cons]
  exact hsections.2

end

/-- A section whose body changes the pair keeps the pair of its closing tag. -/
theorem sections_of_compile_change :
    ∃ template root, template = "\x7b\x7b#a\x7d\x7d\n\x7b\x7b=<% %>=\x7d\x7dx\n <%/a%>\n" ∧
      root = .multi [.block false (.ofText ['a']) [.static "x\n"]
        "\x7b\x7b=<% %>=\x7d\x7dx\n " ⟨"<%", "%>"⟩] ∧
      compile .standard template = .ok root ∧
      root.walk.filterMap Node.sectionData? =
        (sections (Occurrence.list .standard template)).filterMap fun s =>
          sectionData? .standard template.toList (Occurrence.list .standard template) s.1 s.2 := by
  have h : compile .standard "\x7b\x7b#a\x7d\x7d\n\x7b\x7b=<% %>=\x7d\x7dx\n <%/a%>\n" =
      .ok (.multi [.block false (.ofText ['a']) [.static "x\n"]
        "\x7b\x7b=<% %>=\x7d\x7dx\n " ⟨"<%", "%>"⟩]) := by
    rw [compile_eq_evaluate]
    rfl
  have hall := sections_of_compile Delimiters.standard_valid h
  exact ⟨_, _, rfl, rfl, h, hall.2.2⟩

end TagTemplate
