import TagTemplate.Proofs.Assembly.Outline
import TagTemplate.Proofs.SectionSource

/-!
# Compiling the text of a section again

The raw text of a section is a template of its own, to be read with the pair that was in force at
the section's opening tag. It compiles to what the section holds, up to literal text, paddings and
raw texts: a line may start and end elsewhere when the text stands alone.
-/

namespace TagTemplate

open Text Occurrence

section

variable [MarkerLimits]

/-- Compiled with the pair `d`, the raw text of the section gives a tree with the outline of its
body. -/
def Node.Recompiles (d : Delimiters) : Node → Prop
  | block _ _ body raw _ =>
      ∃ root, compile d raw = .ok root ∧ outlineAll root.children = outlineAll body
  | _ => False

theorem exists_lexes_of_block {d : Delimiters} {template : Text} {before body after : List Lexeme}
    {opening closing : Tag} {inverted : Bool} {name : Text} (hd : d.Valid ∧ d.withinLimit = true)
    (h : Lexes d true template (before ++ .tag opening :: body ++ .tag closing :: after))
    (hopen : opening.directive = .openBlock inverted name) :
    ∃ lexemes, Lexes (pairAfter d before) true (sourceOf body ++ closing.indent) lexemes ∧
      lexemes.filterMap Lexeme.core? = body.filterMap Lexeme.core? := by
  have hsplit : before ++ .tag opening :: body ++ .tag closing :: after =
      (before ++ [.tag opening]) ++ (body ++ .tag closing :: after) := by simp
  have hpair : pairAfter d (before ++ [.tag opening]) = pairAfter d before := by
    simp [pairAfter_append, delimitersAfter_tag, hopen]
  rw [hsplit] at h
  have hvalid := h.valid_pairAfter_left hd
  have hrest := h.drop
  rw [hpair] at hvalid hrest
  exact hrest.truncates hvalid hrest (List.nil_append _).symm (.inl ⟨rfl, fun _ => rfl⟩)

theorem recompiles_of_block {d : Delimiters} {template : Text} {before body after : List Lexeme}
    {inner : List Node} {opening closing : Tag} {inverted : Bool} {name : Text}
    (hd : d.Valid ∧ d.withinLimit = true)
    (h : Lexes d true template (before ++ .tag opening :: body ++ .tag closing :: after))
    (hopen : opening.directive = .openBlock inverted name) (hbody : Forms body inner) :
    Node.Recompiles (pairAfter d before) (.block inverted (.ofText name)
      (inner ++ staticNodes closing.kept) (String.ofList (sourceOf body ++ closing.indent))
      closing.delimiters) := by
  obtain ⟨lexemes, hlexes, hcore⟩ := exists_lexes_of_block hd h hopen
  obtain ⟨nodes, hforms, houtline⟩ := hbody.exists_of_core hcore
  rw [List.append_assoc] at h
  have hlimit := (h.valid_pairAfter_left hd).2
  have hread : Lexemes.read (pairAfter d before)
      (String.ofList (sourceOf body ++ closing.indent)).toList = ⟨lexemes, none⟩ := by
    rw [String.toList_ofList]
    exact hlexes.readFrom_eq
  refine ⟨.multi nodes, compile_eq_ok_iff.mpr ⟨hlimit, ?_, nodes, rfl, ?_⟩, ?_⟩
  · rw [hread]
  · rw [hread]
    exact hforms
  · simp [Node.children, houtline]

theorem Forms.forall₂_recompiles {d : Delimiters} {template : Text} {lexemes : List Lexeme}
    {nodes : List Node} (hd : d.Valid ∧ d.withinLimit = true) (h : Forms lexemes nodes)
    (hlexes : Lexes d true template lexemes) :
    List.Forall₂ (fun node s =>
        node.sectionData? = sectionData? d template (listFrom 0 lexemes) s.1 s.2 ∧
          node.Recompiles (pairBefore d (listFrom 0 lexemes) s.1.start))
      ((Node.walkAll nodes).filter Node.isBlock) (sections (listFrom 0 lexemes)) := by
  refine h.forall₂_sections ?_ [] [] (List.append_nil lexemes).symm
  intro before after body inner opening closing inverted name hall hopen _ hbody
  rw [hall] at hlexes ⊢
  have hdata := sectionData?_of_block hd hlexes hopen
  have hagain := recompiles_of_block hd hlexes hopen hbody
  have htags : before ++ .tag opening :: body ++ .tag closing :: after =
      before ++ .tag opening :: (body ++ .tag closing :: after) := by simp
  rw [htags] at hlexes
  rw [← pairBefore_ofTag hd hlexes, ← htags] at hagain
  exact ⟨hdata.symm, hagain⟩

/-- The text that a section keeps can be compiled by itself, with the pair that was in force at its
opening tag. The tree has the outline of the section's body. -/
theorem recompiles_of_compile {d : Delimiters} {template : String} {root : Node} (hd : d.Valid)
    (h : compile d template = .ok root) :
    List.Forall₂ (fun node s =>
        node.sectionData? =
            sectionData? d template.toList (Occurrence.list d template) s.1 s.2 ∧
          node.Recompiles (pairBefore d (Occurrence.list d template) s.1.start))
      (root.walk.filter Node.isBlock) (sections (Occurrence.list d template)) := by
  obtain ⟨hlimit, hread, nodes, rfl, hforms⟩ := compile_eq_ok_iff.mp h
  rw [Node.walk_multi, List.filter_cons_of_neg (by simp [Node.isBlock])]
  exact hforms.forall₂_recompiles ⟨hd, hlimit⟩ (Lexes.of_readFrom hread)

end

/-- The inner section is read with the pair that the outer one has set. Standing alone, its raw text
begins with an indented partial, which it does not in the template. -/
theorem recompiles_of_compile_nested :
    ∃ template root,
      template = "\x7b\x7b#a\x7d\x7d\n\x7b\x7b=<% %>=\x7d\x7d\n<%^b%> <%>p%>\n<%/b%><%/a%>" ∧
      compile .standard template = .ok root ∧
      List.Forall₂ (fun node s =>
          node.sectionData? =
              sectionData? .standard template.toList (Occurrence.list .standard template) s.1 s.2 ∧
            node.Recompiles (pairBefore .standard (Occurrence.list .standard template) s.1.start))
        (root.walk.filter Node.isBlock) (sections (Occurrence.list .standard template)) := by
  have h : compile .standard
      "\x7b\x7b#a\x7d\x7d\n\x7b\x7b=<% %>=\x7d\x7d\n<%^b%> <%>p%>\n<%/b%><%/a%>" =
      .ok (.multi [.block false (.ofText ['a'])
        [.block true (.ofText ['b']) [.static " ", .partialRef "p" "", .static "\n"]
          " <%>p%>\n" ⟨"<%", "%>"⟩]
        "\x7b\x7b=<% %>=\x7d\x7d\n<%^b%> <%>p%>\n<%/b%>" ⟨"<%", "%>"⟩]) := by
    rw [compile_eq_evaluate]
    rfl
  exact ⟨_, _, rfl, h, recompiles_of_compile Delimiters.standard_valid h⟩

end TagTemplate
