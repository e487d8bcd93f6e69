import TagTemplate.Proofs.Assembly.Grammar
import TagTemplate.Proofs.Node.Walk

/-!
# Walks over assembled trees

Apart from sections, the nodes of a tree are those that its lexemes make by themselves, in the same
order.
-/

namespace TagTemplate

/-- The nodes without children that a lexeme makes. -/
def Lexeme.leaves : Lexeme → List Node
  | text t => staticNodes t
  | tag t => staticNodes t.kept ++ t.leaves

theorem Lexeme.mem_leaves {lexeme : Lexeme} {node : Node} (h : node ∈ lexeme.leaves) :
    (∃ text, node = .static text) ∨
      (∃ escape callee args, node = .interpolation escape callee args) ∨
        ∃ name padding, node = .partialRef name padding := by
  have hstatic : ∀ t, node ∈ staticNodes t → ∃ text, node = .static text := by
    intro t hmem
    unfold staticNodes at hmem
    split at hmem
    · cases hmem
    · exact ⟨_, List.mem_singleton.mp hmem⟩
  cases lexeme with
  | text t => exact .inl (hstatic t h)
  | tag tag =>
      rcases List.mem_append.mp h with h | h
      · exact .inl (hstatic _ h)
      · unfold Tag.leaves at h
        split at h
        · exact .inr (.inl ⟨_, _, _, List.mem_singleton.mp h⟩)
        · exact .inr (.inr ⟨_, _, List.mem_singleton.mp h⟩)
        · cases h

theorem walkAll_leaves (lexeme : Lexeme) : Node.walkAll lexeme.leaves = lexeme.leaves := by
  apply Node.walkAll_of_children_eq_nil
  intro node hmem
  rcases Lexeme.mem_leaves hmem with ⟨_, rfl⟩ | ⟨_, _, _, rfl⟩ | ⟨_, _, rfl⟩
  · rfl
  · rfl
  · rfl

theorem leaves_of_closing {closing : Tag} {name : Text}
    (h : closing.directive = .closeBlock name) :
    (Lexeme.tag closing).leaves = staticNodes closing.kept := by
  simp [Lexeme.leaves, Tag.leaves, h]

theorem leaves_of_opening {opening : Tag} {inverted : Bool} {name : Text}
    (h : opening.directive = .openBlock inverted name) :
    (Lexeme.tag opening).leaves = staticNodes opening.kept := by
  simp [Lexeme.leaves, Tag.leaves, h]

theorem walkAll_block {opening closing : Tag} {inverted : Bool} {name : Text}
    (hopen : opening.directive = .openBlock inverted name)
    (hclose : closing.directive = .closeBlock name) (inner nodes : List Node) (raw : String)
    (d : Delimiters) :
    Node.walkAll (staticNodes opening.kept ++ .block inverted (.ofText name)
        (inner ++ staticNodes closing.kept) raw d :: nodes) =
      (Lexeme.tag opening).leaves ++
        .block inverted (.ofText name) (inner ++ (Lexeme.tag closing).leaves) raw d ::
          (Node.walkAll inner ++ (Lexeme.tag closing).leaves ++ Node.walkAll nodes) := by
  rw [Node.walkAll_append, Node.walkAll_cons_block, Node.walkAll_append, ← leaves_of_opening hopen,
    ← leaves_of_closing hclose, walkAll_leaves, walkAll_leaves]

/-- The kind and the name of the section that a lexeme opens. -/
def Lexeme.opened? : Lexeme → Option (Bool × Text)
  | tag { directive := .openBlock inverted name, .. } => some (inverted, name)
  | _ => none

theorem opened?_of_opening {opening : Tag} {inverted : Bool} {name : Text}
    (h : opening.directive = .openBlock inverted name) :
    (Lexeme.tag opening).opened? = some (inverted, name) := by
  obtain ⟨_, _, _, _, _, _, _, _⟩ := opening
  cases h
  rfl

theorem opened?_of_leaf {tag : Tag} (h : tag.directive.isBoundary = false) :
    (Lexeme.tag tag).opened? = none := by
  obtain ⟨_, _, _, _, _, directive, _, _⟩ := tag
  cases directive with
  | openBlock | closeBlock => cases h
  | interpolation | comment | setDelimiters | partialRef => rfl

theorem opened?_of_closing {closing : Tag} {name : Text}
    (h : closing.directive = .closeBlock name) : (Lexeme.tag closing).opened? = none := by
  obtain ⟨_, _, _, _, _, _, _, _⟩ := closing
  cases h
  rfl

/-- A query finds in a tree what it finds lexeme by lexeme, if it tells of a section no more than
the section's opening tag does. -/
theorem Forms.flatMap_walkAll_eq {β : Type} {lexemes : List Lexeme} {nodes : List Node}
    (h : Forms lexemes nodes) (query : Node → List β) (opens : Bool × Text → List β)
    (hblock : ∀ inverted name body raw d,
      query (.block inverted (.ofText name) body raw d) = opens (inverted, name)) :
    (Node.walkAll nodes).flatMap query = lexemes.flatMap fun x =>
      x.leaves.flatMap query ++ x.opened?.toList.flatMap opens := by
  have hleaves : ∀ x : Lexeme, x.opened? = none → ∀ nodes,
      (Node.walkAll (x.leaves ++ nodes)).flatMap query =
        x.leaves.flatMap query ++ x.opened?.toList.flatMap opens ++
          (Node.walkAll nodes).flatMap query := by
    intro x hx nodes
    rw [Node.walkAll_append, walkAll_leaves, List.flatMap_append, hx]
    simp
  induction h with
  | nil => rfl
  | @text t lexemes nodes _ ih =>
      rw [List.flatMap_cons, ← ih]
      exact hleaves (.text t) rfl nodes
  | @leaf tag lexemes nodes hleaf _ ih =>
      rw [List.flatMap_cons, ← ih]
      exact hleaves (.tag tag) (opened?_of_leaf hleaf) nodes
  | @block opening closing inverted name body lexemes inner nodes hopen hclose _ _ ihbody ih =>
      rw [walkAll_block hopen hclose, List.flatMap_append, List.flatMap_cons, hblock,
        List.flatMap_append, List.flatMap_append, ihbody, ih]
      simp [opened?_of_opening hopen, opened?_of_closing hclose]

/-- A query that passes over sections finds in a tree what it finds lexeme by lexeme. -/
theorem Forms.flatMap_walkAll {β : Type} {lexemes : List Lexeme} {nodes : List Node}
    (h : Forms lexemes nodes) (query : Node → List β)
    (hblock : ∀ inverted callee body raw d, query (.block inverted callee body raw d) = []) :
    (Node.walkAll nodes).flatMap query = lexemes.flatMap fun x => x.leaves.flatMap query := by
  have hopens : ∀ sections : List (Bool × Text), sections.flatMap (fun _ => ([] : List β)) = [] :=
    fun _ => List.flatMap_eq_nil_iff.mpr fun _ _ => rfl
  rw [h.flatMap_walkAll_eq query (fun _ => []) fun _ _ _ _ _ => hblock _ _ _ _ _]
  simp only [hopens, List.append_nil]

end TagTemplate
