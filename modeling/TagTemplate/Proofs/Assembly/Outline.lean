import TagTemplate.Proofs.Assembly.Walk
import TagTemplate.Proofs.Lexeme.Truncation

/-!
# Outlines of assembled trees

The outline of a tree is what its tags ask for, nested as they are, without literal text, paddings
and raw texts. It depends on what the tags say and on nothing else about the lexemes.
-/

namespace TagTemplate

/-! ## Outlines -/

namespace Node

mutual

/-- The node without literal text, and with empty paddings and raw texts throughout. -/
def outline (node : Node) : List Node :=
  match node with
  | multi nodes => [multi (outlineAll nodes)]
  | static _ => []
  | interpolation escape callee args => [interpolation escape callee args]
  | block inverted callee body _ d => [block inverted callee (outlineAll body) "" d]
  | partialRef name _ => [partialRef name ""]

def outlineAll (nodes : List Node) : List Node :=
  match nodes with
  | [] => []
  | node :: nodes => outline node ++ outlineAll nodes

end

@[simp] theorem outlineAll_cons (node : Node) (nodes : List Node) :
    outlineAll (node :: nodes) = outline node ++ outlineAll nodes := rfl

@[simp] theorem outlineAll_append (nodes nodes' : List Node) :
    outlineAll (nodes ++ nodes') = outlineAll nodes ++ outlineAll nodes' := by
  induction nodes with
  | nil => rfl
  | cons node nodes ih => simp [ih]

@[simp] theorem outlineAll_staticNodes (t : Text) : outlineAll (staticNodes t) = [] := by
  unfold staticNodes
  split
  · rfl
  · rfl

end Node

/-! ## Lexemes that say the same -/

open Node

theorem exists_tag_of_core? {lexeme : Lexeme} {d : Delimiters} {directive : Directive}
    (h : lexeme.core? = some (d, directive)) :
    ∃ tag, lexeme = .tag tag ∧ tag.delimiters = d ∧ tag.directive = directive := by
  cases lexeme with
  | text t => cases h
  | tag tag =>
      cases h
      exact ⟨tag, rfl, rfl, rfl⟩

theorem outlineAll_leaves {tag tag' : Tag} (h : tag'.directive = tag.directive) :
    outlineAll tag'.leaves = outlineAll tag.leaves := by
  unfold Tag.leaves
  rw [h]
  cases tag.directive with
  | interpolation | openBlock | closeBlock | comment | setDelimiters | partialRef => rfl

theorem Forms.exists_of_texts {texts lexemes : List Lexeme} {nodes : List Node}
    (h : Forms lexemes nodes) (htexts : ∀ x ∈ texts, x.core? = none) :
    ∃ nodes', Forms (texts ++ lexemes) nodes' ∧ outlineAll nodes' = outlineAll nodes := by
  induction texts with
  | nil => exact ⟨nodes, h, rfl⟩
  | cons lexeme texts ih =>
      obtain ⟨nodes', hforms, houtline⟩ := ih fun x hx => htexts x (List.mem_cons_of_mem _ hx)
      cases lexeme with
      | text t => exact ⟨_, .text hforms, by simp [houtline]⟩
      | tag tag => cases htexts (.tag tag) List.mem_cons_self

/-- Lexemes whose tags say the same as those of well nested ones are well nested too, and make a
tree of the same outline. -/
theorem Forms.exists_of_core {lexemes lexemes' : List Lexeme} {nodes : List Node}
    (h : Forms lexemes nodes)
    (hcore : lexemes'.filterMap Lexeme.core? = lexemes.filterMap Lexeme.core?) :
    ∃ nodes', Forms lexemes' nodes' ∧ outlineAll nodes' = outlineAll nodes := by
  induction h generalizing lexemes' with
  | nil =>
      have htexts : ∀ x ∈ lexemes', x.core? = none := List.filterMap_eq_nil_iff.mp hcore
      obtain ⟨nodes', hforms, houtline⟩ := Forms.nil.exists_of_texts htexts
      rw [List.append_nil] at hforms
      exact ⟨nodes', hforms, houtline⟩
  | text _ ih =>
      obtain ⟨nodes', hforms, houtline⟩ := ih hcore
      exact ⟨nodes', hforms, by simp [houtline]⟩
  | @leaf tag lexemes nodes hleaf _ ih =>
      obtain ⟨texts, lexeme, rest, rfl, htexts, htag, hrest⟩ := List.filterMap_eq_cons_iff.mp hcore
      obtain ⟨tag', rfl, -, hsame⟩ := exists_tag_of_core? htag
      obtain ⟨nodes', hforms, houtline⟩ := ih hrest
      have hleaf' : tag'.directive.isBoundary = false := by rw [hsame, hleaf]
      obtain ⟨all, hall, hsameOutline⟩ := (Forms.leaf hleaf' hforms).exists_of_texts htexts
      exact ⟨all, hall, by simp [hsameOutline, houtline, outlineAll_leaves hsame]⟩
  | @block opening closing inverted name body lexemes inner nodes hopen hclose _ _ ihbody ih =>
      rw [List.cons_append, List.filterMap_cons, List.filterMap_append,
        List.filterMap_cons] at hcore
      obtain ⟨texts, lexeme, rest, rfl, htexts, htag, hrest⟩ := List.filterMap_eq_cons_iff.mp hcore
      obtain ⟨opening', rfl, -, hopening⟩ := exists_tag_of_core? htag
      obtain ⟨body', rest', rfl, hbody', hrest'⟩ := List.filterMap_eq_append_iff.mp hrest
      obtain ⟨gap, lexeme, lexemes'', rfl, hgap, htag', hlexemes⟩ :=
        List.filterMap_eq_cons_iff.mp hrest'
      obtain ⟨closing', rfl, hpair, hclosing⟩ := exists_tag_of_core? htag'
      -- Runs of text in front of the closing tag belong to the body.
      have hgapNil : gap.filterMap Lexeme.core? = [] := List.filterMap_eq_nil_iff.mpr hgap
      have hwhole : (body' ++ gap).filterMap Lexeme.core? = body.filterMap Lexeme.core? := by
        rw [List.filterMap_append, hbody', hgapNil, List.append_nil]
      obtain ⟨inner', hinner, hinnerOutline⟩ := ihbody hwhole
      obtain ⟨nodes', hforms, houtline⟩ := ih hlexemes
      have hblock := Forms.block (hopening.trans hopen) (hclosing.trans hclose) hinner hforms
      obtain ⟨all, hall, hsameOutline⟩ := hblock.exists_of_texts htexts
      refine ⟨all, by simpa using hall, ?_⟩
      simp [hsameOutline, outline, hinnerOutline, houtline, hpair]

end TagTemplate
