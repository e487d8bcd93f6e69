import Mathlib.Data.List.Forall2
import TagTemplate.Proofs.Assembly.Walk
import TagTemplate.Proofs.Occurrence.Basic

/-!
# Sections of a template

Which closing tag belongs to which opening tag is told from the list of tags by counting how many
sections are open. For well nested lexemes, the tags of a section's body count for nothing, so
that a section is closed by the tag with which the grammar closes it.
-/

namespace TagTemplate

namespace Occurrence

def opened? (o : Occurrence) : Option (Bool × Text) :=
  match o.directive with
  | .openBlock inverted name => some (inverted, name)
  | _ => none

/-- The first tag that closes more sections than were opened, when so many are open. -/
def closing? : (depth : Nat) → List Occurrence → Option Occurrence
  | _, [] => none
  | depth, o :: tags =>
      match o.directive, depth with
      | .openBlock _ _, depth => closing? (depth + 1) tags
      | .closeBlock _, 0 => some o
      | .closeBlock _, depth + 1 => closing? depth tags
      | _, depth => closing? depth tags

/-- Every opening tag with the closing tag that belongs to it. -/
def sections : List Occurrence → List (Occurrence × Occurrence)
  | [] => []
  | o :: tags =>
      match o.opened?, closing? 0 tags with
      | some _, some closing => (o, closing) :: sections tags
      | _, _ => sections tags

theorem sections_cons_of_not_opened {o : Occurrence} (h : o.opened? = none)
    (tags : List Occurrence) : sections (o :: tags) = sections tags := by
  rw [sections, h]

theorem opened?_eq_none_of_leaf {o : Occurrence} (h : o.directive.isBoundary = false) :
    o.opened? = none := by
  cases hd : o.directive with
  | openBlock inverted name => simp [hd, Directive.isBoundary] at h
  | closeBlock | interpolation | comment | setDelimiters | partialRef => simp [opened?, hd]

theorem closing?_cons_of_leaf {o : Occurrence} (h : o.directive.isBoundary = false) (depth : Nat)
    (tags : List Occurrence) : closing? depth (o :: tags) = closing? depth tags := by
  cases hd : o.directive with
  | openBlock inverted name => simp [hd, Directive.isBoundary] at h
  | closeBlock name => simp [hd, Directive.isBoundary] at h
  | interpolation | comment | setDelimiters | partialRef => simp [closing?, hd]

theorem listFrom_block (offset : Nat) (opening closing : Tag) (body lexemes : List Lexeme) :
    listFrom offset (.tag opening :: body ++ .tag closing :: lexemes) =
      ofTag offset opening :: (listFrom (offset + Text.size opening.source) body ++
        ofTag (offset + Text.size opening.source + Text.size (sourceOf body)) closing ::
          listFrom (offset + Text.size opening.source + Text.size (sourceOf body) +
            Text.size closing.source) lexemes) := by
  rw [List.cons_append, listFrom, listFrom_append, listFrom]

end Occurrence

open Occurrence Text

/-! ## Well nested lexemes -/

/-- Well nested lexemes leave the count of open sections as it was. -/
theorem Forms.closing?_listFrom_append {lexemes : List Lexeme} {nodes : List Node}
    (h : Forms lexemes nodes) (depth offset : Nat) (rest : List Occurrence) :
    closing? depth (listFrom offset lexemes ++ rest) = closing? depth rest := by
  induction h generalizing depth offset rest with
  | nil => rfl
  | text _ ih => exact ih depth _ rest
  | leaf hleaf _ ih =>
      rw [listFrom, List.cons_append, closing?_cons_of_leaf hleaf]
      exact ih depth _ rest
  | @block opening closing inverted name body lexemes inner nodes hopen hclose _ _ ihbody ih =>
      have hstep : ∀ tags, closing? depth (ofTag offset opening :: tags) =
          closing? (depth + 1) tags := by
        intro tags
        simp [closing?, ofTag, hopen]
      have hback : ∀ offset tags, closing? (depth + 1) (ofTag offset closing :: tags) =
          closing? depth tags := by
        intro offset tags
        simp [closing?, ofTag, hclose]
      rw [listFrom_block, List.cons_append, hstep, List.append_assoc, ihbody, List.cons_append,
        hback, ih]

theorem Forms.sections_opening {opening closing : Tag} {inverted : Bool} {name : Text}
    {body : List Lexeme} {inner : List Node} (hopen : opening.directive = .openBlock inverted name)
    (hclose : closing.directive = .closeBlock name) (hbody : Forms body inner)
    (offset bodyOffset closingOffset : Nat) (rest : List Occurrence) :
    sections (ofTag offset opening :: (listFrom bodyOffset body ++
        ofTag closingOffset closing :: rest)) =
      (ofTag offset opening, ofTag closingOffset closing) ::
        sections (listFrom bodyOffset body ++ ofTag closingOffset closing :: rest) := by
  have hopened : (ofTag offset opening).opened? = some (inverted, name) := by
    simp [opened?, ofTag, hopen]
  have hclosing : closing? 0 (ofTag closingOffset closing :: rest) =
      some (ofTag closingOffset closing) := by
    simp [closing?, ofTag, hclose]
  rw [sections, hopened, hbody.closing?_listFrom_append, hclosing]

theorem Forms.sections_listFrom_append {lexemes : List Lexeme} {nodes : List Node}
    (h : Forms lexemes nodes) (offset : Nat) (rest : List Occurrence) :
    sections (listFrom offset lexemes ++ rest) =
      sections (listFrom offset lexemes) ++ sections rest := by
  induction h generalizing offset rest with
  | nil => rfl
  | text _ ih => exact ih _ rest
  | @leaf tag lexemes nodes hleaf _ ih =>
      have hopened : (ofTag offset tag).opened? = none := opened?_eq_none_of_leaf hleaf
      rw [listFrom, List.cons_append, sections_cons_of_not_opened hopened,
        sections_cons_of_not_opened hopened]
      exact ih _ rest
  | @block opening closing inverted name body lexemes inner nodes hopen hclose hbody _ ihbody ih =>
      have hopened : ∀ offset, (ofTag offset closing).opened? = none := by
        intro offset
        simp [opened?, ofTag, hclose]
      rw [listFrom_block, List.cons_append, List.append_assoc, List.cons_append,
        hbody.sections_opening hopen hclose, hbody.sections_opening hopen hclose, ihbody, ihbody,
        sections_cons_of_not_opened (hopened _), sections_cons_of_not_opened (hopened _), ih]
      simp

theorem Forms.sections_block {opening closing : Tag} {inverted : Bool} {name : Text}
    {body lexemes : List Lexeme} {inner : List Node}
    (hopen : opening.directive = .openBlock inverted name)
    (hclose : closing.directive = .closeBlock name) (hbody : Forms body inner) (offset : Nat) :
    sections (listFrom offset (.tag opening :: body ++ .tag closing :: lexemes)) =
      (ofTag offset opening,
        ofTag (offset + size opening.source + size (sourceOf body)) closing) ::
      (sections (listFrom (offset + size opening.source) body) ++
        sections (listFrom
          (offset + size opening.source + size (sourceOf body) + size closing.source) lexemes)) := by
  have hopened : ∀ offset, (ofTag offset closing).opened? = none := by
    intro offset
    simp [opened?, ofTag, hclose]
  rw [listFrom_block, hbody.sections_opening hopen hclose, hbody.sections_listFrom_append,
    sections_cons_of_not_opened (hopened _)]

/-- Every opening tag has its closing tag. -/
theorem Forms.map_fst_sections {lexemes : List Lexeme} {nodes : List Node}
    (h : Forms lexemes nodes) (offset : Nat) :
    (sections (listFrom offset lexemes)).map Prod.fst =
      (listFrom offset lexemes).filter (·.opened?.isSome) := by
  induction h generalizing offset with
  | nil => rfl
  | text _ ih => exact ih _
  | @leaf tag lexemes nodes hleaf _ ih =>
      have hopened : (ofTag offset tag).opened? = none := opened?_eq_none_of_leaf hleaf
      rw [listFrom, sections_cons_of_not_opened hopened, List.filter_cons, hopened]
      exact ih _
  | @block opening closing inverted name body lexemes inner nodes hopen hclose hbody _ ihbody ih =>
      have hopening : (ofTag offset opening).opened? = some (inverted, name) := by
        simp [opened?, ofTag, hopen]
      have hclosing : ∀ offset, (ofTag offset closing).opened? = none := by
        intro offset
        simp [opened?, ofTag, hclose]
      rw [hbody.sections_block hopen hclose, listFrom_block, List.map_cons, List.map_append, ihbody,
        ih, List.filter_cons, List.filter_append, List.filter_cons, hopening, hclosing]
      rfl

/-! ## The sections of a tree -/

def Node.isBlock : Node → Bool
  | block _ _ _ _ _ => true
  | _ => false

theorem isBlock_leaves (lexeme : Lexeme) : lexeme.leaves.filter Node.isBlock = [] := by
  apply List.filter_eq_nil_iff.mpr
  intro node hmem
  rcases Lexeme.mem_leaves hmem with ⟨_, rfl⟩ | ⟨_, _, _, rfl⟩ | ⟨_, _, rfl⟩
  · simp [Node.isBlock]
  · simp [Node.isBlock]
  · simp [Node.isBlock]

theorem isBlock_leaves_append (lexeme : Lexeme) (nodes : List Node) :
    (Node.walkAll (lexeme.leaves ++ nodes)).filter Node.isBlock =
      (Node.walkAll nodes).filter Node.isBlock := by
  rw [Node.walkAll_append, walkAll_leaves, List.filter_append, isBlock_leaves, List.nil_append]

/-- The section nodes of a tree and the pairs of an opening and a closing tag come in the same
order. What holds of the node and the two tags wherever the grammar makes a section holds of each
of them. -/
theorem Forms.forall₂_sections {all : List Lexeme} {related : Node → Occurrence × Occurrence → Prop}
    (hblock : ∀ before after body inner opening closing inverted name,
      all = before ++ .tag opening :: body ++ .tag closing :: after →
      opening.directive = .openBlock inverted name → closing.directive = .closeBlock name →
      Forms body inner →
      related (.block inverted (.ofText name) (inner ++ staticNodes closing.kept)
          (String.ofList (sourceOf body ++ closing.indent)) closing.delimiters)
        (ofTag (size (sourceOf before)) opening,
          ofTag (size (sourceOf before) + size opening.source + size (sourceOf body)) closing))
    {lexemes : List Lexeme} {nodes : List Node} (h : Forms lexemes nodes)
    (before after : List Lexeme) (hall : all = before ++ lexemes ++ after) :
    List.Forall₂ related ((Node.walkAll nodes).filter Node.isBlock)
      (sections (listFrom (size (sourceOf before)) lexemes)) := by
  have hsize : ∀ (before : List Lexeme) (x : Lexeme),
      size (sourceOf (before ++ [x])) = size (sourceOf before) + size x.source := by
    intro before x
    simp
  -- Along the grammar, `before` tells where in the template the lexemes stand.
  induction h generalizing before after with
  | nil => exact .nil
  | @text t lexemes nodes _ ih =>
      have hrest := ih (before ++ [.text t]) after (by simpa using hall)
      have hnodes := isBlock_leaves_append (.text t) nodes
      rw [hsize] at hrest
      rw [Lexeme.leaves] at hnodes
      rw [hnodes]
      exact hrest
  | @leaf tag lexemes nodes hleaf _ ih =>
      have hrest := ih (before ++ [.tag tag]) after (by simpa using hall)
      have hnodes := isBlock_leaves_append (.tag tag) nodes
      have hopened : (ofTag (size (sourceOf before)) tag).opened? = none :=
        opened?_eq_none_of_leaf hleaf
      rw [hsize] at hrest
      rw [Lexeme.leaves] at hnodes
      rw [listFrom, sections_cons_of_not_opened hopened, hnodes]
      exact hrest
  | @block opening closing inverted name body lexemes inner nodes hopen hclose hbody _ ihbody ih =>
      have hinner := ihbody (before ++ [.tag opening]) (.tag closing :: lexemes ++ after)
        (by simpa using hall)
      have hrest := ih (before ++ .tag opening :: body ++ [.tag closing]) after
        (by simpa using hall)
      have hbefore : size (sourceOf (before ++ .tag opening :: body)) =
          size (sourceOf before) + size opening.source + size (sourceOf body) := by
        simp [Lexeme.source, Nat.add_assoc]
      rw [hsize, Lexeme.source] at hinner
      rw [hsize, hbefore, Lexeme.source] at hrest
      have hthis := hblock before (lexemes ++ after) body inner opening closing inverted name
        (by simpa using hall) hopen hclose hbody
      rw [walkAll_block hopen hclose, hbody.sections_block hopen hclose, List.filter_append,
        List.filter_cons, List.filter_append, List.filter_append, isBlock_leaves, isBlock_leaves,
        List.append_nil, List.nil_append, leaves_of_closing hclose]
      exact .cons hthis (List.rel_append hinner hrest)

end TagTemplate
