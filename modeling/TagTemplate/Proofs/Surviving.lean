import Mathlib.Data.List.Basic
import TagTemplate.Proofs.Assembly.Walk
import TagTemplate.Proofs.Evaluation
import TagTemplate.Proofs.Occurrence.Lines
import TagTemplate.Proofs.Occurrence.Log
import TagTemplate.Proofs.Occurrence.Spans

/-!
# The text that survives

The literal text of a compiled tree is the template less what its tags erase: each tag itself, and
the whole line of a tag that owns it. Both sides are read off the lexemes, the tree's by induction
on the grammar and the template's one lexeme after the other.
-/

namespace TagTemplate

open Text

/-! ## The literal text of a tree -/

def Node.literal : Node → Text
  | static text => text.toList
  | _ => []

def Node.padded? : Node → Option (String × String)
  | partialRef name padding => some (name, padding)
  | _ => none

def Lexeme.kept : Lexeme → Text
  | text t => t
  | tag t => t.kept

theorem literal_staticNodes (t : Text) : (staticNodes t).flatMap Node.literal = t := by
  by_cases ht : t = []
  · subst ht
    rfl
  · rw [staticNodes, if_neg ht]
    simp [Node.literal]

/-- The literal text of a tree is what its lexemes keep. -/
theorem Forms.flatMap_literal {lexemes : List Lexeme} {nodes : List Node}
    (h : Forms lexemes nodes) :
    (Node.walkAll nodes).flatMap Node.literal = lexemes.flatMap Lexeme.kept := by
  rw [h.flatMap_walkAll Node.literal fun _ _ _ _ _ => rfl]
  congr 1
  funext lexeme
  cases lexeme with
  | text t => exact literal_staticNodes t
  | tag tag =>
      have hleaves : tag.leaves.flatMap Node.literal = [] := by
        unfold Tag.leaves
        split
        · rfl
        · rfl
        · rfl
      rw [Lexeme.leaves, List.flatMap_append, literal_staticNodes, hleaves, List.append_nil]
      rfl

/-! ## The text that no tag erases -/

/-- The byte at offset `n` belongs to what the lexemes do not keep, the first of them starting at
the given offset. -/
def droppedFrom : (offset : Nat) → List Lexeme → (n : Nat) → Bool
  | _, [], _ => false
  | offset, .text t :: lexemes, n => droppedFrom (offset + size t) lexemes n
  | offset, .tag tag :: lexemes, n =>
      (offset + size tag.kept ≤ n && n < offset + size tag.source) ||
        droppedFrom (offset + size tag.source) lexemes n

theorem Tag.kept_isPrefix (tag : Tag) : tag.kept <+: tag.source := by
  unfold Tag.kept
  split
  · exact List.nil_prefix
  · exact ⟨tag.written ++ tag.lineBreak, by simp [tag.source_eq]⟩

theorem droppedFrom_of_lt {offset n : Nat} (lexemes : List Lexeme) (h : n < offset) :
    droppedFrom offset lexemes n = false := by
  induction lexemes generalizing offset with
  | nil => rfl
  | cons lexeme lexemes ih =>
      cases lexeme with
      | text t =>
          rw [droppedFrom]
          exact ih (by omega)
      | tag tag =>
          have hlt : ¬ offset + size tag.kept ≤ n := by omega
          rw [droppedFrom, ih (by omega)]
          simp [hlt]

theorem selectFrom_droppedFrom_tag (offset : Nat) (tag : Tag) (lexemes : List Lexeme) :
    selectFrom (fun n => ! droppedFrom offset (.tag tag :: lexemes) n) offset tag.source =
      tag.kept := by
  obtain ⟨erased, herased⟩ := tag.kept_isPrefix
  have hsize : size tag.source = size tag.kept + size erased := by
    rw [← herased, size_append]
  have hkept : selectFrom (fun n => ! droppedFrom offset (.tag tag :: lexemes) n) offset
      tag.kept = tag.kept := by
    apply selectFrom_eq_self
    intro n _ hlt
    have hle : ¬ offset + size tag.kept ≤ n := by omega
    rw [droppedFrom, droppedFrom_of_lt lexemes (by omega)]
    simp [hle]
  have hnone : selectFrom (fun n => ! droppedFrom offset (.tag tag :: lexemes) n)
      (offset + size tag.kept) erased = [] := by
    apply selectFrom_eq_nil
    intro n hle hlt
    have hlt' : n < offset + size tag.source := by omega
    simp [droppedFrom, hle, hlt']
  rw [← herased, selectFrom_append, hkept, hnone, List.append_nil]

theorem selectFrom_droppedFrom (offset : Nat) (lexemes : List Lexeme) :
    selectFrom (fun n => ! droppedFrom offset lexemes n) offset (sourceOf lexemes) =
      lexemes.flatMap Lexeme.kept := by
  induction lexemes generalizing offset with
  | nil => rfl
  | cons lexeme lexemes ih =>
      rw [sourceOf_cons, selectFrom_append, List.flatMap_cons]
      cases lexeme with
      | text t =>
          have hself : selectFrom (fun n => ! droppedFrom offset (.text t :: lexemes) n) offset t =
              t := by
            apply selectFrom_eq_self
            intro n _ hlt
            rw [droppedFrom, droppedFrom_of_lt lexemes hlt]
            rfl
          have hrest := ih (offset + size t)
          exact congr (congrArg _ hself) hrest
      | tag tag =>
          have hown := selectFrom_droppedFrom_tag offset tag lexemes
          have hrest : selectFrom (fun n => ! droppedFrom offset (.tag tag :: lexemes) n)
              (offset + size tag.source) (sourceOf lexemes) = lexemes.flatMap Lexeme.kept := by
            rw [← ih (offset + size tag.source)]
            apply selectFrom_congr
            intro n hle _
            have hlt : ¬ n < offset + size tag.source := by omega
            simp [droppedFrom, hlt]
          exact congr (congrArg _ hown) hrest

theorem any_erases_listFrom [MarkerLimits] {d : Delimiters} {template : Text}
    (hd : d.Valid ∧ d.withinLimit = true) (before after : List Lexeme)
    (h : Lexes d true template (before ++ after)) (n : Nat) :
    (Occurrence.listFrom (size (sourceOf before)) after).any (·.erases template n) =
      droppedFrom (size (sourceOf before)) after n := by
  induction after generalizing before with
  | nil => rfl
  | cons lexeme after ih =>
      have hnext : Lexes d true template (before ++ [lexeme] ++ after) := by simpa using h
      have hrest := ih _ hnext
      rw [sourceOf_append, size_append, sourceOf_cons, sourceOf_nil, List.append_nil] at hrest
      cases lexeme with
      | text t => exact hrest
      | tag tag =>
          rw [Occurrence.listFrom, List.any_cons, droppedFrom, ← Lexeme.source, hrest,
            Occurrence.erases, Occurrence.eraseStart_ofTag hd h, Occurrence.eraseStop_ofTag hd h]
          rfl

/-! ## Partials and the log -/

/-- The name of a partial tag and the indentation that the template shows before it. -/
def Occurrence.padded? (t : Text) (o : Occurrence) : Option (String × String) :=
  match o.directive with
  | .partialRef name => some (String.ofList name, String.ofList (o.indentation t))
  | _ => none

theorem leaves_padded (lexeme : Lexeme) : lexeme.leaves.filterMap Node.padded? =
    match lexeme with
    | .tag { directive := .partialRef name, indent, opensLine, .. } =>
        [(String.ofList name, String.ofList (if opensLine then indent else []))]
    | _ => [] := by
  have hstatic : ∀ t, (staticNodes t).filterMap Node.padded? = [] := by
    intro t
    unfold staticNodes
    split
    · rfl
    · rfl
  cases lexeme with
  | text t => exact hstatic t
  | tag tag =>
      rw [Lexeme.leaves, List.filterMap_append, hstatic, List.nil_append]
      obtain ⟨_, _, _, _, _, directive, _, _⟩ := tag
      cases directive <;> rfl

section

variable [MarkerLimits]

theorem filterMap_padded_listFrom {d : Delimiters} {template : Text}
    (hd : d.Valid ∧ d.withinLimit = true) (before after : List Lexeme)
    (h : Lexes d true template (before ++ after)) :
    (Occurrence.listFrom (size (sourceOf before)) after).filterMap (·.padded? template) =
      after.flatMap fun x => x.leaves.filterMap Node.padded? := by
  induction after generalizing before with
  | nil => rfl
  | cons lexeme after ih =>
      have hnext : Lexes d true template (before ++ [lexeme] ++ after) := by simpa using h
      have hrest := ih _ hnext
      rw [sourceOf_append, size_append, sourceOf_cons, sourceOf_nil, List.append_nil] at hrest
      rw [List.flatMap_cons, ← hrest, leaves_padded]
      cases lexeme with
      | text t => rfl
      | tag tag =>
          have hindent := Occurrence.indentation_ofTag hd h
          rw [Occurrence.listFrom, List.filterMap_cons, Occurrence.padded?, hindent]
          obtain ⟨_, _, _, _, _, directive, _, _⟩ := tag
          cases directive <;> rfl

/-! ## Compiled templates -/

/-- The tags of a template that compiles lie side by side, each between its markers. Without the
bytes that they erase, the template is the literal text of the tree, and every partial is padded
with the blanks before its tag if nothing else precedes it on its line. -/
theorem literal_eq_select_of_compile {d : Delimiters} {template : String} {root : Node}
    (hd : d.Valid) (h : compile d template = .ok root) :
    (trace d template).filterMap Event.tag? = (Occurrence.list d template).map (fun o =>
        (o.directive.kind, String.ofList o.directive.content, o.start)) ∧
      (∀ o ∈ Occurrence.list d template,
        o.Spans d template.toList (Occurrence.list d template)) ∧
      (Occurrence.list d template).Pairwise (·.stop ≤ ·.start) ∧
      root.walk.flatMap Node.literal = Text.select
        (fun n => ! (Occurrence.list d template).any (·.erases template.toList n))
        template.toList ∧
      root.walk.filterMap Node.padded? =
        (Occurrence.list d template).filterMap (·.padded? template.toList) := by
  obtain ⟨hlimit, hread, nodes, rfl, hforms⟩ := compile_eq_ok_iff.mp h
  have hlexes : Lexes d true template.toList (Lexemes.read d template.toList).lexemes :=
    Lexes.of_readFrom hread
  have hvalid := And.intro hd hlimit
  refine ⟨?_, ?_, ?_, ?_, ?_⟩
  · rw [trace, run_of_forms hlimit hread hforms, List.cons_append, List.filterMap_cons,
      List.filterMap_append, filterMap_tag_eventsFrom]
    exact List.append_nil _
  · intro o ho
    exact Occurrence.spans_of_mem hvalid hlexes ho
  · exact Occurrence.pairwise_listFrom 0 _
  · have hdropped : ∀ n, (Occurrence.list d template).any (·.erases template.toList n) =
        droppedFrom 0 (Lexemes.read d template.toList).lexemes n :=
      any_erases_listFrom hvalid [] _ hlexes
    have hselect := selectFrom_droppedFrom 0 (Lexemes.read d template.toList).lexemes
    rw [hlexes.sourceOf_eq] at hselect
    have hliteral := hforms.flatMap_literal
    rw [Node.walk_multi, List.flatMap_cons, hliteral, Text.select, ← hselect]
    simp only [hdropped]
    rfl
  · have hpadded := filterMap_padded_listFrom hvalid [] _ hlexes
    have hwalk := hforms.flatMap_walkAll (fun node => node.padded?.toList)
      fun _ _ _ _ _ => rfl
    simp only [← List.filterMap_eq_flatMap_toList] at hwalk
    rw [Node.walk_multi, List.filterMap_cons]
    exact hwalk.trans hpadded.symm

end

/-- A comment goes with its line, and a partial keeps only its indentation. -/
theorem literal_eq_select_standard :
    ∃ template root, template = " \x7b\x7b! c \x7d\x7d\r\nx\n  \x7b\x7b> p \x7d\x7d" ∧
      root = .multi [.static "x\n", .partialRef "p" "  "] ∧ compile .standard template = .ok root ∧
      root.walk.flatMap Node.literal = Text.select
        (fun n => ! (Occurrence.list .standard template).any (·.erases template.toList n))
        template.toList ∧
      root.walk.filterMap Node.padded? =
        (Occurrence.list .standard template).filterMap (·.padded? template.toList) := by
  have h : compile .standard " \x7b\x7b! c \x7d\x7d\r\nx\n  \x7b\x7b> p \x7d\x7d" =
      .ok (.multi [.static "x\n", .partialRef "p" "  "]) := by
    rw [compile_eq_evaluate]
    rfl
  have hall := literal_eq_select_of_compile Delimiters.standard_valid h
  exact ⟨_, _, rfl, rfl, h, hall.2.2.2⟩

end TagTemplate
