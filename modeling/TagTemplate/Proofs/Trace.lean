import TagTemplate.Proofs.Occurrence.Log
import TagTemplate.Proofs.Occurrence.Sections

/-!
# The log of a compile

For a template that compiles, the log and the tree tell the same: every tag that shows a value,
opens a section or refers to a partial is logged when it is read, and its node has the same place
among the nodes of the tree, each before its descendants.
-/

namespace TagTemplate

open Text

/-! ## References -/

inductive Reference where
  | interpolation (escape : Escape) (callee : String)
  | block (inverted : Bool) (callee : String)
  | partialRef (name : String)
deriving DecidableEq, Repr

namespace Reference

def tagName? : Reference → Option String
  | interpolation _ callee => some callee
  | _ => none

def sectionName? : Reference → Option String
  | block _ callee => some callee
  | _ => none

def partialName? : Reference → Option String
  | partialRef name => some name
  | _ => none

end Reference

def TagKind.reference? (content : String) : TagKind → Option Reference
  | interpolation form => some (.interpolation form.escape content)
  | openBlock inverted => some (.block inverted content)
  | partialRef => some (.partialRef content)
  | _ => none

def Event.reference? : Event → Option Reference
  | tag kind content _ => kind.reference? content
  | _ => none

def Node.reference? : Node → Option Reference
  | interpolation escape callee _ => some (.interpolation escape callee.dotted)
  | block inverted callee _ _ _ => some (.block inverted callee.dotted)
  | partialRef name _ => some (.partialRef name)
  | _ => none

def Directive.reference? (directive : Directive) : Option Reference :=
  directive.kind.reference? (String.ofList directive.content)

def Lexeme.reference? : Lexeme → Option Reference
  | text _ => none
  | tag t => t.directive.reference?

theorem tagName?_eq_bind (node : Node) :
    node.tagName? = node.reference?.bind Reference.tagName? := by
  cases node with
  | multi | static | interpolation | block | partialRef => rfl

theorem sectionName?_eq_bind (node : Node) :
    node.sectionName? = node.reference?.bind Reference.sectionName? := by
  cases node with
  | multi | static | interpolation | block | partialRef => rfl

theorem partialName?_eq_bind (node : Node) :
    node.partialName? = node.reference?.bind Reference.partialName? := by
  cases node with
  | multi | static | interpolation | block | partialRef => rfl

/-- A name in a tree is found where its reference is found. -/
theorem names_eq_of_references {nameOf : Node → Option String}
    {named : Reference → Option String} (h : ∀ node, nameOf node = node.reference?.bind named)
    (root : Node) :
    root.names nameOf = ((root.walk.filterMap Node.reference?).filterMap named).eraseDups := by
  rw [Node.names, List.filterMap_filterMap]
  congr 2
  funext node
  exact h node

theorem reference?_leaves (lexeme : Lexeme) :
    lexeme.leaves.flatMap (fun node => node.reference?.toList) ++
        lexeme.opened?.toList.flatMap (fun s => [.block s.1 (String.ofList s.2)]) =
      lexeme.reference?.toList := by
  have hstatic : ∀ t, (staticNodes t).flatMap (fun node => node.reference?.toList) = [] := by
    intro t
    unfold staticNodes
    split
    · rfl
    · rfl
  cases lexeme with
  | text t =>
      rw [Lexeme.leaves, hstatic]
      rfl
  | tag tag =>
      obtain ⟨_, _, _, _, _, directive, _, _⟩ := tag
      rw [Lexeme.leaves, List.flatMap_append, hstatic]
      cases directive with
      | interpolation form callee args =>
          simp [Tag.leaves, Lexeme.opened?, Lexeme.reference?, Directive.reference?,
            Directive.kind, Directive.content, Node.reference?, TagKind.reference?,
            Path.dotted_ofText]
      | openBlock | closeBlock | comment | setDelimiters | partialRef => rfl

/-- The tree refers to what its lexemes refer to, in the same order. -/
theorem Forms.filterMap_reference? {lexemes : List Lexeme} {nodes : List Node}
    (h : Forms lexemes nodes) :
    (Node.walkAll nodes).filterMap Node.reference? = lexemes.filterMap Lexeme.reference? := by
  have hwalk := h.flatMap_walkAll_eq (fun node => node.reference?.toList)
    (fun s => [.block s.1 (String.ofList s.2)]) (by simp [Node.reference?, Path.dotted_ofText])
  simp only [reference?_leaves] at hwalk
  rw [List.filterMap_eq_flatMap_toList, hwalk, List.filterMap_eq_flatMap_toList]

theorem filterMap_reference?_eventsFrom (offset : Nat) (lexemes : List Lexeme) :
    (eventsFrom offset lexemes).filterMap Event.reference? =
      lexemes.filterMap Lexeme.reference? := by
  induction lexemes generalizing offset with
  | nil => rfl
  | cons lexeme lexemes ih =>
      cases lexeme with
      | text t => exact ih _
      | tag tag =>
          have htag : (tag.events offset).filterMap Event.reference? =
              tag.directive.reference?.toList := by
            unfold Tag.events
            cases tag.directive with
            | interpolation | openBlock | closeBlock | comment | setDelimiters | partialRef => rfl
          rw [eventsFrom, List.filterMap_append, htag, ih, List.filterMap_cons, Lexeme.reference?]
          cases tag.directive.reference? with
          | none => rfl
          | some reference => rfl

/-! ## Closing tags -/

def Event.isClosing : Event → Bool
  | tag kind _ _ => kind = .closeBlock
  | _ => false

def Lexeme.isClosing : Lexeme → Bool
  | text _ => false
  | tag t => t.directive.kind = .closeBlock

theorem isClosing_of_leaf {tag : Tag} (h : tag.directive.isBoundary = false) :
    (Lexeme.tag tag).isClosing = false := by
  obtain ⟨_, _, _, _, _, directive, _, _⟩ := tag
  cases directive with
  | openBlock | closeBlock => cases h
  | interpolation | comment | setDelimiters | partialRef => rfl

theorem countP_isClosing_eventsFrom (offset : Nat) (lexemes : List Lexeme) :
    (eventsFrom offset lexemes).countP Event.isClosing = lexemes.countP Lexeme.isClosing := by
  induction lexemes generalizing offset with
  | nil => rfl
  | cons lexeme lexemes ih =>
      cases lexeme with
      | text t => exact ih _
      | tag tag =>
          rw [eventsFrom, List.countP_append, ih, List.countP_cons, Nat.add_comm]
          congr 1
          obtain ⟨_, _, _, _, _, directive, _, _⟩ := tag
          cases directive with
          | interpolation | openBlock | closeBlock | comment | setDelimiters | partialRef => rfl

theorem countP_isBlock_leaves_append (lexeme : Lexeme) (nodes : List Node) :
    (Node.walkAll (lexeme.leaves ++ nodes)).countP Node.isBlock =
      (Node.walkAll nodes).countP Node.isBlock := by
  rw [List.countP_eq_length_filter, isBlock_leaves_append, List.countP_eq_length_filter]

/-- Every section has one closing tag. -/
theorem Forms.countP_isBlock {lexemes : List Lexeme} {nodes : List Node}
    (h : Forms lexemes nodes) :
    (Node.walkAll nodes).countP Node.isBlock = lexemes.countP Lexeme.isClosing := by
  induction h with
  | nil => rfl
  | @text t lexemes nodes _ ih =>
      have hnodes := countP_isBlock_leaves_append (.text t) nodes
      rw [Lexeme.leaves] at hnodes
      rw [hnodes, ih]
      rfl
  | @leaf tag lexemes nodes hleaf _ ih =>
      have hnodes := countP_isBlock_leaves_append (.tag tag) nodes
      rw [Lexeme.leaves] at hnodes
      rw [hnodes, ih]
      simp [isClosing_of_leaf hleaf]
  | @block opening closing inverted name body lexemes inner nodes hopen hclose _ _ ihbody ih =>
      have hopening : (Lexeme.tag opening).isClosing = false := by
        simp [Lexeme.isClosing, hopen, Directive.kind]
      have hclosing : (Lexeme.tag closing).isClosing = true := by
        simp [Lexeme.isClosing, hclose, Directive.kind]
      have hleaves : ∀ x : Lexeme, x.leaves.countP Node.isBlock = 0 := by
        intro x
        rw [List.countP_eq_length_filter, isBlock_leaves]
        rfl
      rw [walkAll_block hopen hclose]
      simp [List.countP_cons, hleaves, hopening, hclosing, ihbody, ih, Node.isBlock]
      omega

/-! ## Changes of delimiters -/

def Event.isTag : Event → Bool
  | tag _ _ _ => true
  | _ => false

def Event.isChange : Event → Bool
  | delimitersChanged _ => true
  | _ => false

/-- How many changes of delimiters are logged before the next tag is. -/
def changesAhead (events : List Event) : Nat :=
  (events.takeWhile fun e => ! e.isTag).countP Event.isChange

theorem changesAhead_change (pair : Delimiters) (events : List Event) :
    changesAhead (.delimitersChanged pair :: events) = changesAhead events + 1 := by
  rw [changesAhead, List.takeWhile_cons_of_pos rfl, List.countP_cons_of_pos rfl]
  rfl

theorem changesAhead_eventsFrom (offset : Nat) (lexemes : List Lexeme) (n : Nat) :
    changesAhead (eventsFrom offset lexemes ++ [.compiled n]) = 0 := by
  induction lexemes generalizing offset with
  | nil => rfl
  | cons lexeme lexemes ih =>
      cases lexeme with
      | text t => exact ih _
      | tag tag => rfl

/-- The change that a tag asks for is logged right behind the tag, and no other. -/
theorem changesAhead_of_suffix {kind : TagKind} {content : String} {start : Nat}
    {after : List Event} (offset : Nat) (lexemes : List Lexeme) (n : Nat)
    (h : .tag kind content start :: after <:+ eventsFrom offset lexemes ++ [.compiled n]) :
    changesAhead after = if kind = .setDelimiters then 1 else 0 := by
  induction lexemes generalizing offset with
  | nil =>
      rw [eventsFrom, List.nil_append, List.suffix_cons_iff] at h
      rcases h with h | h
      · cases h
      · cases List.suffix_nil.mp h
  | cons lexeme lexemes ih =>
      cases lexeme with
      | text t => exact ih _ h
      | tag tag =>
          rw [eventsFrom, Tag.events] at h
          cases hd : tag.directive with
          | setDelimiters text pair =>
              simp only [hd, List.cons_append, List.nil_append, List.suffix_cons_iff] at h
              rcases h with h | h | h
              · cases h
                rw [changesAhead_change, changesAhead_eventsFrom]
                rfl
              · cases h
              · exact ih _ h
          | interpolation | openBlock | closeBlock | comment | partialRef =>
              simp only [hd, List.cons_append, List.nil_append, List.suffix_cons_iff] at h
              rcases h with h | h
              · cases h
                exact changesAhead_eventsFrom _ lexemes n
              · exact ih _ h

/-! ## Offsets -/

section

variable [MarkerLimits]

theorem front_ne_nil_of_next {d : Delimiters} {lineStart : Bool} {t rest : Text} {tag : Tag}
    (h : next d lineStart t = .lexeme (.tag tag) rest) : tag.front ≠ [] := by
  obtain ⟨indent, u, -, hread⟩ := next_eq_tag_iff.mp h
  obtain ⟨head, directive, hhead, -, htag, -⟩ := readTag_eq_lexeme_iff.mp hread
  cases htag
  simp [Tag.ofReadings, TagHead.reader_read_ne_nil hhead]

theorem Lexes.front_ne_nil {d : Delimiters} {lineStart : Bool} {t : Text} {lexemes : List Lexeme}
    (h : Lexes d lineStart t lexemes) : ∀ tag, .tag tag ∈ lexemes → tag.front ≠ [] := by
  induction h with
  | nil => nofun
  | cons _ hn _ ih =>
      intro tag hmem
      rcases List.mem_cons.mp hmem with rfl | hmem
      · exact front_ne_nil_of_next hn
      · exact ih tag hmem

end

theorem pairwise_start_listFrom {offset : Nat} {lexemes : List Lexeme}
    (h : ∀ tag, .tag tag ∈ lexemes → tag.front ≠ []) :
    (Occurrence.listFrom offset lexemes).Pairwise (·.start < ·.start) := by
  refine (Occurrence.pairwise_listFrom offset lexemes).imp_of_mem ?_
  intro o o' ho _ hle
  obtain ⟨before, tag, after, rfl, rfl⟩ := Occurrence.mem_listFrom_iff.mp ho
  have hfront : size tag.front ≠ 0 := fun hzero => h tag (by simp) (size_eq_zero_iff.mp hzero)
  simp only [Occurrence.ofTag, Tag.written, size_append] at hle ⊢
  omega

/-! ## Compiled templates -/

/-- The events tell what the tree holds. Changes of delimiters come right behind the tags that ask
for them, tags come in the order in which they stand, and the last event counts the nodes below the
root. -/
structure Tells (events : List Event) (root : Node) : Prop where
  references : events.filterMap Event.reference? = root.walk.filterMap Node.reference?
  closings : events.countP Event.isClosing = root.walk.countP Node.isBlock
  changes_before_tags : changesAhead events = 0
  changes_after_tag : ∀ kind content offset after, .tag kind content offset :: after <:+ events →
    changesAhead after = if kind = .setDelimiters then 1 else 0
  offsets : (events.filterMap Event.tag?).Pairwise (·.2.2 < ·.2.2)
  ends : events.getLast? = some (.compiled root.children.length)
  tags_eq : root.tags =
    ((events.filterMap Event.reference?).filterMap Reference.tagName?).eraseDups
  sections_eq : root.sections =
    ((events.filterMap Event.reference?).filterMap Reference.sectionName?).eraseDups
  partials_eq : root.partials =
    ((events.filterMap Event.reference?).filterMap Reference.partialName?).eraseDups

/-- The log of a template that compiles tells what the tree holds. -/
theorem tells_of_compile [MarkerLimits] {d : Delimiters} {template : String} {root : Node}
    (h : compile d template = .ok root) : Tells (trace d template) root := by
  obtain ⟨hlimit, hread, nodes, rfl, hforms⟩ := compile_eq_ok_iff.mp h
  have hlexes : Lexes d true template.toList (Lexemes.read d template.toList).lexemes :=
    Lexes.of_readFrom hread
  rw [trace_of_forms hlimit hread hforms]
  generalize (Lexemes.read d template.toList).lexemes = lexemes at hforms hlexes
  have hreferences : (Event.started template.utf8ByteSize ::
        (eventsFrom 0 lexemes ++ [.compiled nodes.length])).filterMap Event.reference? =
      (Node.multi nodes).walk.filterMap Node.reference? := by
    rw [List.filterMap_cons, List.filterMap_append, filterMap_reference?_eventsFrom,
      ← hforms.filterMap_reference?, Node.walk_multi]
    exact List.append_nil _
  have hnames := fun (nameOf : Node → Option String) (named : Reference → Option String)
    (hname : ∀ node, nameOf node = node.reference?.bind named) =>
      hreferences ▸ names_eq_of_references hname (.multi nodes)
  exact {
    references := hreferences
    closings := by
      have hlog : (eventsFrom 0 lexemes ++ [Event.compiled nodes.length]).countP Event.isClosing =
          lexemes.countP Lexeme.isClosing := by
        rw [List.countP_append, countP_isClosing_eventsFrom]
        rfl
      rw [Node.walk_multi]
      exact hlog.trans hforms.countP_isBlock.symm
    changes_before_tags := changesAhead_eventsFrom 0 lexemes _
    changes_after_tag := by
      intro kind content offset after hsuffix
      rcases List.suffix_cons_iff.mp hsuffix with heq | hsuffix
      · cases heq
      · exact changesAhead_of_suffix 0 lexemes _ hsuffix
    offsets := by
      have hstarts : (Occurrence.listFrom 0 lexemes).Pairwise (·.start < ·.start) :=
        pairwise_start_listFrom hlexes.front_ne_nil
      rw [List.filterMap_cons, List.filterMap_append, filterMap_tag_eventsFrom]
      exact List.append_nil _ ▸ List.pairwise_map.mpr hstarts
    ends := by
      rw [← List.cons_append, List.getLast?_concat]
      rfl
    tags_eq := hnames _ _ tagName?_eq_bind
    sections_eq := hnames _ _ sectionName?_eq_bind
    partials_eq := hnames _ _ partialName?_eq_bind }

/-- A section stands inside another one, and the pair changes on the way. -/
theorem tells_of_compile_change :
    ∃ template root,
      template = "\x7b\x7b#a.b\x7d\x7d\x7b\x7b=<% %>=\x7d\x7d<%^c%><%&x%><%/c%><%>p%><%/a.b%>" ∧
      root = .multi [.block false (.ofText ['a', '.', 'b'])
        [.block true (.ofText ['c']) [.interpolation .unescaped (.ofText ['x']) []] "<%&x%>"
          ⟨"<%", "%>"⟩, .partialRef "p" ""]
        "\x7b\x7b=<% %>=\x7d\x7d<%^c%><%&x%><%/c%><%>p%>" ⟨"<%", "%>"⟩] ∧
      compile .standard template = .ok root ∧ Tells (trace .standard template) root := by
  have h : compile .standard
      "\x7b\x7b#a.b\x7d\x7d\x7b\x7b=<% %>=\x7d\x7d<%^c%><%&x%><%/c%><%>p%><%/a.b%>" =
      .ok (.multi [.block false (.ofText ['a', '.', 'b'])
        [.block true (.ofText ['c']) [.interpolation .unescaped (.ofText ['x']) []] "<%&x%>"
          ⟨"<%", "%>"⟩, .partialRef "p" ""]
        "\x7b\x7b=<% %>=\x7d\x7d<%^c%><%&x%><%/c%><%>p%>" ⟨"<%", "%>"⟩]) := by
    rw [compile_eq_evaluate]
    decide +kernel
  exact ⟨_, _, rfl, rfl, h, tells_of_compile h⟩

end TagTemplate
