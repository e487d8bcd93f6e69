import TagTemplate.Proofs.Evaluation
import TagTemplate.Proofs.Lexeme.Reading

/-!
# The grammar of lexemes

`Forms` says which sequences of lexemes make up a template and which nodes they make: text and tags
by themselves, and an opening tag and a closing tag of one name around such a sequence. Assembling
succeeds on exactly these sequences and gives exactly these nodes, so that facts about compiled
trees can be proved by induction on the grammar.
-/

namespace TagTemplate

/-! ## The grammar -/

def staticNodes (t : Text) : List Node := if t = [] then [] else [.static (String.ofList t)]

def Directive.isBoundary : Directive → Bool
  | openBlock _ _ | closeBlock _ => true
  | _ => false

/-- The nodes that a tag by itself makes, beside the indentation that stays. -/
def Tag.leaves (tag : Tag) : List Node :=
  match tag.directive with
  | .interpolation form callee args =>
      [.interpolation form.escape (.ofText callee) (Argument.ofTokens args)]
  | .partialRef name => [.partialRef (String.ofList name) (String.ofList tag.padding)]
  | _ => []

/-- The lexemes are well nested and make the nodes. -/
inductive Forms : List Lexeme → List Node → Prop where
  | nil : Forms [] []
  | text {t : Text} {lexemes : List Lexeme} {nodes : List Node} :
      Forms lexemes nodes → Forms (.text t :: lexemes) (staticNodes t ++ nodes)
  | leaf {tag : Tag} {lexemes : List Lexeme} {nodes : List Node} :
      tag.directive.isBoundary = false → Forms lexemes nodes →
      Forms (.tag tag :: lexemes) (staticNodes tag.kept ++ tag.leaves ++ nodes)
  | block {opening closing : Tag} {inverted : Bool} {name : Text} {body lexemes : List Lexeme}
      {inner nodes : List Node} :
      opening.directive = .openBlock inverted name → closing.directive = .closeBlock name →
      Forms body inner → Forms lexemes nodes →
      Forms (.tag opening :: body ++ .tag closing :: lexemes)
        (staticNodes opening.kept ++ .block inverted (.ofText name)
          (inner ++ staticNodes closing.kept) (String.ofList (sourceOf body ++ closing.indent))
          closing.delimiters :: nodes)

/-! ## Assembling -/

/-- What a tag writes to the log when its lexeme starts at the offset. -/
def Tag.events (offset : Nat) (tag : Tag) : List Event :=
  .tag tag.directive.kind (String.ofList tag.directive.content) (offset + Text.size tag.indent) ::
    match tag.directive with
    | .setDelimiters _ pair => [.delimitersChanged pair]
    | _ => []

/-- What lexemes write to the log, in order, when the first one starts at the offset. -/
def eventsFrom : (offset : Nat) → List Lexeme → List Event
  | _, [] => []
  | offset, .text t :: lexemes => eventsFrom (offset + Text.size t) lexemes
  | offset, .tag tag :: lexemes =>
      tag.events offset ++ eventsFrom (offset + Text.size tag.source) lexemes

theorem eventsFrom_append (offset : Nat) (lexemes lexemes' : List Lexeme) :
    eventsFrom offset (lexemes ++ lexemes') =
      eventsFrom offset lexemes ++ eventsFrom (offset + Text.size (sourceOf lexemes)) lexemes' := by
  induction lexemes generalizing offset with
  | nil => simp [eventsFrom]
  | cons lexeme lexemes ih =>
      cases lexeme with
      | text t => simp [eventsFrom, ih, Lexeme.source, Nat.add_assoc]
      | tag tag => simp [eventsFrom, ih, Lexeme.source, Nat.add_assoc]

namespace Assembly

def extend (a : Assembly) (lexemes : List Lexeme) (nodes : List Node) : Assembly where
  layer :=
    { nodes := nodes.reverse ++ a.layer.nodes
      raw := a.layer.raw ++ String.ofList (sourceOf lexemes) }
  openBlocks := a.openBlocks
  offset := a.offset + Text.size (sourceOf lexemes)
  log := (eventsFrom a.offset lexemes).reverse ++ a.log

@[simp] theorem extend_nil (a : Assembly) : a.extend [] [] = a := by
  simp [extend, eventsFrom]

theorem extend_extend (a : Assembly) (lexemes lexemes' : List Lexeme) (nodes nodes' : List Node) :
    (a.extend lexemes nodes).extend lexemes' nodes' =
      a.extend (lexemes ++ lexemes') (nodes ++ nodes') := by
  simp [extend, eventsFrom_append, String.append_assoc, Nat.add_assoc]

theorem nodes_pushText (layer : Layer) (t : Text) :
    (layer.pushText t).nodes = (staticNodes t).reverse ++ layer.nodes := by
  unfold Layer.pushText staticNodes
  split
  · rfl
  · rfl

theorem add_text (a : Assembly) (t : Text) :
    a.add (.text t) = .ok (a.extend [.text t] (staticNodes t)) := by
  simp [add, addText, extend, Layer.note, nodes_pushText, Layer.raw_pushText, eventsFrom,
    Lexeme.source]

theorem add_leaf (a : Assembly) {tag : Tag} (h : tag.directive.isBoundary = false) :
    a.add (.tag tag) = .ok (a.extend [.tag tag] (staticNodes tag.kept ++ tag.leaves)) := by
  cases hd : tag.directive with
  | openBlock inverted name => simp [hd, Directive.isBoundary] at h
  | closeBlock name => simp [hd, Directive.isBoundary] at h
  | interpolation | comment | setDelimiters | partialRef =>
      simp [add, addTag, closeFault?, logTag, place, perform, extend, Layer.note, Layer.push,
        nodes_pushText, Layer.raw_pushText, eventsFrom, Tag.events, Tag.leaves, Lexeme.source, hd,
        Directive.kind]

def enter (a : Assembly) (opening : Tag) (inverted : Bool) (name : Text) : Assembly where
  layer := {}
  openBlocks :=
    { inverted
      name
      openedAt := a.offset + Text.size opening.indent
      outer := (a.extend [.tag opening] (staticNodes opening.kept)).layer } :: a.openBlocks
  offset := a.offset + Text.size opening.source
  log := (opening.events a.offset).reverse ++ a.log

theorem add_opening (a : Assembly) {opening : Tag} {inverted : Bool} {name : Text}
    (h : opening.directive = .openBlock inverted name) :
    a.add (.tag opening) = .ok (a.enter opening inverted name) := by
  simp [add, addTag, closeFault?, logTag, place, perform, enter, extend, Layer.note,
    nodes_pushText, Layer.raw_pushText, Tag.events, Lexeme.source, h, Directive.kind]

theorem add_closing (a : Assembly) {opening closing : Tag} {inverted : Bool} {name : Text}
    (body : List Lexeme) (inner : List Node) (hopen : opening.directive = .openBlock inverted name)
    (hclose : closing.directive = .closeBlock name) :
    ((a.enter opening inverted name).extend body inner).add (.tag closing) =
      .ok (a.extend (.tag opening :: body ++ [.tag closing])
        (staticNodes opening.kept ++ [.block inverted (.ofText name)
          (inner ++ staticNodes closing.kept) (String.ofList (sourceOf body ++ closing.indent))
          closing.delimiters])) := by
  simp [add, addTag, closeFault?, logTag, place, perform, enter, extend, Layer.note, Layer.push,
    nodes_pushText, Layer.raw_pushText, eventsFrom, eventsFrom_append, Tag.events, Lexeme.source,
    hopen, hclose, Directive.kind, Directive.content, Tag.source, Tag.written, String.append_assoc,
    Nat.add_assoc]

theorem foldlM_add_cons {a b : Assembly} {lexeme : Lexeme} (lexemes : List Lexeme)
    (h : a.add lexeme = .ok b) : (lexeme :: lexemes).foldlM add a = lexemes.foldlM add b := by
  rw [List.foldlM_cons, h]
  rfl

/-- Well nested lexemes can be added to any assembly. -/
theorem foldlM_add_of_forms {lexemes : List Lexeme} {nodes : List Node} (h : Forms lexemes nodes)
    (a : Assembly) (rest : List Lexeme) :
    (lexemes ++ rest).foldlM add a = rest.foldlM add (a.extend lexemes nodes) := by
  induction h generalizing a rest with
  | nil => simp
  | text _ ih =>
      rw [List.cons_append, foldlM_add_cons _ (add_text a _), ih, extend_extend]
      rfl
  | leaf hleaf _ ih =>
      rw [List.cons_append, foldlM_add_cons _ (add_leaf a hleaf), ih, extend_extend]
      rfl
  | @block opening closing inverted name body lexemes inner nodes hopen hclose _ _ ihbody ih =>
      rw [List.cons_append, List.cons_append, List.append_assoc,
        foldlM_add_cons _ (add_opening a hopen), ihbody, List.cons_append,
        foldlM_add_cons _ (add_closing a body inner hopen hclose), ih, extend_extend]
      simp

theorem exists_add_of_foldlM_cons {a b : Assembly} {lexeme : Lexeme} {lexemes : List Lexeme}
    (h : (lexeme :: lexemes).foldlM add a = .ok b) :
    ∃ c, a.add lexeme = .ok c ∧ lexemes.foldlM add c = .ok b := by
  rw [List.foldlM_cons] at h
  cases hadd : a.add lexeme with
  | error failure =>
      rw [hadd] at h
      cases h
  | ok c =>
      rw [hadd] at h
      exact ⟨c, rfl, h⟩

/-- A closing tag is added only if it has the name of the innermost open section. -/
theorem exists_openBlocks_of_add_closing {a b : Assembly} {closing : Tag} {name : Text}
    (hclose : closing.directive = .closeBlock name) (h : a.add (.tag closing) = .ok b) :
    ∃ block blocks, a.openBlocks = block :: blocks ∧ block.name = name := by
  simp only [add, addTag, closeFault?, logTag, hclose, Directive.kind, Directive.content,
    if_true] at h
  cases ha : a.openBlocks with
  | nil => simp [ha, fail] at h
  | cons block blocks =>
      by_cases hname : block.name = name
      · exact ⟨block, blocks, rfl, hname⟩
      · simp [ha, hname, fail] at h

/-- With no section open the lexemes are well nested. Inside a section they begin with well nested
ones and the section's closing tag. -/
inductive Nested (a : Assembly) : List Lexeme → Prop where
  | whole {lexemes : List Lexeme} {nodes : List Node} :
      a.openBlocks = [] → Forms lexemes nodes → Nested a lexemes
  | closed {block : OpenBlock} {blocks : List OpenBlock} {body rest : List Lexeme} {closing : Tag}
      {nodes : List Node} :
      a.openBlocks = block :: blocks → Forms body nodes →
      closing.directive = .closeBlock block.name → Nested a (body ++ .tag closing :: rest)

theorem Nested.of_extend {a : Assembly} {front lexemes : List Lexeme} {made : List Node}
    (h : Nested (a.extend front made) lexemes)
    (hfront : ∀ rest nodes, Forms rest nodes → ∃ nodes', Forms (front ++ rest) nodes') :
    Nested a (front ++ lexemes) := by
  cases h with
  | whole hopen hforms =>
      obtain ⟨nodes', hforms'⟩ := hfront _ _ hforms
      exact .whole hopen hforms'
  | closed hopen hforms hclose =>
      obtain ⟨nodes', hforms'⟩ := hfront _ _ hforms
      rw [← List.append_assoc]
      exact .closed hopen hforms' hclose

theorem Nested.exists_forms {a : Assembly} {lexemes : List Lexeme} (h : Nested a lexemes)
    (hopen : a.openBlocks = []) : ∃ nodes, Forms lexemes nodes := by
  cases h with
  | whole _ hforms => exact ⟨_, hforms⟩
  | closed hblock =>
      rw [hopen] at hblock
      cases hblock

/-- What can be added until no section is open is nested. -/
theorem nested_of_foldlM {lexemes : List Lexeme} {a b : Assembly}
    (h : lexemes.foldlM add a = .ok b) (hb : b.openBlocks = []) : Nested a lexemes := by
  -- The rest behind a section is shorter, but it is no tail of the lexemes in the sense of
  -- structural induction.
  induction hn : lexemes.length using Nat.strongRecOn generalizing lexemes a with
  | ind n ih =>
      cases lexemes with
      | nil =>
          cases h
          exact .whole hb .nil
      | cons lexeme lexemes =>
          rw [List.length_cons] at hn
          have hlen : lexemes.length < n := by omega
          cases lexeme with
          | text t =>
              rw [foldlM_add_cons _ (add_text a t)] at h
              exact (ih _ hlen h rfl).of_extend fun _ _ hrest => ⟨_, .text hrest⟩
          | tag tag =>
              cases hd : tag.directive with
              | interpolation | comment | setDelimiters | partialRef =>
                  have hleaf : tag.directive.isBoundary = false := by rw [hd]; rfl
                  rw [foldlM_add_cons _ (add_leaf a hleaf)] at h
                  exact (ih _ hlen h rfl).of_extend fun _ _ hrest => ⟨_, .leaf hleaf hrest⟩
              | openBlock inverted name =>
                  rw [foldlM_add_cons _ (add_opening a hd)] at h
                  cases ih _ hlen h rfl with
                  | whole ha => cases ha
                  | @closed _ _ body rest closing inner ha hinner hclose =>
                      cases ha
                      rw [foldlM_add_of_forms hinner,
                        foldlM_add_cons _ (add_closing a body inner hd hclose)] at h
                      rw [List.length_append, List.length_cons] at hlen
                      have hrest := ih rest.length (by omega) h rfl
                      have hsplit : .tag tag :: (body ++ .tag closing :: rest) =
                          .tag tag :: body ++ [.tag closing] ++ rest := by simp
                      rw [hsplit]
                      refine hrest.of_extend ?_
                      intro rest nodes hnodes
                      rw [List.append_assoc, List.singleton_append]
                      exact ⟨_, .block hd hclose hinner hnodes⟩
              | closeBlock name =>
                  obtain ⟨c, hc, -⟩ := exists_add_of_foldlM_cons h
                  obtain ⟨block, blocks, ha, hname⟩ := exists_openBlocks_of_add_closing hd hc
                  have hclosed : Nested a ([] ++ .tag tag :: lexemes) :=
                    .closed ha .nil (by rw [hd, hname])
                  exact hclosed

end Assembly

/-! ## Compiling -/

namespace Assembly

theorem addBroken_ne_ok {α : Type} (a : Assembly) (tag : BrokenTag) (x : α) :
    a.addBroken tag ≠ .ok x := by
  unfold addBroken fail
  split
  · nofun
  · dsimp only
    split
    · nofun
    · nofun

theorem addBroken_of_kind {α : Type} (a : Assembly) {tag : BrokenTag}
    (hkind : ∀ head, tag.head? = some head → head.kind ≠ .closeBlock) :
    ∃ failure, (a.addBroken tag : Except Failure α) = .error failure ∧
      failure.fault = tag.fault := by
  cases hhead : tag.head? with
  | none =>
      rw [addBroken, hhead]
      exact ⟨_, rfl, rfl⟩
  | some head =>
      rw [addBroken, hhead]
      dsimp only
      rw [closeFault?, if_neg (hkind head hhead)]
      exact ⟨_, rfl, rfl⟩

theorem finish_eq_ok_iff {a : Assembly} {nodes : List Node} :
    a.finish = .ok nodes ↔ a.openBlocks = [] ∧ a.layer.nodes.reverse = nodes := by
  unfold finish fail
  cases a.openBlocks with
  | nil => simp
  | cons block blocks => simp

theorem ofLexemes_eq_ok_iff {a b : Assembly} {lexemes : Lexemes} :
    a.ofLexemes lexemes = .ok b ↔
      lexemes.broken? = none ∧ lexemes.lexemes.foldlM add a = .ok b := by
  unfold ofLexemes
  cases hf : lexemes.lexemes.foldlM add a with
  | error failure => simp
  | ok c =>
      cases lexemes.broken? with
      | none => simp
      | some tag => simp [addBroken_ne_ok]

theorem ofLexemes_cons (a : Assembly) (lexeme : Lexeme) (lexemes : List Lexeme)
    (broken? : Option BrokenTag) : a.ofLexemes ⟨lexeme :: lexemes, broken?⟩ =
      a.add lexeme >>= fun b => b.ofLexemes ⟨lexemes, broken?⟩ := by
  unfold ofLexemes
  rw [List.foldlM_cons]
  cases a.add lexeme with
  | error failure => rfl
  | ok b => rfl

end Assembly

theorem answerOf_eq_ok_iff {template : String} {result : Except Failure (List Node)} {root : Node} :
    answerOf template result = .ok root ↔ ∃ nodes, root = .multi nodes ∧ result = .ok nodes := by
  cases result with
  | error failure => simp [answerOf]
  | ok nodes => simp [answerOf, eq_comm]

theorem answerOf_eq_error_iff {template : String} {result : Except Failure (List Node)}
    {error : SyntaxError} :
    answerOf template result = .error error ↔ ∃ failure, result = .error failure ∧
      error = SyntaxError.locate template failure.offset failure.fault.message := by
  cases result with
  | error failure => simp [answerOf, eq_comm]
  | ok nodes => simp [answerOf]

variable [MarkerLimits]

/-- A template of well nested lexemes compiles to what they make, and the log tells of every tag. -/
theorem run_of_forms {d : Delimiters} {template : String} {nodes : List Node}
    (hlimit : d.withinLimit = true) (hread : (Lexemes.read d template.toList).broken? = none)
    (hforms : Forms (Lexemes.read d template.toList).lexemes nodes) :
    run d template = ⟨.ok (.multi nodes), .started template.utf8ByteSize ::
      eventsFrom 0 (Lexemes.read d template.toList).lexemes ++ [.compiled nodes.length]⟩ := by
  have hfold := Assembly.foldlM_add_of_forms hforms
    { log := [.started template.utf8ByteSize] } []
  rw [List.append_nil] at hfold
  have hassemble := Assembly.ofLexemes_eq_ok_iff.mpr ⟨hread, hfold⟩
  unfold run assemble
  rw [if_pos hlimit, hassemble]
  simp [Assembly.finish, Assembly.extend]

/-- A template compiles to a tree if and only if every lexeme can be read, they are well nested, and
the nodes are those that they make. -/
theorem compile_eq_ok_iff {d : Delimiters} {template : String} {root : Node} :
    compile d template = .ok root ↔ d.withinLimit = true ∧
      (Lexemes.read d template.toList).broken? = none ∧
      ∃ nodes, root = .multi nodes ∧ Forms (Lexemes.read d template.toList).lexemes nodes := by
  constructor
  · intro h
    by_cases hlimit : d.withinLimit = true
    · rw [compile_of_withinLimit hlimit] at h
      cases ha : Assembly.ofLexemes { log := [.started template.utf8ByteSize] }
          (Lexemes.read d template.toList) with
      | error failure =>
          rw [ha] at h
          cases h
      | ok a =>
          rw [ha] at h
          obtain ⟨nodes, rfl, hfinish⟩ := answerOf_eq_ok_iff.mp h
          obtain ⟨hopen, hnodes⟩ := Assembly.finish_eq_ok_iff.mp hfinish
          obtain ⟨hread, hfold⟩ := Assembly.ofLexemes_eq_ok_iff.mp ha
          obtain ⟨made, hforms⟩ := (Assembly.nested_of_foldlM hfold hopen).exists_forms rfl
          have hall := Assembly.foldlM_add_of_forms hforms
            { log := [.started template.utf8ByteSize] } []
          rw [List.append_nil, hfold] at hall
          cases hall
          have hsame : made = nodes := by simpa [Assembly.extend] using hnodes
          exact ⟨hlimit, hread, nodes, rfl, hsame ▸ hforms⟩
    · rw [compile_eq_answerOf, assemble, if_neg hlimit] at h
      cases h
  · intro h
    rcases h with ⟨hlimit, hread, nodes, rfl, hforms⟩
    rw [compile, run_of_forms hlimit hread hforms]

theorem compile_of_lexes {d : Delimiters} {t : Text} {lexemes : List Lexeme} {nodes : List Node}
    (hlimit : d.withinLimit = true) (hlexes : Lexes d true t lexemes)
    (hforms : Forms lexemes nodes) : compile d (String.ofList t) = .ok (.multi nodes) := by
  have hread : Lexemes.read d (String.ofList t).toList = ⟨lexemes, none⟩ := by
    rw [String.toList_ofList]
    exact hlexes.readFrom_eq
  refine compile_eq_ok_iff.mpr ⟨hlimit, by rw [hread], nodes, rfl, ?_⟩
  rw [hread]
  exact hforms

theorem exists_error_of_broken {d : Delimiters} {t : Text} {tag : BrokenTag}
    (hlimit : d.withinLimit = true) (ht : t ≠ []) (hnext : next d true t = .broken tag)
    (hkind : ∀ head, tag.head? = some head → head.kind ≠ .closeBlock) :
    ∃ error, compile d (String.ofList t) = .error error ∧ error.message = tag.fault.message := by
  obtain ⟨failure, hfailure, hfault⟩ := Assembly.addBroken_of_kind (α := Assembly)
    { log := [.started (String.ofList t).utf8ByteSize] } hkind
  have hassembled : Assembly.ofLexemes { log := [.started (String.ofList t).utf8ByteSize] }
      (Lexemes.read d (String.ofList t).toList) = .error failure := by
    rw [String.toList_ofList, Lexemes.read, Lexemes.readFrom_of_broken ht hnext]
    exact hfailure
  rw [compile_of_withinLimit hlimit, hassembled]
  refine ⟨_, rfl, ?_⟩
  rw [← hfault]
  rfl

end TagTemplate
