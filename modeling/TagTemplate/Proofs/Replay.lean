import TagTemplate.Assembly.Progress
import TagTemplate.Proofs.Occurrence.Log
import TagTemplate.Proofs.Tag.Fault

/-!
# Replaying the log on a stack

The tags in the log tell how sections nest: an opening tag is put on a stack, and a closing tag has
to match the one on top. A compile that succeeds gives the sections of this replay. One that fails
for a section blames the tag for which the replay gets stuck, or the innermost section that is left
on the stack at the end of the template.
-/

namespace TagTemplate

/-! ## Replays -/

/-- A section and the sections in it, by kind and name. -/
inductive Nesting where
  | block (inverted : Bool) (name : String) (inside : List Nesting)
deriving Repr

namespace Nesting

structure Frame where
  inverted : Bool
  name : String
  /-- Offset of the opening tag. -/
  offset : Nat
  /-- The sections before it in the section around it. -/
  before : List Nesting

/-- The open sections, innermost first, and the closed ones in the innermost. -/
structure Stack where
  frames : List Frame := []
  inside : List Nesting := []

/-- How a replay ends: with the stack that all tags leave, or at a closing tag, in front of the
tags that follow it. -/
inductive Verdict where
  | nested (stack : Stack)
  | unopened (name : String) (rest : List (TagKind × String × Nat))
  | mismatched (top : Frame) (rest : List (TagKind × String × Nat))

/-- Replay tags on a stack. -/
def replay : Stack → List (TagKind × String × Nat) → Verdict
  | stack, [] => .nested stack
  | stack, (.openBlock inverted, name, offset) :: tags =>
      replay ⟨⟨inverted, name, offset, stack.inside⟩ :: stack.frames, []⟩ tags
  | stack, (.closeBlock, name, _) :: tags =>
      match stack.frames with
      | [] => .unopened name tags
      | top :: frames =>
          if top.name = name then
            replay ⟨frames, top.before ++ [.block top.inverted top.name stack.inside]⟩ tags
          else .mismatched top tags
  | stack, _ :: tags => replay stack tags

example :
    replay {} [(.openBlock false, "a", 0), (.openBlock true, "b", 6), (.closeBlock, "b", 12)] =
      .nested ⟨[⟨false, "a", 0, []⟩], [.block true "b" []]⟩ := rfl

end Nesting

/-! ## The sections of a tree -/

namespace Node

mutual

def nestings : Node → List Nesting
  | multi nodes => nestingsAll nodes
  | block inverted callee body _ _ => [.block inverted callee.dotted (nestingsAll body)]
  | _ => []

def nestingsAll : List Node → List Nesting
  | [] => []
  | node :: nodes => nestings node ++ nestingsAll nodes

end

@[simp] theorem nestingsAll_nil : nestingsAll [] = [] := by simp [nestingsAll]

@[simp] theorem nestingsAll_cons (node : Node) (nodes : List Node) :
    nestingsAll (node :: nodes) = nestings node ++ nestingsAll nodes := by simp [nestingsAll]

@[simp] theorem nestingsAll_append (nodes nodes' : List Node) :
    nestingsAll (nodes ++ nodes') = nestingsAll nodes ++ nestingsAll nodes' := by
  induction nodes with
  | nil => simp
  | cons node nodes ih => simp [ih]

end Node

open Nesting

/-- Quoting leaves the name as it is. -/
def IsPlain (name : String) : Prop := quoted name = "\"" ++ name ++ "\""

theorem isPlain_ofList {name : Text} (h : ∀ c ∈ name, isContent c = true) :
    IsPlain (String.ofList name) := quoted_ofList h

namespace Layer

def nestings (layer : Layer) : List Nesting := Node.nestingsAll layer.nodes.reverse

@[simp] theorem nestings_push (layer : Layer) (node : Node) :
    (layer.push node).nestings = layer.nestings ++ node.nestings := by
  simp [nestings, push]

@[simp] theorem nestings_note (layer : Layer) (t : Text) :
    (layer.note t).nestings = layer.nestings := rfl

@[simp] theorem nestings_pushText (layer : Layer) (t : Text) :
    (layer.pushText t).nestings = layer.nestings := by
  unfold pushText
  split
  · rfl
  · simp [Node.nestings]

end Layer

def OpenBlock.frame (block : OpenBlock) : Frame where
  inverted := block.inverted
  name := String.ofList block.name
  offset := block.openedAt
  before := block.outer.nestings

namespace Assembly

def stack (a : Assembly) : Stack := ⟨a.openBlocks.map OpenBlock.frame, a.layer.nestings⟩

def tags (a : Assembly) : List (TagKind × String × Nat) := a.log.reverse.filterMap Event.tag?

theorem stack_addText (a : Assembly) (t : Text) : (a.addText t).stack = a.stack := by
  simp [stack, addText]

@[simp] theorem tags_logTag (a : Assembly) (kind : TagKind) (content indent : Text) :
    (a.logTag kind content indent).tags =
      a.tags ++ [(kind, String.ofList content, a.offset + Text.size indent)] := by
  simp [tags, logTag, Event.tag?]

@[simp] theorem tags_place (a : Assembly) (tag : Tag) : (a.place tag).tags = a.tags := by
  unfold place perform tags
  cases tag.directive with
  | setDelimiters => simp [Event.tag?]
  | interpolation | openBlock | comment | partialRef => rfl
  | closeBlock =>
      dsimp only
      split
      · rfl
      · rfl

theorem mem_openBlocks_place {a : Assembly} {tag : Tag} {block : OpenBlock}
    (h : block ∈ (a.place tag).openBlocks) :
    block ∈ a.openBlocks ∨ ∃ inverted, tag.directive = .openBlock inverted block.name ∧
      block.openedAt = a.offset + Text.size tag.indent := by
  unfold place perform at h
  cases hd : tag.directive with
  | interpolation | comment | setDelimiters | partialRef =>
      rw [hd] at h
      exact .inl h
  | openBlock inverted name =>
      rw [hd] at h
      rcases List.mem_cons.mp h with rfl | h
      · exact .inr ⟨inverted, rfl, rfl⟩
      · exact .inl h
  | closeBlock name =>
      cases hopen : a.openBlocks with
      | nil => simp [hd, hopen] at h
      | cons top blocks =>
          simp only [hd, hopen] at h
          exact .inl (List.mem_cons_of_mem _ h)

/-- A tag that closes no wrong section does to the sections what the replay does. -/
theorem replay_place {a : Assembly} {tag : Tag} {here : Nat}
    (h : a.closeFault? tag.directive.kind tag.directive.content here = none)
    (rest : List (TagKind × String × Nat)) :
    replay a.stack ((tag.directive.kind, String.ofList tag.directive.content,
      a.offset + Text.size tag.indent) :: rest) = replay (a.place tag).stack rest := by
  unfold place perform stack
  cases hd : tag.directive with
  | interpolation | comment | setDelimiters | partialRef =>
      simp [replay, Directive.kind, Node.nestings]
  | openBlock inverted name =>
      have hlayer : (a.layer.pushText tag.kept).nestings = a.layer.nestings :=
        Layer.nestings_pushText a.layer tag.kept
      simp only [replay, Directive.kind, Directive.content, List.map_cons, OpenBlock.frame,
        Layer.nestings_note, hlayer]
      rfl
  | closeBlock name =>
      cases hopen : a.openBlocks with
      | nil => simp [closeFault?, hd, hopen, Directive.kind] at h
      | cons top blocks =>
          have hname : top.name = name := by
            simpa [closeFault?, hd, hopen, Directive.kind, Directive.content] using h
          subst hname
          have hlayer : ∀ raw, (top.outer.push (.block top.inverted (.ofText top.name)
              (a.layer.pushText tag.kept).nodes.reverse raw tag.delimiters)).nestings =
                top.outer.nestings ++
                  [.block top.inverted (String.ofList top.name) a.layer.nestings] := by
            intro raw
            rw [Layer.nestings_push, Node.nestings, Path.dotted_ofText,
              ← Layer.nestings_pushText a.layer tag.kept]
            rfl
          simp only [replay, Directive.kind, Directive.content, OpenBlock.frame, List.map_cons,
            if_true]
          rw [← hlayer]
          rfl

theorem closeFault?_eq_some_iff {a : Assembly} {kind : TagKind} {content : Text} {here offset : Nat}
    {fault : Fault} :
    a.closeFault? kind content here = some (fault, offset) ↔ kind = .closeBlock ∧
      (a.openBlocks = [] ∧ fault = .closingUnopened (String.ofList content) ∧ offset = here ∨
        ∃ top blocks, a.openBlocks = top :: blocks ∧ top.name ≠ content ∧
          fault = .unclosedSection (String.ofList top.name) ∧ offset = top.openedAt) := by
  unfold closeFault?
  by_cases hkind : kind = .closeBlock
  · cases hopen : a.openBlocks with
    | nil => simp [hkind, eq_comm]
    | cons top blocks =>
        by_cases hname : top.name = content
        · simp [hkind, hname]
        · simp [hkind, hname, Ne.symm hname, eq_comm]
  · simp [hkind]

theorem exists_nested_of_closeFault? {a : Assembly} {kind : TagKind} {content : Text} {here : Nat}
    (h : a.closeFault? kind content here = none) (offset : Nat) :
    ∃ stack, replay a.stack [(kind, String.ofList content, offset)] = .nested stack := by
  cases kind with
  | interpolation | comment | setDelimiters | partialRef | openBlock => exact ⟨_, rfl⟩
  | closeBlock =>
      cases hopen : a.openBlocks with
      | nil => simp [closeFault?, hopen] at h
      | cons top blocks =>
          have hname : top.name = content := by simpa [closeFault?, hopen] using h
          simp [replay, stack, hopen, OpenBlock.frame, hname]

end Assembly

/-! ## What a replay tells of a failure -/

namespace Failure

def tags (failure : Failure) : List (TagKind × String × Nat) :=
  failure.log.reverse.filterMap Event.tag?

/-- The failure is where the replay ends: at a closing tag that finds no section or another one. If
the replay goes on to the last tag, the fault is one of a tag. -/
def Explains (failure : Failure) : Verdict → Prop
  | .nested _ => failure.fault.isOfTag = true
  | .unopened name rest => rest = [] ∧ IsPlain name ∧ failure.fault = .closingUnopened name
  | .mismatched top rest => rest = [] ∧ IsPlain top.name ∧
      failure.fault = .unclosedSection top.name ∧ failure.offset = top.offset

end Failure

namespace Assembly

/-- The replay of the tags logged so far has the sections of the assembly on its stack. -/
structure Tracks (a : Assembly) : Prop where
  names : ∀ block ∈ a.openBlocks, ∀ c ∈ block.name, isContent c = true
  replay_append : ∀ rest, replay {} (a.tags ++ rest) = replay a.stack rest

theorem tracks_start (size : Nat) : Tracks { log := [.started size] } where
  names := nofun
  replay_append _ := rfl

namespace Tracks

variable {a b : Assembly} {failure : Failure}

theorem replay_eq (h : a.Tracks) : replay {} a.tags = .nested a.stack := by
  have hnested := h.replay_append []
  rw [List.append_nil] at hnested
  exact hnested

theorem add (h : a.Tracks) {lexeme : Lexeme} (hname : lexeme.NamesSection)
    (hadd : a.add lexeme = .ok b) : b.Tracks := by
  cases lexeme with
  | text t =>
      cases hadd
      exact ⟨h.names, fun rest => by rw [stack_addText, ← h.replay_append]; rfl⟩
  | tag tag =>
      simp only [Assembly.add, addTag] at hadd
      split at hadd
      · cases hadd
      · rename_i hfault
        cases hadd
        constructor
        · intro block hblock
          rcases mem_openBlocks_place hblock with hblock | ⟨inverted, hopen, -⟩
          · exact h.names block hblock
          · rw [Lexeme.NamesSection, hopen] at hname
            exact hname rfl
        · intro rest
          rw [tags_place, tags_logTag, List.append_assoc, h.replay_append]
          exact replay_place hfault rest

/-- A closing tag that closes the wrong section, or none, ends the replay. -/
theorem explains_of_closeFault? (h : a.Tracks) {kind : TagKind} {content : Text} {here : Nat}
    {fault : Fault} {offset : Nat} (hname : IsSectionName kind content)
    (hfault : a.closeFault? kind content here = some (fault, offset)) (indent : Text) :
    Failure.Explains ⟨fault, offset, (a.logTag kind content indent).log⟩
      (replay {} (a.logTag kind content indent).tags) := by
  obtain ⟨rfl, hcase⟩ := closeFault?_eq_some_iff.mp hfault
  rw [tags_logTag, h.replay_append, stack]
  rcases hcase with ⟨hopen, rfl, rfl⟩ | ⟨top, blocks, hopen, hne, rfl, rfl⟩
  · rw [hopen]
    exact ⟨rfl, isPlain_ofList (hname rfl), rfl⟩
  · have hplain := isPlain_ofList (h.names top (by simp [hopen]))
    have hne' : String.ofList top.name ≠ String.ofList content := fun heq =>
      hne (String.ofList_inj.mp heq)
    rw [hopen]
    simp only [List.map_cons, replay, OpenBlock.frame, if_neg hne']
    exact ⟨rfl, hplain, rfl, rfl⟩

theorem explains_of_add (h : a.Tracks) {lexeme : Lexeme} (hname : lexeme.NamesSection)
    (hadd : a.add lexeme = .error failure) : failure.Explains (replay {} failure.tags) := by
  cases lexeme with
  | text t => cases hadd
  | tag tag =>
      simp only [Assembly.add, addTag] at hadd
      split at hadd
      · rename_i fault offset hfault
        cases hadd
        exact h.explains_of_closeFault? hname hfault tag.indent
      · cases hadd

theorem explains_of_addBroken {α : Type} (h : a.Tracks) {tag : BrokenTag}
    (htag : tag.FaultsInTag) (hadd : (a.addBroken tag : Except Failure α) = .error failure) :
    failure.Explains (replay {} failure.tags) := by
  unfold addBroken at hadd
  cases hhead : tag.head? with
  | none =>
      simp only [hhead, fail, Except.error.injEq] at hadd
      subst hadd
      rw [show Failure.tags ⟨tag.fault, _, a.log⟩ = a.tags from rfl, h.replay_eq]
      exact htag.fault
  | some head =>
      simp only [hhead] at hadd
      split at hadd
      · rename_i fault offset hfault
        cases hadd
        exact h.explains_of_closeFault? (htag.names_section head hhead) hfault tag.indent
      · rename_i hfault
        cases hadd
        obtain ⟨stack, hstack⟩ :=
          exists_nested_of_closeFault? hfault (a.offset + Text.size tag.indent)
        have htags : Failure.tags ⟨tag.fault, a.offset + Text.size tag.indent +
            Text.size tag.front + Text.size tag.back,
              (a.logTag head.kind head.content tag.indent).log⟩ =
              (a.logTag head.kind head.content tag.indent).tags := rfl
        have hend : replay {} (a.logTag head.kind head.content tag.indent).tags =
            .nested stack := by
          rw [tags_logTag, h.replay_append]
          exact hstack
        rw [htags, hend]
        exact htag.fault

/-- The replay keeps up with an assembly, and where the assembly fails it tells why. -/
theorem foldlM_add (h : a.Tracks) {lexemes : List Lexeme}
    (hnames : ∀ x ∈ lexemes, x.NamesSection) :
    (∀ b, lexemes.foldlM Assembly.add a = .ok b → b.Tracks) ∧
      ∀ failure, lexemes.foldlM Assembly.add a = .error failure →
        failure.Explains (replay {} failure.tags) := by
  induction lexemes generalizing a with
  | nil =>
      constructor
      · intro b hb
        cases hb
        exact h
      · nofun
  | cons lexeme lexemes ih =>
      have hname := hnames lexeme List.mem_cons_self
      cases hadd : a.add lexeme with
      | error failure =>
          have hfold : (lexeme :: lexemes).foldlM Assembly.add a = .error failure := by
            rw [List.foldlM_cons, hadd]
            rfl
          rw [hfold]
          constructor
          · nofun
          · intro failure' heq
            cases heq
            exact h.explains_of_add hname hadd
      | ok b =>
          rw [foldlM_add_cons lexemes hadd]
          exact ih (h.add hname hadd) fun x hx => hnames x (List.mem_cons_of_mem _ hx)

theorem ofLexemes (h : a.Tracks) {lexemes : Lexemes}
    (hnames : ∀ x ∈ lexemes.lexemes, x.NamesSection)
    (hbroken : ∀ tag, lexemes.broken? = some tag → tag.FaultsInTag) :
    (∀ b, a.ofLexemes lexemes = .ok b → b.Tracks) ∧
      ∀ failure, a.ofLexemes lexemes = .error failure →
        failure.Explains (replay {} failure.tags) := by
  obtain ⟨hok, herror⟩ := h.foldlM_add hnames
  constructor
  · intro b hb
    exact hok b (ofLexemes_eq_ok_iff.mp hb).2
  · intro failure hfailure
    unfold Assembly.ofLexemes at hfailure
    cases hfold : lexemes.lexemes.foldlM Assembly.add a with
    | error failure' =>
        rw [hfold] at hfailure
        cases hfailure
        exact herror failure hfold
    | ok b =>
        rw [hfold] at hfailure
        cases hb : lexemes.broken? with
        | none => simp [hb] at hfailure
        | some tag =>
            simp only [hb] at hfailure
            exact (hok b hfold).explains_of_addBroken (hbroken tag hb) hfailure

end Tracks

theorem offset_of_foldlM {lexemes : List Lexeme} {a b : Assembly}
    (h : lexemes.foldlM add a = .ok b) : b.offset = a.offset + Text.size (sourceOf lexemes) := by
  induction lexemes generalizing a with
  | nil =>
      cases h
      rfl
  | cons lexeme lexemes ih =>
      obtain ⟨c, hc, hrest⟩ := exists_add_of_foldlM_cons h
      rw [ih hrest, offset_add hc, sourceOf_cons, Text.size_append, Nat.add_assoc]

end Assembly

open Assembly

section

variable [MarkerLimits]

section Assemble

variable {d : Delimiters} {template : String}

theorem tracks_of_assemble {n : Nat} {a : Assembly}
    (h : assemble d template.toList { log := [.started n] } = .ok a) :
    a.Tracks ∧ a.offset = template.utf8ByteSize := by
  unfold assemble at h
  split at h
  · have htracks := ((tracks_start n).ofLexemes
      (fun _ => namesSection_of_mem_read) fun _ => faultsInTag_of_read).1 a h
    obtain ⟨hread, hfold⟩ := ofLexemes_eq_ok_iff.mp h
    have hsource := Lexemes.flatMap_source_read hread
    have hoffset := offset_of_foldlM hfold
    rw [sourceOf, hsource, Text.size_toList, Nat.zero_add] at hoffset
    exact ⟨htracks, hoffset⟩
  · cases h

theorem explains_of_assemble {n : Nat} {failure : Failure}
    (h : assemble d template.toList { log := [.started n] } = .error failure) :
    failure.Explains (replay {} failure.tags) := by
  unfold assemble at h
  split at h
  · exact ((tracks_start n).ofLexemes
      (fun _ => namesSection_of_mem_read) fun _ => faultsInTag_of_read).2 failure h
  · cases h
    exact rfl

end Assemble

/-! ## Answers -/

def loggedTags (d : Delimiters) (template : String) : List (TagKind × String × Nat) :=
  (trace d template).filterMap Event.tag?

/-- The whole template was read and put together, whether or not a section is left open. -/
def Consumed (d : Delimiters) (template : String) : Prop :=
  ∃ a, assemble d template.toList { log := [.started template.utf8ByteSize] } = .ok a ∧
    a.offset = template.utf8ByteSize

/-- How the replay of the log and the answer of the compile may end together. -/
inductive EndsAs (d : Delimiters) (template : String) :
    Verdict → Except SyntaxError Node → Prop where
  | compiled (root : Node) : EndsAs d template (.nested ⟨[], root.nestings⟩) (.ok root)
  | leftOpen (top : Frame) (frames : List Frame) (inside : List Nesting) :
      Consumed d template → IsPlain top.name →
      EndsAs d template (.nested ⟨top :: frames, inside⟩)
        (.error (SyntaxError.locate template top.offset (Fault.unclosedSection top.name).message))
  | tagFault (stack : Stack) (fault : Fault) (offset : Nat) : fault.isOfTag = true →
      EndsAs d template (.nested stack) (.error (SyntaxError.locate template offset fault.message))
  | unopened (name : String) (offset : Nat) : IsPlain name →
      EndsAs d template (.unopened name [])
        (.error (SyntaxError.locate template offset (Fault.closingUnopened name).message))
  | mismatched (top : Frame) : IsPlain top.name →
      EndsAs d template (.mismatched top [])
        (.error (SyntaxError.locate template top.offset (Fault.unclosedSection top.name).message))

end

theorem filterMap_events_ofFailure (template : String) (failure : Failure) :
    (Outcome.ofFailure template failure).events.filterMap Event.tag? = failure.tags := by
  simp [Outcome.ofFailure, Failure.tags, Event.tag?]

/-- Whatever the pair and the template, the replay and the compile end together. -/
theorem endsAs_compile [MarkerLimits] (d : Delimiters) (template : String) :
    EndsAs d template (replay {} (loggedTags d template)) (compile d template) := by
  unfold loggedTags trace compile run
  cases hassemble : assemble d template.toList { log := [.started template.utf8ByteSize] } with
  | error failure =>
      have hexplains := explains_of_assemble hassemble
      dsimp only
      rw [filterMap_events_ofFailure]
      unfold Outcome.ofFailure
      cases hverdict : replay {} failure.tags with
      | nested stack =>
          rw [hverdict] at hexplains
          exact .tagFault stack failure.fault failure.offset hexplains
      | unopened name rest =>
          rw [hverdict] at hexplains
          obtain ⟨rfl, hplain, hfault⟩ := hexplains
          rw [hfault]
          exact .unopened name failure.offset hplain
      | mismatched top rest =>
          rw [hverdict] at hexplains
          obtain ⟨rfl, hplain, hfault, hoffset⟩ := hexplains
          rw [hfault, hoffset]
          exact .mismatched top hplain
  | ok a =>
      obtain ⟨htracks, hoffset⟩ := tracks_of_assemble hassemble
      dsimp only
      cases hopen : a.openBlocks with
      | nil =>
          have hfinish := finish_eq_ok_iff.mpr ⟨hopen, rfl⟩
          have htags : (Event.compiled a.layer.nodes.reverse.length :: a.log).reverse.filterMap
              Event.tag? = a.tags := by
            simp [tags, Event.tag?]
          rw [hfinish]
          dsimp only
          rw [htags, htracks.replay_eq, stack, hopen]
          exact .compiled (.multi a.layer.nodes.reverse)
      | cons block blocks =>
          have hplain := isPlain_ofList (htracks.names block (by simp [hopen]))
          have hfinish : a.finish = .error ⟨.unclosedSection (String.ofList block.name),
              block.openedAt, a.log⟩ := by
            simp [finish, hopen, fail]
          have htags : Failure.tags ⟨.unclosedSection (String.ofList block.name), block.openedAt,
              a.log⟩ = a.tags := rfl
          rw [hfinish]
          dsimp only
          rw [filterMap_events_ofFailure, htags, htracks.replay_eq, stack, hopen]
          exact .leftOpen block.frame _ _ ⟨a, hassemble, hoffset⟩ hplain

/-! ## Messages -/

theorem message_unclosedSection {name : String} (h : IsPlain name) :
    (Fault.unclosedSection name).message = "Unclosed section \"" ++ name ++ "\"" := by
  change "Unclosed section " ++ quoted name = _
  rw [h]
  simp [← String.append_assoc]

theorem message_closingUnopened {name : String} (h : IsPlain name) :
    (Fault.closingUnopened name).message = "Closing unopened \"" ++ name ++ "\"" := by
  change "Closing unopened " ++ quoted name = _
  rw [h]
  simp [← String.append_assoc]

theorem unclosedSection_inj {name name' : String}
    (h : "Unclosed section \"" ++ name ++ "\"" = "Unclosed section \"" ++ name' ++ "\"") :
    name = name' := by
  rw [← String.toList_inj] at h ⊢
  simpa using h

theorem message_ne_of_isOfTag {fault : Fault} (h : fault.isOfTag = true) (name : String) :
    fault.message ≠ "Unclosed section \"" ++ name ++ "\"" := by
  intro heq
  rw [← String.toList_inj] at heq
  cases fault with
  | unclosedTag =>
      change "Unclosed tag".toList = _ at heq
      simp at heq
  | illegalContent =>
      change "Illegal content in tag".toList = _ at heq
      simp at heq
  | invalidDelimiters =>
      change "Invalid delimiters".toList = _ at heq
      simp at heq
  | closingUnopened | unclosedSection => cases h

theorem closing_ne_unclosed (name name' : String) :
    "Closing unopened \"" ++ name ++ "\"" ≠ "Unclosed section \"" ++ name' ++ "\"" := by
  intro heq
  rw [← String.toList_inj] at heq
  simp at heq

variable [MarkerLimits]

/-- The answer of a compile and the replay of its log agree on how sections nest and on which tag is
to blame. -/
structure AgreesWithReplay (d : Delimiters) (template : String) : Prop where
  /-- A tree has the sections that the replay closes, and the replay closes all. -/
  nested : ∀ root, compile d template = .ok root →
    replay {} (loggedTags d template) = .nested ⟨[], root.nestings⟩
  /-- A closing tag that finds no open section is the last one and the error names it. -/
  unopened : ∀ name rest, replay {} (loggedTags d template) = .unopened name rest →
    rest = [] ∧ ∃ error, compile d template = .error error ∧
      error.message = "Closing unopened \"" ++ name ++ "\""
  /-- A closing tag that finds another section is the last one and the error names that section,
  where it was opened. -/
  mismatched : ∀ top rest, replay {} (loggedTags d template) = .mismatched top rest →
    rest = [] ∧ compile d template = .error (SyntaxError.locate template top.offset
      ("Unclosed section \"" ++ top.name ++ "\""))
  /-- No other sections are blamed, except the innermost one at the end of the template. -/
  unclosed : ∀ error name, compile d template = .error error →
    error.message = "Unclosed section \"" ++ name ++ "\"" →
      ∃ top, top.name = name ∧
        error = SyntaxError.locate template top.offset error.message ∧
        (replay {} (loggedTags d template) = .mismatched top [] ∨
          Consumed d template ∧ ∃ frames inside,
            replay {} (loggedTags d template) = .nested ⟨top :: frames, inside⟩)
  /-- On any other error the replay goes on to the last tag. -/
  otherwise : ∀ error, compile d template = .error error →
    (∀ name, error.message ≠ "Closing unopened \"" ++ name ++ "\"") →
    (∀ name, error.message ≠ "Unclosed section \"" ++ name ++ "\"") →
      ∃ stack, replay {} (loggedTags d template) = .nested stack

/-- For every template, whether it compiles or not, a replay of the tags in its log tells how its
sections nest and, if they do not, which tag is to blame. -/
theorem compile_agreesWithReplay (d : Delimiters) (template : String) :
    AgreesWithReplay d template := by
  have hends := endsAs_compile d template
  constructor
  · intro root h
    rw [h] at hends
    generalize replay {} (loggedTags d template) = verdict at hends ⊢
    cases hends with
    | compiled => rfl
  · intro name rest h
    rw [h] at hends
    generalize compile d template = answer at hends ⊢
    cases hends with
    | unopened _ offset hplain => exact ⟨rfl, _, rfl, message_closingUnopened hplain⟩
  · intro top rest h
    rw [h] at hends
    generalize compile d template = answer at hends ⊢
    cases hends with
    | mismatched _ hplain =>
        rw [message_unclosedSection hplain]
        exact ⟨rfl, rfl⟩
  · intro error name h hmessage
    rw [h] at hends
    generalize replay {} (loggedTags d template) = verdict at hends ⊢
    cases hends with
    | leftOpen top frames inside hconsumed hplain =>
        have hname := unclosedSection_inj ((message_unclosedSection hplain).symm.trans hmessage)
        exact ⟨top, hname, rfl, .inr ⟨hconsumed, frames, inside, rfl⟩⟩
    | tagFault stack fault offset hfault =>
        exact absurd hmessage (message_ne_of_isOfTag hfault name)
    | unopened _ offset hplain =>
        exact absurd ((message_closingUnopened hplain).symm.trans hmessage)
          (closing_ne_unclosed _ name)
    | mismatched top hplain =>
        have hname := unclosedSection_inj ((message_unclosedSection hplain).symm.trans hmessage)
        exact ⟨top, hname, rfl, .inl rfl⟩
  · intro error h hclosing hunclosed
    rw [h] at hends
    generalize replay {} (loggedTags d template) = verdict at hends ⊢
    cases hends with
    | leftOpen | tagFault => exact ⟨_, rfl⟩
    | unopened name offset hplain =>
        exact absurd (message_closingUnopened hplain) (hclosing name)
    | mismatched top hplain =>
        exact absurd (message_unclosedSection hplain) (hunclosed top.name)

end TagTemplate
