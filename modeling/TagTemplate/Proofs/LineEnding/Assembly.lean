import Mathlib.Data.List.Forall2
import TagTemplate.Assembly.Progress
import TagTemplate.Proofs.Assembly.Grammar
import TagTemplate.Proofs.LineEnding.Lexeme

/-!
# Assembling in both spellings

Two assemblies, one for each spelling, stand at the same place of the template and have the same
sections open, each opened at the same place. What they put together differs in literal text alone.
A lexeme keeps it so, or is refused for the same fault at the same place.
-/

namespace TagTemplate

open Text

/-! ## Trees -/

def Argument.withCrlf : Argument → Argument
  | positional value => positional value.withCrlf
  | named args => named ⟨args.entries.map fun entry => (entry.1, entry.2.withCrlf)⟩

namespace Node

mutual

/-- The node with the line ends of literal text spelled out, in itself and in its descendants. -/
def withCrlf (node : Node) : Node :=
  match node with
  | multi nodes => multi (withCrlfAll nodes)
  | static text => static (crlfString text)
  | interpolation escape callee args =>
      interpolation escape callee (args.map Argument.withCrlf)
  | block inverted callee body raw d =>
      block inverted callee (withCrlfAll body) (crlfString raw) d
  | partialRef name padding => partialRef name padding

def withCrlfAll (nodes : List Node) : List Node :=
  match nodes with
  | [] => []
  | node :: nodes => withCrlf node :: withCrlfAll nodes

end

theorem withCrlfAll_eq_map (nodes : List Node) : withCrlfAll nodes = nodes.map withCrlf := by
  induction nodes with
  | nil => rfl
  | cons node nodes ih => rw [withCrlfAll, ih, List.map_cons]

end Node

open ArgumentToken in
theorem Argument.ofTokens_withCrlf (tokens : List ArgumentToken) :
    ofTokens (tokens.map ArgumentToken.withCrlf) = (ofTokens tokens).map Argument.withCrlf := by
  have hpositional : (tokens.map ArgumentToken.withCrlf).filterMap positional? =
      (tokens.filterMap positional?).map Argument.withCrlf := by
    rw [List.filterMap_map, List.map_filterMap]
    congr 1
    funext token
    cases token <;> rfl
  have hentries : (tokens.map ArgumentToken.withCrlf).filterMap entry? =
      (tokens.filterMap entry?).map fun entry => (entry.1, entry.2.withCrlf) := by
    rw [List.filterMap_map, List.map_filterMap]
    congr 1
    funext token
    cases token <;> rfl
  rw [ofTokens_eq, ofTokens_eq, hpositional, hentries]
  cases tokens.filterMap entry? with
  | nil => simp
  | cons entry entries => simp [Argument.withCrlf]

/-! ## Layers -/

def Layer.withCrlf (layer : Layer) : Layer where
  nodes := layer.nodes.map Node.withCrlf
  raw := crlfString layer.raw

namespace Layer

theorem withCrlf_push (layer : Layer) (node : Node) :
    (layer.push node).withCrlf = layer.withCrlf.push node.withCrlf := rfl

theorem withCrlf_note (layer : Layer) (t : Text) :
    (layer.note t).withCrlf = layer.withCrlf.note (crlf t) := by
  simp [withCrlf, note, crlfString_append]

theorem withCrlf_pushText (layer : Layer) (t : Text) :
    (layer.pushText t).withCrlf = layer.withCrlf.pushText (crlf t) := by
  unfold pushText
  simp only [crlf_eq_nil_iff]
  split
  · rfl
  · rw [withCrlf_push, Node.withCrlf, crlfString_ofList]

end Layer

/-! ## Places -/

/-- The offsets are those of one place of the text, in the two spellings. -/
def SamePlace (t : Text) (n n' : Nat) : Prop :=
  ∃ front, front <+: t ∧ n = size front ∧ n' = size (crlf front)

/-- Two answers are related values, or the same fault at the same place. -/
inductive Mirrored {α : Type} (t : Text) (R : α → α → Prop) :
    Except Failure α → Except Failure α → Prop where
  | ok {x y : α} : R x y → Mirrored t R (.ok x) (.ok y)
  | error {f g : Failure} : f.fault = g.fault → SamePlace t f.offset g.offset →
      Mirrored t R (.error f) (.error g)

theorem Mirrored.bind {α β : Type} {t : Text} {R : α → α → Prop} {S : β → β → Prop}
    {x y : Except Failure α} {f g : α → Except Failure β} (h : Mirrored t R x y)
    (hfg : ∀ a b, R a b → Mirrored t S (f a) (g b)) : Mirrored t S (x >>= f) (y >>= g) := by
  cases h with
  | ok hr => exact hfg _ _ hr
  | error hfault hplace => exact .error hfault hplace

/-- The section was opened by the same tag, in the two spellings of the template. -/
structure OpenBlock.Mirrors (t : Text) (b b' : OpenBlock) : Prop where
  inverted_eq : b'.inverted = b.inverted
  name_eq : b'.name = b.name
  openedAt : SamePlace t b.openedAt b'.openedAt
  outer_eq : b'.outer = b.outer.withCrlf

theorem kind_withCrlf (directive : Directive) : directive.withCrlf.kind = directive.kind := by
  cases directive <;> rfl

theorem content_withCrlf {directive : Directive} (h : directive.kind = .closeBlock) :
    directive.withCrlf.content = directive.content := by
  cases directive with
  | closeBlock name => rfl
  | interpolation | openBlock | comment | setDelimiters | partialRef => cases h

theorem TagHead.content_withCrlf {head : TagHead} (h : head.kind = .closeBlock) :
    head.withCrlf.content = head.content := by
  obtain ⟨sigil, content⟩ := head
  cases sigil with
  | none => cases h
  | some sigil =>
      cases sigil with
      | slash => rfl
      | hash | caret | bang | equals | less | greater | brace | ampersand => cases h

namespace Assembly

/-- The assemblies have read the same front of the template, each in its spelling. -/
structure Mirrors (t before : Text) (a a' : Assembly) : Prop where
  layer_eq : a'.layer = a.layer.withCrlf
  openBlocks : List.Forall₂ (OpenBlock.Mirrors t) a.openBlocks a'.openBlocks
  offset_eq : a.offset = size before
  offset_crlf_eq : a'.offset = size (crlf before)

variable {t before : Text} {a a' : Assembly}

theorem Mirrors.samePlace (h : Mirrors t before a a') {piece : Text}
    (hstands : before ++ piece <+: t) :
    SamePlace t (a.offset + size piece) (a'.offset + size (crlf piece)) :=
  ⟨before ++ piece, hstands, by rw [size_append, h.offset_eq],
    by rw [crlf_append, size_append, h.offset_crlf_eq]⟩

theorem Mirrors.samePlace_front (h : Mirrors t before a a') {indent front : Text}
    (hindent : IsInline indent) (hstands : before ++ (indent ++ front) <+: t) :
    SamePlace t (a.offset + size indent + size front)
      (a'.offset + size indent + size (crlf front)) := by
  have hsame := h.samePlace hstands
  rwa [crlf_append, hindent.crlf_eq, size_append, size_append, ← Nat.add_assoc,
    ← Nat.add_assoc] at hsame

/-- A closing tag is to blame in both or in none, for the same fault at the same place. -/
theorem Mirrors.closeFault? {α : Type} {R : α → α → Prop} (h : Mirrors t before a a')
    {kind : TagKind} {content content' : Text} {here here' : Nat} {x x' : Except Failure α}
    (hcontent : kind = .closeBlock → content' = content) (hhere : SamePlace t here here')
    (hpasses : Mirrored t R x x') :
    Mirrored t R
      (match a.closeFault? kind content here with
        | some (fault, offset) => a.fail fault offset
        | none => x)
      (match a'.closeFault? kind content' here' with
        | some (fault, offset) => a'.fail fault offset
        | none => x') := by
  unfold Assembly.closeFault?
  by_cases hkind : kind = .closeBlock
  · rw [if_pos hkind, if_pos hkind, hcontent hkind]
    have hblocks := h.openBlocks
    cases ha : a.openBlocks with
    | nil =>
        rw [ha, List.forall₂_nil_left_iff] at hblocks
        rw [hblocks]
        exact .error rfl hhere
    | cons block blocks =>
        rw [ha, List.forall₂_cons_left_iff] at hblocks
        obtain ⟨block', blocks', hblock, -, ha'⟩ := hblocks
        rw [ha']
        dsimp only
        rw [hblock.name_eq]
        by_cases hname : block.name = content
        · rw [if_pos hname, if_pos hname]
          exact hpasses
        · rw [if_neg hname, if_neg hname]
          exact .error rfl hblock.openedAt
  · rw [if_neg hkind, if_neg hkind]
    exact hpasses

/-- A tag does the same in both. The names that it holds are the same, and so is its
indentation. -/
theorem Mirrors.perform (h : Mirrors t before a a') {tag : Tag} (hindent : IsInline tag.indent)
    (hopened : SamePlace t (a.offset + size tag.indent) (a'.offset + size tag.indent)) :
    (a'.perform tag.withCrlf).layer = (a.perform tag).layer.withCrlf ∧
      List.Forall₂ (OpenBlock.Mirrors t) (a.perform tag).openBlocks
        (a'.perform tag.withCrlf).openBlocks := by
  have hnoted : a'.layer.note tag.withCrlf.source = (a.layer.note tag.source).withCrlf := by
    have hsource : tag.withCrlf.source = crlf tag.source := @source_withCrlf (.tag tag) hindent
    rw [hsource, h.layer_eq, Layer.withCrlf_note]
  have hblocks := h.openBlocks
  unfold Assembly.perform
  dsimp only
  rw [hnoted, show tag.withCrlf.directive = tag.directive.withCrlf from rfl]
  cases hdirective : tag.directive with
  | interpolation form callee args =>
      refine ⟨?_, hblocks⟩
      simp only [Directive.withCrlf]
      rw [Layer.withCrlf_push, Node.withCrlf, Argument.ofTokens_withCrlf]
  | comment text => exact ⟨rfl, hblocks⟩
  | setDelimiters text pair => exact ⟨rfl, hblocks⟩
  | partialRef name => exact ⟨rfl, hblocks⟩
  | openBlock inverted name => exact ⟨rfl, .cons ⟨rfl, rfl, hopened, rfl⟩ hblocks⟩
  | closeBlock name =>
      simp only [Directive.withCrlf]
      generalize a.openBlocks = blocks at hblocks
      generalize a'.openBlocks = blocks' at hblocks
      cases hblocks with
      | nil => exact ⟨rfl, .nil⟩
      | @cons block block' _ _ hblock hrest =>
          refine ⟨?_, hrest⟩
          have hbody : a'.layer.note tag.withCrlf.indent = (a.layer.note tag.indent).withCrlf := by
            rw [h.layer_eq, Layer.withCrlf_note, hindent.crlf_eq]
            rfl
          have hwritten : tag.withCrlf.written ++ tag.withCrlf.lineBreak =
              crlf (tag.written ++ tag.lineBreak) := by
            simp [Tag.written, Tag.withCrlf]
          dsimp only
          rw [hbody, hwritten, hblock.inverted_eq, hblock.name_eq, hblock.outer_eq]
          have hdelimiters : tag.withCrlf.delimiters = tag.delimiters := rfl
          simp [Layer.withCrlf, Layer.push, Node.withCrlf, Node.withCrlfAll_eq_map,
            crlfString_append, hdelimiters]

theorem Mirrors.place (h : Mirrors t before a a') {tag : Tag} (hindent : IsInline tag.indent)
    (hstands : before ++ tag.source <+: t) :
    Mirrors t (before ++ tag.source) (a.place tag) (a'.place tag.withCrlf) := by
  have hsource : tag.withCrlf.source = crlf tag.source := @source_withCrlf (.tag tag) hindent
  have hkept : crlf tag.kept = tag.kept := by
    unfold Tag.kept
    split
    · rfl
    · exact hindent.crlf_eq
  have hlayer : a'.layer.pushText tag.withCrlf.kept = (a.layer.pushText tag.kept).withCrlf := by
    rw [h.layer_eq, Layer.withCrlf_pushText, hkept]
    rfl
  have hopened : SamePlace t (a.offset + size tag.indent) (a'.offset + size tag.indent) := by
    have hfront : before ++ tag.indent <+: t := by
      refine .trans ?_ hstands
      rw [Tag.source_eq, List.append_assoc tag.indent]
      exact (List.prefix_append_right_inj _).mpr (List.prefix_append _ _)
    have hsame := h.samePlace hfront
    rwa [hindent.crlf_eq] at hsame
  have hpushed : Mirrors t before { a with layer := a.layer.pushText tag.kept }
      { a' with layer := a'.layer.pushText tag.withCrlf.kept } :=
    ⟨hlayer, h.openBlocks, h.offset_eq, h.offset_crlf_eq⟩
  have hperformed := hpushed.perform hindent hopened
  refine ⟨hperformed.1, hperformed.2, ?_, ?_⟩
  · rw [offset_place, h.offset_eq, size_append]
  · rw [offset_place, h.offset_crlf_eq, hsource, crlf_append, size_append]

theorem Mirrors.add (h : Mirrors t before a a') {x : Lexeme} (hindent : x.IndentIsInline)
    (hstands : before ++ x.source <+: t) :
    Mirrored t (Mirrors t (before ++ x.source)) (a.add x) (a'.add x.withCrlf) := by
  cases x with
  | text u =>
      refine .ok ⟨?_, h.openBlocks, ?_, ?_⟩
      · simp only [addText]
        rw [h.layer_eq, Layer.withCrlf_note, Layer.withCrlf_pushText]
      · rw [offset_addText, h.offset_eq, Lexeme.source, size_append]
      · rw [offset_addText, h.offset_crlf_eq, Lexeme.source, crlf_append, size_append]
  | tag tag =>
      have hkind : tag.withCrlf.directive.kind = tag.directive.kind := kind_withCrlf tag.directive
      have hlogged : Mirrors t before
          (a.logTag tag.directive.kind tag.directive.content tag.indent)
          (a'.logTag tag.directive.kind tag.withCrlf.directive.content tag.indent) :=
        ⟨h.layer_eq, h.openBlocks, h.offset_eq, h.offset_crlf_eq⟩
      have hfront : before ++ (tag.indent ++ tag.front) <+: t := by
        refine .trans ((List.prefix_append_right_inj _).mpr ?_) hstands
        exact ⟨tag.back ++ tag.lineBreak, by simp [Lexeme.source, Tag.source]⟩
      have hhere := h.samePlace_front hindent hfront
      unfold Assembly.add addTag
      dsimp only [Lexeme.withCrlf]
      rw [hkind]
      exact hlogged.closeFault? content_withCrlf hhere (.ok (hlogged.place hindent hstands))

theorem Mirrors.addBroken {α : Type} (R : α → α → Prop) (h : Mirrors t before a a')
    {tag : BrokenTag} (hindent : IsInline tag.indent)
    (hstands : before ++ (tag.indent ++ (tag.front ++ tag.back)) <+: t) :
    Mirrored t R (a.addBroken tag) (a'.addBroken tag.withCrlf) := by
  have hfront : before ++ (tag.indent ++ tag.front) <+: t :=
    .trans ⟨tag.back, by simp⟩ hstands
  have hhere := h.samePlace_front hindent hfront
  have hback := h.samePlace_front hindent hstands
  rw [crlf_append, size_append, size_append, ← Nat.add_assoc, ← Nat.add_assoc] at hback
  cases hhead : tag.head? with
  | none =>
      have hhead' : tag.withCrlf.head? = none := by rw [BrokenTag.withCrlf, hhead, Option.map_none]
      rw [Assembly.addBroken, Assembly.addBroken, hhead, hhead']
      exact .error rfl hhere
  | some head =>
      have hhead' : tag.withCrlf.head? = some head.withCrlf := by
        rw [BrokenTag.withCrlf, hhead, Option.map_some]
      have hlogged : Mirrors t before (a.logTag head.kind head.content tag.indent)
          (a'.logTag head.kind head.withCrlf.content tag.indent) :=
        ⟨h.layer_eq, h.openBlocks, h.offset_eq, h.offset_crlf_eq⟩
      rw [Assembly.addBroken, Assembly.addBroken, hhead, hhead']
      exact hlogged.closeFault? TagHead.content_withCrlf hhere (.error rfl hback)

theorem Mirrors.finish (h : Mirrors t before a a') :
    Mirrored t (fun nodes nodes' => nodes' = nodes.map Node.withCrlf) a.finish a'.finish := by
  have hblocks := h.openBlocks
  unfold Assembly.finish
  cases ha : a.openBlocks with
  | nil =>
      rw [ha, List.forall₂_nil_left_iff] at hblocks
      rw [hblocks]
      refine .ok ?_
      rw [h.layer_eq, Layer.withCrlf, List.map_reverse]
  | cons block blocks =>
      rw [ha, List.forall₂_cons_left_iff] at hblocks
      obtain ⟨block', blocks', hblock, -, ha'⟩ := hblocks
      rw [ha']
      exact .error (by rw [hblock.name_eq]) hblock.openedAt

/-! ## Whole templates -/

theorem Mirrors.foldlM_add (h : Mirrors t before a a') {lexemes : List Lexeme}
    (hindent : ∀ x ∈ lexemes, x.IndentIsInline) (hstands : before ++ sourceOf lexemes <+: t) :
    Mirrored t (Mirrors t (before ++ sourceOf lexemes)) (lexemes.foldlM Assembly.add a)
      ((lexemes.map Lexeme.withCrlf).foldlM Assembly.add a') := by
  induction lexemes generalizing before a a' with
  | nil => exact .ok (by simpa using h)
  | cons x lexemes ih =>
      obtain ⟨hx, hrest⟩ := List.forall_mem_cons.mp hindent
      rw [sourceOf_cons, ← List.append_assoc] at hstands ⊢
      have hfirst : before ++ x.source <+: t := (List.prefix_append _ _).trans hstands
      rw [List.map_cons, List.foldlM_cons, List.foldlM_cons]
      exact (h.add hx hfirst).bind fun b b' hb => ih hb hrest hstands

theorem Mirrors.ofLexemes (h : Mirrors t before a a') {lexemes : Lexemes}
    (hindent : ∀ x ∈ lexemes.lexemes, x.IndentIsInline)
    (hstands : before ++ sourceOf lexemes.lexemes <+: t)
    (hbroken : ∀ tag, lexemes.broken? = some tag → IsInline tag.indent ∧
      before ++ sourceOf lexemes.lexemes ++ (tag.indent ++ (tag.front ++ tag.back)) <+: t) :
    Mirrored t (Mirrors t (before ++ sourceOf lexemes.lexemes)) (a.ofLexemes lexemes)
      (a'.ofLexemes lexemes.withCrlf) := by
  have hfold := h.foldlM_add hindent hstands
  unfold Assembly.ofLexemes
  dsimp only [Lexemes.withCrlf]
  generalize lexemes.lexemes.foldlM Assembly.add a = x at hfold
  generalize (lexemes.lexemes.map Lexeme.withCrlf).foldlM Assembly.add a' = x' at hfold
  cases hfold with
  | error hfault hplace => exact .error hfault hplace
  | ok hb =>
      cases htag : lexemes.broken? with
      | none => exact .ok hb
      | some tag =>
          obtain ⟨hinline, hsource⟩ := hbroken tag htag
          exact hb.addBroken _ hinline hsource

end Assembly

end TagTemplate
