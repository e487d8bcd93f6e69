import TagTemplate.Event
import TagTemplate.Lexeme.Sequence

/-!
# Assembling the tree

Lexemes are put together one by one. An open section sets the layer around it aside until its
closing tag comes. Every layer keeps the text that it was read from, which for the body of a
section becomes the section's raw text.
-/

namespace TagTemplate

/-- The nodes of one level of nesting, last one first, and the text they were read from. -/
structure Layer where
  nodes : List Node := []
  raw : String := ""
deriving Repr, Inhabited

namespace Layer

def push (layer : Layer) (node : Node) : Layer := { layer with nodes := node :: layer.nodes }

def pushText (layer : Layer) (t : Text) : Layer :=
  if t = [] then layer else layer.push (.static (String.ofList t))

theorem raw_pushText (layer : Layer) (t : Text) : (layer.pushText t).raw = layer.raw := by
  unfold pushText
  split
  · rfl
  · rfl

def note (layer : Layer) (t : Text) : Layer := { layer with raw := layer.raw ++ String.ofList t }

end Layer

structure OpenBlock where
  inverted : Bool
  name : Text
  /-- Offset of the opening marker of the section's opening tag. -/
  openedAt : Nat
  /-- The layer in which the section stands, opening tag included. -/
  outer : Layer
deriving Repr, Inhabited

/-- A template put together as far as it was read. -/
structure Assembly where
  layer : Layer := {}
  /-- The open sections, innermost first. -/
  openBlocks : List OpenBlock := []
  /-- Number of bytes read. -/
  offset : Nat := 0
  /-- What happened, last event first. -/
  log : List Event := []
deriving Repr, Inhabited

/-- A fault, the offset of its place, and what happened before it, last event first. -/
structure Failure where
  fault : Fault
  offset : Nat
  log : List Event
deriving DecidableEq, Repr

namespace Assembly

def fail {α : Type} (a : Assembly) (fault : Fault) (offset : Nat) : Except Failure α :=
  .error ⟨fault, offset, a.log⟩

def logTag (a : Assembly) (kind : TagKind) (content indent : Text) : Assembly :=
  { a with log := .tag kind (String.ofList content) (a.offset + Text.size indent) :: a.log }

/-- What is wrong with a closing tag, and where: no section is open, which shows after the
content at offset `here`, or the innermost one has another name and is itself to blame. Tags of
the other kinds pass. -/
def closeFault? (a : Assembly) (kind : TagKind) (content : Text) (here : Nat) :
    Option (Fault × Nat) :=
  if kind = .closeBlock then
    match a.openBlocks with
    | [] => some (.closingUnopened (String.ofList content), here)
    | block :: _ =>
        if block.name = content then none
        else some (.unclosedSection (String.ofList block.name), block.openedAt)
  else none

/-- Do what a tag asks for. Indentation that stays as text has been added, but the tag's own
text is not noted yet. -/
def perform (a : Assembly) (tag : Tag) : Assembly :=
  let noted := a.layer.note tag.source
  match tag.directive with
  | .interpolation form callee args =>
      { a with layer :=
          noted.push (.interpolation form.escape (.ofText callee) (Argument.ofTokens args)) }
  | .comment _ => { a with layer := noted }
  | .setDelimiters _ pair => { a with layer := noted, log := .delimitersChanged pair :: a.log }
  | .partialRef name =>
      { a with layer :=
          noted.push (.partialRef (String.ofList name) (String.ofList tag.padding)) }
  | .openBlock inverted name =>
      { a with
        layer := {}
        openBlocks := ⟨inverted, name, a.offset + Text.size tag.indent, noted⟩ :: a.openBlocks }
  | .closeBlock _ =>
      match a.openBlocks with
      | [] => { a with layer := noted }
      | block :: openBlocks =>
          let body := a.layer.note tag.indent
          let node := Node.block block.inverted (.ofText block.name) body.nodes.reverse body.raw
            tag.delimiters
          let outer := block.outer.push node
          { a with
            layer := { outer with
              raw := outer.raw ++ body.raw ++ String.ofList (tag.written ++ tag.lineBreak) }
            openBlocks }

def place (a : Assembly) (tag : Tag) : Assembly :=
  let placed := { a with layer := a.layer.pushText tag.kept }.perform tag
  { placed with offset := a.offset + Text.size tag.source }

def addTag (a : Assembly) (tag : Tag) : Except Failure Assembly :=
  let a := a.logTag tag.directive.kind tag.directive.content tag.indent
  match a.closeFault? tag.directive.kind tag.directive.content
      (a.offset + Text.size tag.indent + Text.size tag.front) with
  | some (fault, offset) => a.fail fault offset
  | none => .ok (a.place tag)

def addText (a : Assembly) (t : Text) : Assembly :=
  { a with layer := (a.layer.pushText t).note t, offset := a.offset + Text.size t }

def add (a : Assembly) : Lexeme → Except Failure Assembly
  | .text t => .ok (a.addText t)
  | .tag tag => a.addTag tag

/-- The failure at a broken tag. A closing tag that closes the wrong section, or none, is to blame
for that first. -/
def addBroken {α : Type} (a : Assembly) (tag : BrokenTag) : Except Failure α :=
  let here := a.offset + Text.size tag.indent + Text.size tag.front
  match tag.head? with
  | none => a.fail tag.fault here
  | some head =>
      let a := a.logTag head.kind head.content tag.indent
      match a.closeFault? head.kind head.content here with
      | some (fault, offset) => a.fail fault offset
      | none => a.fail tag.fault (here + Text.size tag.back)

def finish (a : Assembly) : Except Failure (List Node) :=
  match a.openBlocks with
  | [] => .ok a.layer.nodes.reverse
  | block :: _ => a.fail (.unclosedSection (String.ofList block.name)) block.openedAt

def ofLexemes (a : Assembly) (lexemes : Lexemes) : Except Failure Assembly :=
  match lexemes.lexemes.foldlM add a with
  | .error failure => .error failure
  | .ok a =>
      match lexemes.broken? with
      | none => .ok a
      | some tag => a.addBroken tag

end Assembly

end TagTemplate
