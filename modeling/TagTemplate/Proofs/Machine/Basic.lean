import TagTemplate.Compile
import TagTemplate.Cursor
import TagTemplate.Pattern.Catalogue
import TagTemplate.Proofs.Tag.Reader

/-!
# A compile by offsets

A compile may work on offsets alone: it moves a cursor along the template, remembers offsets, depths
and indices, and comes back to them later. The machine below does so. Whatever it does at an offset,
a depth or an index is checked, and where nothing can be done there, it panics.
-/

namespace TagTemplate.Machine

/-! ## Checked operations -/

/-- What a machine cannot do. -/
inductive Panic where
  /-- To cut out a text between two offsets of which one is inside a character or beyond the end,
  or that are in the wrong order. -/
  | slice
  /-- To take the greater offset from the lesser one. -/
  | underflow
  /-- To find a byte, a section or a place among nodes where there is none. -/
  | index
  /-- To go on with a cursor that has left the template or stands inside a character. -/
  | adrift
  /-- To go on with a cursor that has not moved. -/
  | standstill
deriving DecidableEq, Repr

inductive Halt where
  | panic (cause : Panic)
  /-- The template is at fault. -/
  | refused (error : SyntaxError)
deriving DecidableEq, Repr

abbrev Checked (α : Type) := Except Halt α

def difference (m n : Nat) : Checked Nat :=
  if n ≤ m then .ok (m - n) else .error (.panic .underflow)

def slice (t : Text) (start stop : Nat) : Checked Text :=
  match Text.splitAtSize? stop t with
  | none => .error (.panic .slice)
  | some (before, _) =>
      match Text.splitAtSize? start before with
      | none => .error (.panic .slice)
      | some (_, piece) => .ok piece

/-- The error for an offset, or for the end if that comes first. Its line is cut out of the
source. -/
def locate (source : String) (offset : Nat) (message : String) : Checked SyntaxError := do
  let t := source.toList
  let offset := min offset (Text.size t)
  let consumed ← slice t 0 offset
  let ahead ← slice t offset (Text.size t)
  let lineStart := Text.size (consumed.rdropWhile (· ≠ '\n'))
  let lineEnd := offset + Text.size (ahead.takeWhile (· ≠ '\n'))
  let column ← difference offset lineStart
  let line ← slice t lineStart lineEnd
  return {
    message
    line := consumed.count '\n' + 1
    column
    sourceLine := String.ofList (line.rdropWhile (· == '\r')) }

def refuse {α : Type} (source : String) (offset : Nat) (fault : Fault) : Checked α := do
  .error (.refused (← locate source offset fault.message))

/-! ## Scanners -/

/-- The cursor stands in the text, between two characters or at an end. -/
def onBoundary (c : Cursor) : Bool := (Text.splitAtSize? c.offset c.source.toList).isSome

/-- A part of a compile that moves nothing but the cursor. -/
abbrev Scanner (α : Type) := StateT Cursor (Except Halt) α

/-- Let the cursor perform an operation, and look where it stands then. -/
def perform (op : Cursor.Op) : Scanner Cursor.Answer := fun c =>
  match c.perform op with
  | .error _ => .error (.panic .slice)
  | .ok (answer, moved) =>
      if onBoundary moved then .ok (answer, moved) else .error (.panic .adrift)

def textOf? : Cursor.Answer → Option Text
  | .text t => some t.toList
  | _ => none

def flagOf : Cursor.Answer → Bool
  | .flag value => value
  | _ => false

def groupOf? : Cursor.Answer → Option Text
  | .groups texts => some ((texts.getD 1 none).getD "").toList
  | _ => none

def scan (q : Pattern) : Scanner (Option Text) := return textOf? (← perform (.scan q))

def skip (q : Pattern) : Scanner Bool := return flagOf (← perform (.skip q))

def captures (q : Pattern) : Scanner (Option Text) := return groupOf? (← perform (.captures q))

def scanUntil (q : Pattern) : Scanner (Option Text) := return textOf? (← perform (.scanUntil q))

def skipText (piece : Text) : Scanner Bool :=
  return flagOf (← perform (.skipText (String.ofList piece)))

def failHere {α : Type} (fault : Fault) : Scanner α := fun c => refuse c.source c.offset fault

def expectText (piece : Text) (fault : Fault) : Scanner Unit := do
  if ! (← skipText piece) then failHere fault

def scanText (d : Delimiters) : Scanner Text := do
  match ← scanUntil (Pattern.textEnd d) with
  | some text => return text
  | none =>
      let rest := textOf? (← perform .rest)
      let _ ← perform .terminate
      return rest.getD []

def scanContent (d : Delimiters) (sigil : Option Sigil) : Scanner Text := do
  match sigil with
  | some .bang => untilFreeEnd .bang
  | some .equals => untilFreeEnd .equals
  | _ => return (← scan Pattern.content).getD []
where
  untilFreeEnd (sigil : Sigil) : Scanner Text := do
    match ← scanUntil (Pattern.freeEnd d sigil) with
    | some content => return content
    | none => failHere .unclosedTag

def scanHead (d : Delimiters) : Scanner TagHead := do
  let mark ← scan Pattern.sigil
  let sigil := (mark.bind List.head?).bind Sigil.ofChar?
  let _ ← skip Pattern.spaces
  let content ← scanContent d sigil
  if content = [] then failHere .illegalContent else return ⟨sigil, content⟩

def scanToken (stop : Text) : Scanner (Option Text) := do
  match ArgumentToken.cut? stop ((textOf? (← perform .rest)).getD []) with
  | some (piece, _) =>
      let _ ← skipText piece
      return some piece
  | none => return none

/-- Pass over an argument. If its text does not spell one, the cursor goes back. -/
def scanArgument (stop : Text) : Scanner ArgumentToken := do
  let start := (← get).offset
  match (← scanToken stop).bind ArgumentToken.classify? with
  | some token => return token
  | none =>
      let _ ← perform (.reset start)
      failHere .unclosedTag

def scanArguments (stop close : Text) : (scans : Nat) → Scanner (List ArgumentToken)
  | 0 => failHere .unclosedTag
  | scans + 1 => do
      let _ ← skip Pattern.someSpaces
      if ← skipText close then return []
      else
        let token ← scanArgument stop
        let tokens ← scanArguments stop close scans
        return token :: tokens

def scanEnd (d : Delimiters) (head : TagHead) : Scanner (List ArgumentToken) := do
  let closer := d.closer.toList
  let _ ← skip Pattern.spaces
  match head.kind with
  | .interpolation form => scanArguments closer (form.close closer) ArgumentToken.scanLimit
  | _ =>
      if let some sigil := head.sigil then
        let _ ← skipText [sigil.toChar]
      expectText closer .unclosedTag
      return []

/-- Pass over the line break behind a tag that has its line to itself, and tell whether it has. -/
def scanLineEnd (kind : TagKind) : Scanner Bool := do
  match kind with
  | .interpolation _ => return false
  | _ => if (← get).atEnd then return true else skip Pattern.lineBreak

/-! ## States -/

structure Frame where
  name : Text
  inverted : Bool
  callee : Path
  /-- Offset of the opening marker of its opening tag. -/
  openedAt : Nat
  /-- Offset behind the opening tag, once that tag has been read to its end. -/
  bodyStart : Option Nat
  body : List Node
deriving DecidableEq, Repr

structure State where
  cursor : Cursor
  delimiters : Delimiters
  /-- The nodes outside all open sections. -/
  root : List Node := []
  /-- The open sections, outermost first. -/
  sections : List Frame := []
deriving DecidableEq, Repr

variable [MarkerLimits]

namespace State

def start (d : Delimiters) (template : String) : State :=
  { cursor := ⟨template, 0⟩, delimiters := d }

def withCursor (s : State) (cursor : Cursor) : State := { s with cursor }

/-- The nodes at a depth. -/
def buffer (s : State) : (depth : Nat) → Checked (List Node)
  | 0 => .ok s.root
  | index + 1 =>
      match s.sections[index]? with
      | some frame => .ok frame.body
      | none => .error (.panic .index)

def setBuffer (s : State) : (depth : Nat) → List Node → State
  | 0, nodes => { s with root := nodes }
  | index + 1, nodes =>
      { s with sections := s.sections.modify index fun frame => { frame with body := nodes } }

/-- Put a node among those at a depth, in front of the one with the index. -/
def insert (s : State) (depth index : Nat) (node : Node) : Checked State := do
  let nodes ← s.buffer depth
  if index ≤ nodes.length then return s.setBuffer depth (nodes.insertIdx index node)
  else .error (.panic .index)

def push (s : State) (node : Node) : Checked State := do
  let nodes ← s.buffer s.sections.length
  return s.setBuffer s.sections.length (nodes ++ [node])

def pushText (s : State) (t : Text) : Checked State :=
  if t = [] then .ok s else s.push (.static (String.ofList t))

def refuseAt {α : Type} (s : State) (fault : Fault) (offset : Nat) : Checked α :=
  refuse s.cursor.source offset fault

/-- A line starts at the cursor, as the byte before it tells. -/
def startsLine (s : State) : Checked Bool :=
  if s.cursor.offset ≤ s.cursor.size then .ok s.cursor.atLineStart else .error (.panic .index)

/-! ## Tags -/

/-- What is kept in mind while a tag is read. -/
structure Opening where
  lineStart : Bool
  /-- The depth at which the tag stands, and the number of nodes there. -/
  depth : Nat
  insertAt : Nat
  /-- Offset of the opening marker. -/
  tagStart : Nat
  /-- The indentation of a tag that opens a line. -/
  padding : Text
deriving DecidableEq, Repr

/-- Pass over the opening marker if a tag opens here. Indentation inside a line is text. -/
def openTag (s : State) : Checked (Option (Opening × State)) := do
  let lineStart ← s.startsLine
  let depth := s.sections.length
  let insertAt := (← s.buffer depth).length
  let (indent?, cursor) ← captures (Pattern.tagOpening s.delimiters) s.cursor
  match indent? with
  | none => return none
  | some indent =>
      let tagStart ← difference cursor.offset s.delimiters.opener.utf8ByteSize
      let s := s.withCursor cursor
      if lineStart then return some (⟨true, depth, insertAt, tagStart, indent⟩, s)
      else
        let s ← s.pushText indent
        return some (⟨false, depth, insertAt, tagStart, []⟩, s)

def dispatch (s : State) (opening : Opening) (head : TagHead) : Checked State :=
  match head.kind with
  | .openBlock inverted =>
      .ok { s with
        sections := s.sections ++
          [⟨head.content, inverted, .ofText head.content, opening.tagStart, none, []⟩] }
  | .closeBlock =>
      match s.sections.getLast? with
      | none => s.refuseAt (.closingUnopened (String.ofList head.content)) s.cursor.offset
      | some frame =>
          if frame.name = head.content then .ok s
          else s.refuseAt (.unclosedSection (String.ofList frame.name)) frame.openedAt
  | .setDelimiters =>
      match Directive.pair? head.content with
      | some _ => .ok s
      | none => s.refuseAt .invalidDelimiters s.cursor.offset
  | .partialRef => s.push (.partialRef (String.ofList head.content) (String.ofList opening.padding))
  | .comment | .interpolation _ => .ok s

def showValue (s : State) (head : TagHead) (args : List ArgumentToken) : Checked State :=
  match head.kind with
  | .interpolation form =>
      s.push (.interpolation form.escape (.ofText head.content) (Argument.ofTokens args))
  | _ => .ok s

/-- Give back the indentation of a tag that opens a line but does not have it to itself. -/
def keepPadding (s : State) (opening : Opening) (head : TagHead) : Checked State :=
  if opening.lineStart then do
    let (alone, cursor) ← scanLineEnd head.kind s.cursor
    let s := s.withCursor cursor
    if ! alone && opening.padding ≠ [] then
      s.insert opening.depth opening.insertAt (.static (String.ofList opening.padding))
    else return s
  else .ok s

def closeSection (s : State) (tagStart : Nat) : Checked State :=
  match s.sections.getLast? with
  | none => .ok s
  | some frame => do
      let raw ← slice s.cursor.source.toList (min (frame.bodyStart.getD tagStart) tagStart) tagStart
      let s := { s with sections := s.sections.dropLast }
      s.push (.block frame.inverted frame.callee frame.body (String.ofList raw) s.delimiters)

def switch (s : State) (head : TagHead) : State :=
  match head.kind with
  | .setDelimiters => { s with delimiters := (Directive.pair? head.content).getD s.delimiters }
  | _ => s

/-- Note where the body of the innermost section starts, unless that is known. -/
def enterBody (s : State) : State :=
  { s with
    sections := s.sections.modify (s.sections.length - 1) fun frame =>
      { frame with bodyStart := some (frame.bodyStart.getD s.cursor.offset) } }

/-- Do what a tag asks for once it has been read to its end. -/
def settle (s : State) (opening : Opening) (head : TagHead) : Checked State := do
  let s ← if head.kind = .closeBlock then s.closeSection opening.tagStart else .ok s
  return (s.switch head).enterBody

def endTag (s : State) (opening : Opening) (head : TagHead) : Checked State := do
  let (args, cursor) ← scanEnd s.delimiters head s.cursor
  let s ← (s.withCursor cursor).showValue head args
  let s ← s.keepPadding opening head
  s.settle opening head

def readTag (s : State) (opening : Opening) : Checked State := do
  let (head, cursor) ← scanHead s.delimiters s.cursor
  let s ← (s.withCursor cursor).dispatch opening head
  s.endTag opening head

def readText (s : State) : Checked State := do
  let (text, cursor) ← scanText s.delimiters s.cursor
  (s.withCursor cursor).pushText text

/-! ## Runs -/

/-- Read a tag, or a run of text if no tag opens here. -/
def round (s : State) : Checked State := do
  match ← s.openTag with
  | some (opening, s) => s.readTag opening
  | none => s.readText

def finish (s : State) : Checked (List Node) :=
  match s.sections.getLast? with
  | none => .ok s.root
  | some frame => s.refuseAt (.unclosedSection (String.ofList frame.name)) frame.openedAt

def remaining (s : State) : Nat := s.cursor.size - s.cursor.offset

/-- Do rounds up to the end of the template. -/
def run (s : State) : Checked (List Node) :=
  if s.cursor.atEnd then s.finish
  else
    match s.round with
    | .error halt => .error halt
    | .ok t => if t.remaining < s.remaining then t.run else .error (.panic .standstill)
termination_by s.remaining

end State

/-- Compile a template by offsets. A pair that is too long is refused before anything is read. -/
def compile (d : Delimiters) (template : String) : Checked Node := do
  if d.withinLimit then return .multi (← (State.start d template).run)
  else refuse template 0 .invalidDelimiters

/-- The states between the rounds of a compile. -/
inductive Reachable (d : Delimiters) (template : String) : State → Prop
  | start : Reachable d template (.start d template)
  | round {s t : State} (hs : Reachable d template s) (hend : s.cursor.atEnd = false)
      (hround : s.round = .ok t) : Reachable d template t

end TagTemplate.Machine
