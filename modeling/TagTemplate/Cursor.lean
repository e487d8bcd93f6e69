import TagTemplate.Pattern.Search

/-!
# Cursors

A cursor stands at a byte offset of a text. Its operations match a pattern against the rest, as
if the rest were the whole text, or seek a pattern in the text from the offset on. What they
report is what they pass over, and an operation that finds nothing leaves the cursor where it is.
A cursor may be reset to any offset; inside a character most operations fail.
-/

namespace TagTemplate

structure Cursor where
  source : String
  offset : Nat := 0
deriving DecidableEq, Repr, Inhabited

namespace Cursor

inductive Answer where
  | nothing
  | text (text : String)
  | flag (value : Bool)
  /-- The texts of the groups; group 0 is the whole match. -/
  | groups (texts : List (Option String))
deriving DecidableEq, Repr, Inhabited

inductive InsideCharacter where
  | insideCharacter
deriving DecidableEq, Repr

def size (c : Cursor) : Nat := Text.size c.source.toList

/-- The text before the cursor and the text ahead, unless it stands inside a character. -/
def split (c : Cursor) : Except InsideCharacter (Text × Text) :=
  match Text.splitAtSize? c.offset c.source.toList with
  | some parts => .ok parts
  | none => .error .insideCharacter

def atEnd (c : Cursor) : Bool := c.size ≤ c.offset

def atLineStart (c : Cursor) : Bool :=
  match c.split with
  | .ok (before, _) => before.getLast?.all (· == '\n')
  | .error _ => false

def rest (c : Cursor) : Except InsideCharacter Text := return (← c.split).2

def advance (c : Cursor) (piece : Text) : Cursor := { c with offset := c.offset + Text.size piece }

theorem split_eq_ok_iff {c : Cursor} {before ahead : Text} :
    c.split = .ok (before, ahead) ↔
      c.source.toList = before ++ ahead ∧ Text.size before = c.offset := by
  rw [← Text.splitAtSize?_eq_some_iff, split]
  cases Text.splitAtSize? c.offset c.source.toList <;> simp

theorem split_advance {c : Cursor} {before piece after : Text}
    (h : c.split = .ok (before, piece ++ after)) :
    (c.advance piece).split = .ok (before ++ piece, after) := by
  obtain ⟨hs, hn⟩ := split_eq_ok_iff.mp h
  exact split_eq_ok_iff.mpr ⟨by simp [advance, hs], by simp [advance, hn]⟩

/-- Go to an offset, or to the end if that comes first. -/
def reset (c : Cursor) (offset : Nat) : Cursor := { c with offset := min offset c.size }

def terminate (c : Cursor) : Cursor := { c with offset := c.size }

/-- The preferred match of a pattern with the rest, and its text. -/
def matchRest? (c : Cursor) (q : Pattern) :
    Except InsideCharacter (Option (Text × Pattern.Way)) := do
  let start := Place.start (← c.rest)
  return (q.match? start).map fun way => (Pattern.Span.text ⟨start, way.stop⟩, way)

def groupTexts (count : Nat) (groups : Pattern.Groups) : List (Option String) :=
  (List.range count).map fun i => (groups.lookup (i + 1)).map fun span => String.ofList span.text

/-- The place from which to seek: the next one between two characters. -/
def seekPlace? (c : Cursor) : Option Place :=
  (List.range 4).findSome? fun i =>
    (Text.splitAtSize? (c.offset + i) c.source.toList).map fun (before, ahead) =>
      ⟨before.getLast?, ahead⟩

def scan (c : Cursor) (q : Pattern) : Except InsideCharacter (Answer × Cursor) := do
  match ← c.matchRest? q with
  | some (text, _) => return (.text (String.ofList text), c.advance text)
  | none => return (.nothing, c)

def skip (c : Cursor) (q : Pattern) : Except InsideCharacter (Answer × Cursor) := do
  match ← c.matchRest? q with
  | some (text, _) => return (.flag true, c.advance text)
  | none => return (.flag false, c)

def captures (c : Cursor) (q : Pattern) : Except InsideCharacter (Answer × Cursor) := do
  match ← c.matchRest? q with
  | some (text, way) =>
      return (.groups (some (String.ofList text) :: groupTexts q.groupCount way.groups),
        c.advance text)
  | none => return (.nothing, c)

def skipText (c : Cursor) (piece : String) : Except InsideCharacter (Answer × Cursor) := do
  if piece.toList.isPrefixOf (← c.rest) then return (.flag true, c.advance piece.toList)
  else return (.flag false, c)

/-- Go to the next match of a pattern and report the text on the way. The search sees the text
before the cursor; it fails inside a character only if there is a match to go to. -/
def scanUntil (c : Cursor) (q : Pattern) : Except InsideCharacter (Answer × Cursor) := do
  match c.seekPlace?.bind q.find? with
  | none => return (.nothing, c)
  | some (text, _) =>
      let _ ← c.split
      return (.text (String.ofList text), c.advance text)

inductive Op where
  | scan (q : Pattern)
  | skip (q : Pattern)
  | captures (q : Pattern)
  | scanUntil (q : Pattern)
  | skipText (piece : String)
  | reset (offset : Nat)
  | terminate
  | rest
  | source

def perform (c : Cursor) : Op → Except InsideCharacter (Answer × Cursor)
  | .scan q => c.scan q
  | .skip q => c.skip q
  | .captures q => c.captures q
  | .scanUntil q => c.scanUntil q
  | .skipText piece => c.skipText piece
  | .reset offset => .ok (.nothing, c.reset offset)
  | .terminate => .ok (.nothing, c.terminate)
  | .rest => return (.text (String.ofList (← c.rest)), c)
  | .source => .ok (.text c.source, c)

end Cursor

end TagTemplate
