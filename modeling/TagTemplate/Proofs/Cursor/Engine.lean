import TagTemplate.Proofs.Machine.Scanner
import TagTemplate.Proofs.Position

/-!
# Cursors over an engine

A cursor need not know how patterns are matched. It can leave this to an engine, which is asked for
the leftmost match in a text from an offset on, and answers with offsets again. A match here is
sought in the text ahead as if it were the whole text, the next match in the whole text from the
offset of the cursor on, so offsets are counted from two different places. Whatever is cut out of
the text is checked.
-/

namespace TagTemplate

open Text Machine

/-! ## Engines -/

structure Finding where
  start : Nat
  stop : Nat
  groups : List (Option String) := []
deriving DecidableEq, Repr

structure Engine (Q : Type) where
  /-- The match of a pattern in a text, from an offset on. -/
  search : Q → Text → Nat → Option Finding

namespace Engine

variable {Q : Type} {E : Engine Q} {Matches : Q → Text → Nat → Nat → Prop}

/-- The engine reports leftmost matches between characters, where `Matches` tells for a pattern and
a text between which offsets the one matches in the other. -/
structure Lawful (E : Engine Q) (Matches : Q → Text → Nat → Nat → Prop) : Prop where
  found {q : Q} {t : Text} {offset : Nat} {m : Finding} (ht : IsBoundary t offset)
    (h : E.search q t offset = some m) : offset ≤ m.start ∧ m.start ≤ m.stop ∧
      IsBoundary t m.start ∧ IsBoundary t m.stop ∧ Matches q t m.start m.stop
  leftmost {q : Q} {t : Text} {offset : Nat} {m : Finding} (ht : IsBoundary t offset)
    (h : E.search q t offset = some m) {start stop : Nat} (hle : offset ≤ start)
    (hlt : start < m.start) : ¬ Matches q t start stop
  missing {q : Q} {t : Text} {offset : Nat} (ht : IsBoundary t offset)
    (h : E.search q t offset = none) {start stop : Nat} (hle : offset ≤ start) :
      ¬ Matches q t start stop

/-! ## Operations -/

inductive Op (Q : Type) where
  | scan (q : Q)
  | skip (q : Q)
  | captures (q : Q)
  | scanUntil (q : Q)
  | skipText (piece : String)
  | reset (offset : Nat)
  | terminate
  | rest
  | source
  | atEnd
  | atLineStart

def rest (c : Cursor) : Checked Text := slice c.source.toList c.offset c.size

def matchHere? (E : Engine Q) (q : Q) (c : Cursor) : Checked (Option (Text × Finding)) := do
  let ahead ← rest c
  match E.search q ahead 0 with
  | none => return none
  | some m => if m.start = 0 then return some (← slice ahead 0 m.stop, m) else return none

def passMatch (E : Engine Q) (q : Q) (c : Cursor) (failed : Cursor.Answer)
    (passed : Text → Finding → Cursor.Answer) : Checked (Cursor.Answer × Cursor) := do
  match ← E.matchHere? q c with
  | none => return (failed, c)
  | some (text, m) => return (passed text m, { c with offset := c.offset + m.stop })

/-- Perform an operation. No text is searched from behind its end. -/
def perform (E : Engine Q) (c : Cursor) : Op Q → Checked (Cursor.Answer × Cursor)
  | .scan q => E.passMatch q c .nothing fun text _ => .text (String.ofList text)
  | .skip q => E.passMatch q c (.flag false) fun _ _ => .flag true
  | .captures q =>
      E.passMatch q c .nothing fun text m => .groups (some (String.ofList text) :: m.groups)
  | .scanUntil q =>
      if c.size < c.offset then .error (.panic .adrift)
      else
        match E.search q c.source.toList c.offset with
        | none => .ok (.nothing, c)
        | some m => do
            let text ← slice c.source.toList c.offset m.start
            return (.text (String.ofList text), { c with offset := m.start })
  | .skipText piece => do
      if piece.toList.isPrefixOf (← rest c) then
        return (.flag true, { c with offset := c.offset + piece.utf8ByteSize })
      else return (.flag false, c)
  | .reset offset => .ok (.nothing, { c with offset := min offset c.size })
  | .terminate => .ok (.nothing, { c with offset := c.size })
  | .rest => return (.text (String.ofList (← rest c)), c)
  | .source => .ok (.text c.source, c)
  | .atEnd => .ok (.flag (c.size ≤ c.offset), c)
  | .atLineStart =>
      if c.offset ≤ c.size then .ok (.flag c.atLineStart, c) else .error (.panic .index)

/-! ## What the operations do -/

structure Step (Q : Type) where
  op : Op Q
  start : Nat
  answer : Cursor.Answer
  stop : Nat

def Step.consumed (source : Text) (step : Step Q) : Text := Text.slice step.start step.stop source

/-- A match at the front of the text ahead is passed over, or there is none and the cursor stays. -/
def PassesMatch (Matches : Q → Text → Nat → Nat → Prop) (q : Q) (source : Text) (start stop : Nat)
    (failed passed : Prop) : Prop :=
  let ahead := Text.slice start (size source) source
  failed ∧ stop = start ∧ (∀ n, ¬ Matches q ahead 0 n) ∨
    passed ∧ start ≤ stop ∧ Matches q ahead 0 (stop - start)

/-- What is reported is what is passed over. A step that reports a failure stays where it is. -/
def Step.Exact (Matches : Q → Text → Nat → Nat → Prop) (source : Text) (step : Step Q) : Prop :=
  let start := step.start
  let stop := step.stop
  let piece := String.ofList (step.consumed source)
  let ahead := Text.slice start (size source) source
  match step.op with
  | .scan q =>
      PassesMatch Matches q source start stop (step.answer = .nothing) (step.answer = .text piece)
  | .skip q =>
      PassesMatch Matches q source start stop (step.answer = .flag false)
        (step.answer = .flag true)
  | .captures q =>
      PassesMatch Matches q source start stop (step.answer = .nothing)
        (∃ groups, step.answer = .groups (some piece :: groups))
  | .scanUntil q =>
      step.answer = .nothing ∧ stop = start ∧
          (∀ place n, start ≤ place → ¬ Matches q source place n) ∨
        step.answer = .text piece ∧ start ≤ stop ∧ (∃ n, Matches q source stop n) ∧
          ∀ place n, start ≤ place → place < stop → ¬ Matches q source place n
  | .skipText literal =>
      step.answer = .flag false ∧ stop = start ∧ ¬ literal.toList <+: ahead ∨
        step.answer = .flag true ∧ start ≤ stop ∧ literal = piece
  | .reset offset => step.answer = .nothing ∧ stop = offset
  | .terminate => step.answer = .nothing ∧ stop = size source
  | .rest => step.answer = .text (String.ofList ahead) ∧ stop = start
  | .source => step.answer = .text (String.ofList source) ∧ stop = start
  | .atEnd => step.answer = .flag (start == size source) ∧ stop = start
  | .atLineStart =>
      step.answer = .flag (start == 0 || (Text.slice 0 start source).getLast? == some '\n') ∧
        stop = start

end Engine

end TagTemplate
