import TagTemplate.Fault
import TagTemplate.Text.Basic

/-!
# Located errors

An error names the line and the column of its place, both found from an offset into the
template. It is shown with the line, trimmed, and a caret under the column.
-/

namespace TagTemplate

/-- A located error. Lines count from 1, columns in bytes from 0; `sourceLine` is the line
without the carriage returns at its end. -/
structure SyntaxError where
  message : String
  line : Nat
  column : Nat
  sourceLine : String
deriving DecidableEq, Repr, Inhabited

namespace SyntaxError

def locate (source : String) (offset : Nat) (message : String) : SyntaxError :=
  let t := source.toList
  let (before, after) := (Text.splitAtSize? offset t).getD (t, [])
  let lineBefore := (before.reverse.takeWhile (· ≠ '\n')).reverse
  let lineAfter := after.takeWhile (· ≠ '\n')
  { message
    line := before.count '\n' + 1
    column := Text.size lineBefore
    sourceLine := String.ofList (Text.splitEndWhile (· == '\r') (lineBefore ++ lineAfter)).1 }

/-- How many characters of the trimmed line stand before the column; none when the column lies
in the indentation or inside a character. -/
def caretIndent (line : Text) (column : Nat) : Nat :=
  let indent := line.takeWhile isSpace
  match Text.splitAtSize? (min column (Text.size line)) line with
  | some (before, _) => before.length - indent.length
  | none => 0

def excerpt (line : Text) (column : Nat) : String :=
  String.ofList (Text.trim line) ++ "\n    " ++
    String.ofList (List.replicate (caretIndent line column) ' ') ++ "^"

def display (e : SyntaxError) : String :=
  e.message ++ "\n  Line " ++ e.line.repr ++ "\n    " ++ excerpt e.sourceLine.toList e.column

example : (locate "one\ntwo\r\nthree" 6 "x").line = 2 := by decide

example : (locate "one\ntwo\r\nthree" 6 "x").sourceLine = "two" := by decide

end SyntaxError

end TagTemplate
