import TagTemplate.Json
import TagTemplate.SyntaxError
import TagTemplate.Tag.Basic

/-!
# Events

A compile keeps a log: it starts, meets tags and changes of delimiters, and ends well or badly.
Each event has a record form, a level and named fields in a fixed order.
-/

namespace TagTemplate

inductive Event where
  /-- The compile starts on a template of so many bytes. -/
  | started (size : Nat)
  /-- A tag's content was read. The offset is that of the opening marker. -/
  | tag (kind : TagKind) (content : String) (offset : Nat)
  | delimitersChanged (pair : Delimiters)
  /-- The compile ends with so many nodes below the root. -/
  | compiled (nodes : Nat)
  | failed (error : SyntaxError)
deriving DecidableEq, Repr, Inhabited

def TagKind.label : TagKind → String
  | interpolation .plain => "Escaped"
  | interpolation .braced => "Unescaped \x7b brace: true \x7d"
  | interpolation .ampersand => "Unescaped \x7b brace: false \x7d"
  | openBlock false => "Section"
  | openBlock true => "InvertedSection"
  | closeBlock => "Close"
  | comment => "Comment"
  | setDelimiters => "SetDelimiters"
  | partialRef => "Partial"

namespace Event

/-- How much detail one must ask for to see the event. -/
def level : Event → String
  | tag _ _ _ => "TRACE"
  | _ => "DEBUG"

def fields : Event → List (String × Json)
  | started size => [("message", .string "compiling template"), ("len", .number size)]
  | tag kind content offset =>
      [("message", .string "tag"), ("kind", .string kind.label), ("content", .string content),
        ("offset", .number offset)]
  | delimitersChanged pair =>
      [("message", .string "delimiters changed"), ("open", .string pair.opener),
        ("close", .string pair.closer)]
  | compiled nodes => [("message", .string "compiled template"), ("nodes", .number nodes)]
  | failed error =>
      [("message", .string "compile failed"), ("line", .number error.line),
        ("column", .number error.column), ("message", .string error.message)]

end Event

end TagTemplate
