import TagTemplate.Argument.Token
import TagTemplate.Delimiters
import TagTemplate.Fault
import TagTemplate.Node.Basic

/-!
# Tags

A tag opens with the opening marker and perhaps a sigil, which says what kind of tag it is.
Then come its content and, for an interpolation, arguments. The pieces of a tag's text are
kept, so that nothing of the template is lost in reading it.
-/

namespace TagTemplate

inductive Sigil where
  | hash | caret | slash | bang | equals | less | greater | brace | ampersand
deriving DecidableEq, Repr, Inhabited

namespace Sigil

def toChar : Sigil → Char
  | hash => '#'
  | caret => '^'
  | slash => '/'
  | bang => '!'
  | equals => '='
  | less => '<'
  | greater => '>'
  | brace => '\x7b'
  | ampersand => '&'

def ofChar? (c : Char) : Option Sigil :=
  [hash, caret, slash, bang, equals, less, greater, brace, ampersand].find? (·.toChar == c)

theorem ofChar?_toChar (sigil : Sigil) : ofChar? sigil.toChar = some sigil := by
  cases sigil <;> decide

theorem toChar_of_ofChar? {c : Char} {sigil : Sigil} (h : ofChar? c = some sigil) :
    sigil.toChar = c := by
  simpa using List.find?_some h

end Sigil

inductive InterpolationForm where
  /-- Without a sigil. -/
  | plain
  /-- With a brace after the opening marker and one before the closing marker. -/
  | braced
  | ampersand
deriving DecidableEq, Repr, Inhabited

/-- Only the plain form asks for escaping. -/
def InterpolationForm.escape : InterpolationForm → Escape
  | plain => .escaped
  | braced | ampersand => .unescaped

inductive TagKind where
  | interpolation (form : InterpolationForm)
  | openBlock (inverted : Bool)
  | closeBlock
  | comment
  | setDelimiters
  | partialRef
deriving DecidableEq, Repr, Inhabited

/-- The kind that a sigil, or the lack of one, stands for. -/
def TagKind.ofSigil : Option Sigil → TagKind
  | none => interpolation .plain
  | some .brace => interpolation .braced
  | some .ampersand => interpolation .ampersand
  | some .hash => openBlock false
  | some .caret => openBlock true
  | some .slash => closeBlock
  | some .bang => comment
  | some .equals => setDelimiters
  | some .less | some .greater => partialRef

structure TagHead where
  sigil : Option Sigil
  content : Text
deriving DecidableEq, Repr, Inhabited

def TagHead.kind (head : TagHead) : TagKind := .ofSigil head.sigil

inductive Directive where
  | interpolation (form : InterpolationForm) (callee : Text) (args : List ArgumentToken)
  | openBlock (inverted : Bool) (name : Text)
  | closeBlock (name : Text)
  | comment (text : Text)
  /-- Read on with another pair, which `text` spells. -/
  | setDelimiters (text : Text) (pair : Delimiters)
  | partialRef (name : Text)
deriving DecidableEq, Repr, Inhabited

namespace Directive

def kind : Directive → TagKind
  | interpolation form _ _ => .interpolation form
  | openBlock inverted _ => .openBlock inverted
  | closeBlock _ => .closeBlock
  | comment _ => .comment
  | setDelimiters _ _ => .setDelimiters
  | partialRef _ => .partialRef

def content : Directive → Text
  | interpolation _ callee _ => callee
  | openBlock _ name | closeBlock name | partialRef name => name
  | comment text | setDelimiters text _ => text

/-- A tag that only shows a value shares its line with the text around it; the others may have
a line to themselves. -/
def isInterpolation : Directive → Bool
  | interpolation _ _ _ => true
  | _ => false

end Directive

/-- A tag with the text it was read from, piece by piece. -/
structure Tag where
  /-- The pair with which the tag was read. -/
  delimiters : Delimiters
  /-- Spaces and tabs before the opening marker. -/
  indent : Text
  /-- The opening marker and everything up to the end of the content. -/
  front : Text
  /-- From there through the closing marker. -/
  back : Text
  /-- The line break that goes with the tag when it has a line to itself. -/
  lineBreak : Text
  directive : Directive
  /-- Nothing but `indent` stands before the tag on its line. -/
  opensLine : Bool
  /-- The tag has a line to itself, so that the whole line goes with it. -/
  standsAlone : Bool
deriving DecidableEq, Repr, Inhabited

namespace Tag

def written (tag : Tag) : Text := tag.front ++ tag.back

/-- All text that goes with the tag. -/
def source (tag : Tag) : Text := tag.indent ++ tag.front ++ tag.back ++ tag.lineBreak

/-- The indentation that stays as text. -/
def kept (tag : Tag) : Text := if tag.standsAlone then [] else tag.indent

/-- The indentation that a partial passes on to each of its lines. -/
def padding (tag : Tag) : Text := if tag.opensLine then tag.indent else []

end Tag

structure BrokenTag where
  indent : Text
  /-- The text up to the end of the content, or up to the fault if that comes first. -/
  front : Text
  /-- From the end of the content up to the fault. -/
  back : Text
  /-- The front of the tag if it could be read. -/
  head? : Option TagHead
  fault : Fault
deriving DecidableEq, Repr, Inhabited

end TagTemplate
