import TagTemplate.Pattern.Basic
import TagTemplate.Tag.Reader

/-!
# A catalogue of patterns

The patterns of the tag language, those with a marker in them for any pair of delimiters, and
two of general use.
-/

namespace TagTemplate.Pattern

def sigil : Pattern := seq textStart (char (Sigil.ofChar? · |>.isSome))

def spaces : Pattern := seq textStart (many isSpace)

def someSpaces : Pattern := seq textStart (someOf isSpace)

def lineBreak : Pattern := seq textStart (seq (option (char (· == '\r'))) (char (· == '\n')))

def content : Pattern := seq textStart (many isContent)

/-- A tag here, its indentation in group 1. -/
def tagOpening (d : Delimiters) : Pattern :=
  seq textStart (seq (group 1 (many isIndent)) (literal d.opener.toList))

/-- The end of a run of text: the next tag, with its indentation when it opens a line. -/
def textEnd (d : Delimiters) : Pattern :=
  seq (option (seq lineStart (many isIndent))) (literal d.opener.toList)

def lineOpening (d : Delimiters) : Pattern :=
  seq lineStart (seq (many isIndent) (literal d.opener.toList))

/-- The end of a tag with free text, with the sigil that may balance it. -/
def freeEnd (d : Delimiters) (sigil : Sigil) : Pattern :=
  seq (many isSpace) (seq (option (char (· == sigil.toChar))) (literal d.closer.toList))

def literalIn (quote : Char) : Pattern :=
  seq (char (· == quote)) (seq (many (· != quote)) (char (· == quote)))

def word (stop : Text) : Pattern := someOf fun c => ArgumentToken.isBare c && ! stop.contains c

def value (stop : Text) : Pattern := alt (literalIn '"') (alt (literalIn '\'') (word stop))

/-- A token here: a value, perhaps with a name and an equals sign before it. -/
def token (stop : Text) : Pattern :=
  seq textStart (seq (option (seq (word stop) (char (· == '=')))) (value stop))

def digits : Pattern := someOf Char.isDigit

/-- A lower-case name in group 1, an equals sign, and perhaps a numeral in group 2. -/
def assignment : Pattern :=
  seq (group 1 (someOf Char.isLower))
    (seq (char (· == '=')) (option (group 2 (someOf Char.isDigit))))

end TagTemplate.Pattern
