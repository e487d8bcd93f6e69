import TagTemplate.Text.Quoted

/-!
# Faults

What can be wrong with a template. Each fault is raised at one place of the text.
-/

namespace TagTemplate

inductive Fault where
  /-- A tag does not end where it has to. -/
  | unclosedTag
  | illegalContent
  /-- A directive holds no usable pair, or the configured pair is too long. -/
  | invalidDelimiters
  /-- A closing tag stands where no section is open. -/
  | closingUnopened (name : String)
  /-- A section ends with the template, or is met by the closing tag of another. -/
  | unclosedSection (name : String)
deriving DecidableEq, Repr, Inhabited

def Fault.message : Fault → String
  | unclosedTag => "Unclosed tag"
  | illegalContent => "Illegal content in tag"
  | invalidDelimiters => "Invalid delimiters"
  | closingUnopened name => "Closing unopened " ++ quoted name
  | unclosedSection name => "Unclosed section " ++ quoted name

end TagTemplate
