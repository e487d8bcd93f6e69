import TagTemplate.Path

/-!
# Arguments of interpolations

An interpolation passes values by position, and values by name.
-/

namespace TagTemplate

inductive Value where
  /-- A quoted literal, without its quotes. -/
  | quoted (text : String)
  /-- A numeral, as it was written. -/
  | number (numeral : String)
  | path (path : Path)
deriving DecidableEq, Repr, Inhabited

/-- Named values in the order in which they were written. A name may occur more than once. -/
structure NamedArguments where
  entries : List (String × Value) := []
deriving DecidableEq, Repr, Inhabited

namespace NamedArguments

/-- The first value written under a name. -/
def get? (args : NamedArguments) (name : String) : Option Value :=
  (args.entries.find? (·.1 == name)).map (·.2)

def isEmpty (args : NamedArguments) : Bool := args.entries.isEmpty

end NamedArguments

inductive Argument where
  | positional (value : Value)
  /-- All named values of the tag together. -/
  | named (args : NamedArguments)
deriving DecidableEq, Repr, Inhabited

def Argument.namedOf (args : List Argument) : NamedArguments :=
  (args.findSome? fun
    | .named values => some values
    | .positional _ => none).getD {}

end TagTemplate
