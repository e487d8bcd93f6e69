import TagTemplate.Assembly.Basic

/-!
# Compiling templates

A compile reads the lexemes of a template and assembles them. Its answer is a tree or a located
error, and beside it the log of what happened. Every compile starts afresh with the pair it is
given, so a change of delimiters inside one template never reaches the next.
-/

namespace TagTemplate

structure Outcome where
  result : Except SyntaxError Node
  events : List Event

variable [MarkerLimits]

/-- Read a template and put it together, after what is already in place. A pair that is too long
is refused before anything is read. -/
def assemble (d : Delimiters) (template : Text) (a : Assembly) : Except Failure Assembly :=
  if d.withinLimit then a.ofLexemes (Lexemes.read d template) else a.fail .invalidDelimiters 0

def Outcome.ofFailure (template : String) (failure : Failure) : Outcome :=
  let error := SyntaxError.locate template failure.offset failure.fault.message
  ⟨.error error, (.failed error :: failure.log).reverse⟩

def run (d : Delimiters) (template : String) : Outcome :=
  match assemble d template.toList { log := [.started template.utf8ByteSize] } with
  | .error failure => .ofFailure template failure
  | .ok a =>
      match a.finish with
      | .error failure => .ofFailure template failure
      | .ok nodes => ⟨.ok (.multi nodes), (.compiled nodes.length :: a.log).reverse⟩

/-- The tree of a template, or the first error in it. -/
def compile (d : Delimiters) (template : String) : Except SyntaxError Node :=
  (run d template).result

def trace (d : Delimiters) (template : String) : List Event := (run d template).events

end TagTemplate
