import TagTemplate.Proofs.Assembly.Grammar
import TagTemplate.Proofs.Occurrence.Basic

/-!
# Occurrences in the log

The log tells of every tag when its content was read. For a template that compiles, it tells of the
tags that occur in it, in order.
-/

namespace TagTemplate

open Text

def Event.tag? : Event → Option (TagKind × String × Nat)
  | tag kind content offset => some (kind, content, offset)
  | _ => none

theorem filterMap_tag_eventsFrom (offset : Nat) (lexemes : List Lexeme) :
    (eventsFrom offset lexemes).filterMap Event.tag? =
      (Occurrence.listFrom offset lexemes).map fun o =>
        (o.directive.kind, String.ofList o.directive.content, o.start) := by
  induction lexemes generalizing offset with
  | nil => rfl
  | cons lexeme lexemes ih =>
      cases lexeme with
      | text t => exact ih _
      | tag tag =>
          have htag : (tag.events offset).filterMap Event.tag? = [(tag.directive.kind,
              String.ofList tag.directive.content, offset + size tag.indent)] := by
            unfold Tag.events
            cases tag.directive <;> rfl
          rw [eventsFrom, List.filterMap_append, htag, ih]
          rfl

variable [MarkerLimits]

/-- What the log of a compile holds when the template is well nested. -/
theorem trace_of_forms {d : Delimiters} {template : String} {nodes : List Node}
    (hlimit : d.withinLimit = true) (hread : (Lexemes.read d template.toList).broken? = none)
    (hforms : Forms (Lexemes.read d template.toList).lexemes nodes) :
    trace d template = .started template.utf8ByteSize ::
      (eventsFrom 0 (Lexemes.read d template.toList).lexemes ++ [.compiled nodes.length]) := by
  rw [trace, run_of_forms hlimit hread hforms]
  rfl

end TagTemplate
