/-!
# JSON values

The values in which trees and records are handed to other programs. Members of an object keep
the order in which they were given.
-/

namespace TagTemplate

inductive Json where
  | string (text : String)
  | number (n : Nat)
  | array (items : List Json)
  | object (members : List (String × Json))
deriving Repr, Inhabited

namespace Json

/-- An object with one member, the form of a tagged alternative. -/
def tagged (tag : String) (content : Json) : Json := object [(tag, content)]

def strings (texts : List String) : Json := array (texts.map string)

end Json

end TagTemplate
