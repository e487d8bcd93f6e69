import TagTemplate.Json
import TagTemplate.Node.Basic

/-!
# Trees as JSON

A node, an argument and a value are each an object with one member, whose name says which
alternative it is. Paths are arrays of segments and named arguments arrays of pairs, so that
nothing is lost when a name occurs twice.
-/

namespace TagTemplate

def Path.toJson (p : Path) : Json := .strings p.segments

def Value.toJson : Value → Json
  | quoted text => .tagged "static" (.string text)
  | number numeral => .tagged "number" (.string numeral)
  | path p => .tagged "fetch" p.toJson

def NamedArguments.toJson (args : NamedArguments) : Json :=
  .array (args.entries.map fun (name, value) => .array [.string name, value.toJson])

def Argument.toJson : Argument → Json
  | positional value => value.toJson
  | named args => .tagged "hash" args.toJson

def Escape.toJson : Escape → Json
  | escaped => .string "escaped"
  | unescaped => .string "unescaped"

def Delimiters.toJson (d : Delimiters) : Json :=
  .object [("open", .string d.opener), ("close", .string d.closer)]

namespace Node

mutual

def toJson : Node → Json
  | multi nodes => .tagged "multi" (.array (toJsonList nodes))
  | static text => .tagged "static" (.string text)
  | interpolation escape callee args =>
      .tagged "interpolation" (.object
        [("escape", escape.toJson), ("callee", callee.toJson),
          ("args", .array (args.map Argument.toJson))])
  | block inverted callee body raw delimiters =>
      .tagged (if inverted then "inverted_section" else "section") (.object
        [("callee", callee.toJson), ("body", .array (toJsonList body)), ("raw", .string raw),
          ("delimiters", delimiters.toJson)])
  | partialRef name padding =>
      .tagged "partial" (.object [("name", .string name), ("padding", .string padding)])

def toJsonList : List Node → List Json
  | [] => []
  | node :: nodes => toJson node :: toJsonList nodes

end

theorem toJsonList_eq_map (nodes : List Node) : toJsonList nodes = nodes.map toJson := by
  induction nodes with
  | nil => rfl
  | cons node nodes ih => simp [toJsonList, ih]

end Node

end TagTemplate
