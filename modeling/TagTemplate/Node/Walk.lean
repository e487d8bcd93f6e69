import TagTemplate.Node.Basic

/-!
# Queries over a tree

A walk lists the nodes of a tree, each before its descendants and siblings from left to right.
The other queries read the walk.
-/

namespace TagTemplate.Node

mutual

/-- The node and its descendants in walk order, followed by `rest`. -/
def visit (node : Node) (rest : List Node) : List Node :=
  match node with
  | multi nodes => multi nodes :: visitAll nodes rest
  | block i c body raw d => block i c body raw d :: visitAll body rest
  | leaf => leaf :: rest

def visitAll (nodes : List Node) (rest : List Node) : List Node :=
  match nodes with
  | [] => rest
  | node :: nodes => visit node (visitAll nodes rest)

end

/-- Every node of the tree, each before its descendants and siblings from left to right. -/
def walk (node : Node) : List Node := visit node []

mutual

theorem visit_eq_append (node : Node) (rest : List Node) : visit node rest = walk node ++ rest := by
  cases node with
  | multi nodes =>
      simp only [visit, walk]
      rw [visitAll_eq_append nodes rest, visitAll_eq_append nodes []]
      simp
  | block i c body raw d =>
      simp only [visit, walk]
      rw [visitAll_eq_append body rest, visitAll_eq_append body []]
      simp
  | static | interpolation | partialRef => simp [visit, walk]

theorem visitAll_eq_append (nodes rest : List Node) :
    visitAll nodes rest = nodes.flatMap walk ++ rest := by
  cases nodes with
  | nil => simp [visitAll]
  | cons node nodes =>
      simp only [visitAll, List.flatMap_cons]
      rw [visit_eq_append node, visitAll_eq_append nodes]
      simp

end

/-- A walk visits the node first and then its children's trees in order. -/
theorem walk_eq_cons (node : Node) : walk node = node :: node.children.flatMap walk := by
  cases node <;> simp [walk, visit, children, visitAll_eq_append]

/-- Names found in the walk, each where it is first seen. -/
def names (nameOf : Node → Option String) (node : Node) : List String :=
  (node.walk.filterMap nameOf).eraseDups

def tagName? : Node → Option String
  | interpolation _ callee _ => some callee.dotted
  | _ => none

def sectionName? : Node → Option String
  | block _ callee _ _ _ => some callee.dotted
  | _ => none

def partialName? : Node → Option String
  | partialRef name _ => some name
  | _ => none

def tags (node : Node) : List String := node.names tagName?

def sections (node : Node) : List String := node.names sectionName?

def partials (node : Node) : List String := node.names partialName?

def hasArguments (node : Node) : Bool :=
  node.walk.any fun
    | interpolation _ _ args => ! args.isEmpty
    | _ => false

end TagTemplate.Node
