import TagTemplate.Node.Walk

/-!
# Walks over lists of trees

The children of a compiled template are walked one after the other. A walk over a list of trees is
put together from the walks over its parts.
-/

namespace TagTemplate.Node

/-- Every node of the trees, in walk order. -/
def walkAll (nodes : List Node) : List Node := nodes.flatMap walk

@[simp] theorem walkAll_append (nodes nodes' : List Node) :
    walkAll (nodes ++ nodes') = walkAll nodes ++ walkAll nodes' := List.flatMap_append

theorem walk_multi (nodes : List Node) : walk (multi nodes) = multi nodes :: walkAll nodes :=
  walk_eq_cons _

theorem walkAll_cons_block (inverted : Bool) (callee : Path) (body : List Node) (raw : String)
    (d : Delimiters) (nodes : List Node) :
    walkAll (block inverted callee body raw d :: nodes) =
      block inverted callee body raw d :: (walkAll body ++ walkAll nodes) := by
  rw [walkAll, List.flatMap_cons, walk_eq_cons]
  rfl

theorem walkAll_of_children_eq_nil {nodes : List Node} (h : ∀ node ∈ nodes, node.children = []) :
    walkAll nodes = nodes := by
  induction nodes with
  | nil => rfl
  | cons node nodes ih =>
      have hnode : walk node = [node] := by
        rw [walk_eq_cons, h node List.mem_cons_self]
        rfl
      have hnodes := ih fun x hx => h x (List.mem_cons_of_mem _ hx)
      rw [walkAll, List.flatMap_cons, hnode]
      exact congrArg (node :: ·) hnodes

end TagTemplate.Node
