import TagTemplate.Argument.Basic
import TagTemplate.Delimiters

/-!
# Template trees

A compiled template is a tree of literal text and of what its tags ask for. Two trees are equal
when they have the same shape and the same texts throughout; `Node.beq` decides it.
-/

namespace TagTemplate

/-- Whether the renderer is to escape a value. -/
inductive Escape where
  | escaped
  | unescaped
deriving DecidableEq, Repr, Inhabited

inductive Node where
  /-- Children in document order. The root of a compiled template is such a node. -/
  | multi (children : List Node)
  | static (text : String)
  | interpolation (escape : Escape) (callee : Path) (args : List Argument)
  /-- A section, rendered for a value that is present, or if `inverted` for one that is absent.
  `raw` is the template's text between its two tags and `delimiters` the pair that its closing
  tag was read with. -/
  | block (inverted : Bool) (callee : Path) (body : List Node) (raw : String)
      (delimiters : Delimiters)
  /-- Another template to put here, each of its lines indented by `padding`. -/
  | partialRef (name : String) (padding : String)
deriving Repr, Inhabited

namespace Node

def children : Node → List Node
  | multi nodes => nodes
  | block _ _ body _ _ => body
  | _ => []

/-- What holds of a node whenever it holds of all its children holds of every tree. -/
@[elab_as_elim, induction_eliminator]
theorem induction {motive : Node → Prop}
    (multi : ∀ nodes, (∀ node ∈ nodes, motive node) → motive (multi nodes))
    (static : ∀ text, motive (static text))
    (interpolation : ∀ escape callee args, motive (interpolation escape callee args))
    (block : ∀ inverted callee body raw delimiters, (∀ node ∈ body, motive node) →
      motive (block inverted callee body raw delimiters))
    (partialRef : ∀ name padding, motive (partialRef name padding)) (node : Node) : motive node :=
  @Node.rec motive (fun nodes => ∀ node ∈ nodes, motive node) multi static interpolation block
    partialRef nofun
    (fun _ _ hnode hnodes _ h => (List.mem_cons.mp h).elim (fun h => h ▸ hnode) (hnodes _)) node

mutual

def beq : Node → Node → Bool
  | multi xs, multi ys => beqList xs ys
  | static s, static t => s == t
  | interpolation e c as, interpolation e' c' as' => e == e' && c == c' && as == as'
  | block i c body raw d, block i' c' body' raw' d' =>
      i == i' && c == c' && beqList body body' && raw == raw' && d == d'
  | partialRef n p, partialRef n' p' => n == n' && p == p'
  | _, _ => false

def beqList : List Node → List Node → Bool
  | [], [] => true
  | x :: xs, y :: ys => beq x y && beqList xs ys
  | _, _ => false

end

mutual

theorem beq_iff_eq (x y : Node) : beq x y = true ↔ x = y := by
  cases x <;> cases y <;> simp [beq, beqList_iff_eq, and_assoc]

theorem beqList_iff_eq (xs ys : List Node) : beqList xs ys = true ↔ xs = ys := by
  cases xs <;> cases ys <;> simp [beqList, beq_iff_eq, beqList_iff_eq]

end

instance : DecidableEq Node := fun x y => decidable_of_iff _ (beq_iff_eq x y)

end Node

end TagTemplate
