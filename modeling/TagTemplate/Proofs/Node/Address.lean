import TagTemplate.Proofs.Node.Walk

/-!
# Addresses in a tree

The address of a node in a tree tells which child to go to at each level. Addresses are ordered as
the words of a dictionary are: the address of a node comes before those of its descendants, and
these come before those of its siblings to the right. A walk visits the addresses in this order.
-/

namespace TagTemplate.Node

/-- The node at an address, which holds the index of a child for each level. -/
def at? : Node → List Nat → Option Node
  | node, [] => some node
  | node, index :: address => node.children[index]?.bind (at? · address)

mutual

def addresses : Node → List (List Nat)
  | multi nodes => [] :: addressesFrom 0 nodes
  | block _ _ body _ _ => [] :: addressesFrom 0 body
  | _ => [[]]

def addressesFrom (index : Nat) : List Node → List (List Nat)
  | [] => []
  | node :: nodes => (addresses node).map (index :: ·) ++ addressesFrom (index + 1) nodes

end

theorem addresses_eq_cons (node : Node) : addresses node = [] :: addressesFrom 0 node.children := by
  cases node with
  | multi | static | interpolation | block | partialRef => simp [addresses, children, addressesFrom]

theorem induction_children {motive : Node → Prop}
    (h : ∀ node, (∀ child ∈ node.children, motive child) → motive node) (node : Node) :
    motive node := by
  induction node with
  | multi nodes ih => exact h _ ih
  | block inverted callee body raw delimiters ih => exact h _ ih
  | static | interpolation | partialRef => exact h _ nofun

/-! ## Below a list of children -/

variable {nodes : List Node}

theorem mem_addressesFrom_iff {index : Nat} {address : List Nat} :
    address ∈ addressesFrom index nodes ↔ ∃ i child rest, nodes[i]? = some child ∧
      address = (index + i) :: rest ∧ rest ∈ child.addresses := by
  induction nodes generalizing index with
  | nil => simp [addressesFrom]
  | cons node nodes ih =>
      rw [addressesFrom, List.mem_append, List.mem_map, ih]
      constructor
      · intro h
        rcases h with ⟨rest, hrest, rfl⟩ | ⟨i, child, rest, hchild, rfl, hrest⟩
        · exact ⟨0, node, rest, rfl, rfl, hrest⟩
        · exact ⟨i + 1, child, rest, hchild, by rw [Nat.add_assoc, Nat.add_comm 1], hrest⟩
      · intro h
        obtain ⟨i, child, rest, hchild, rfl, hrest⟩ := h
        cases i with
        | zero =>
            cases hchild
            exact .inl ⟨rest, hrest, rfl⟩
        | succ i =>
            exact .inr ⟨i, child, rest, hchild, by rw [Nat.add_assoc, Nat.add_comm 1], hrest⟩

theorem cons_mem_addressesFrom_iff {index : Nat} {address : List Nat} :
    index :: address ∈ addressesFrom 0 nodes ↔
      ∃ child, nodes[index]? = some child ∧ address ∈ child.addresses := by
  rw [mem_addressesFrom_iff]
  constructor
  · intro h
    obtain ⟨i, child, rest, hchild, heq, hrest⟩ := h
    obtain ⟨rfl, rfl⟩ : index = i ∧ address = rest := by simpa using heq
    exact ⟨child, hchild, hrest⟩
  · intro h
    obtain ⟨child, hchild, hrest⟩ := h
    exact ⟨index, child, address, hchild, by rw [Nat.zero_add], hrest⟩

theorem pairwise_addressesFrom (h : ∀ node ∈ nodes, node.addresses.Pairwise (· < ·))
    (index : Nat) : (addressesFrom index nodes).Pairwise (· < ·) := by
  induction nodes generalizing index with
  | nil => exact .nil
  | cons node nodes ih =>
      rw [addressesFrom, List.pairwise_append]
      refine ⟨?_, ih (fun n hn => h n (List.mem_cons_of_mem _ hn)) _, ?_⟩
      · refine (h node List.mem_cons_self).map _ fun a b hab => ?_
        exact List.cons_lt_cons_iff.mpr (.inr ⟨rfl, hab⟩)
      · intro a ha b hb
        obtain ⟨rest, -, rfl⟩ := List.mem_map.mp ha
        obtain ⟨i, child, rest', -, rfl, -⟩ := mem_addressesFrom_iff.mp hb
        exact List.cons_lt_cons_iff.mpr (.inl (by omega))

theorem map_addressesFrom {before : List Node}
    (h : ∀ node ∈ nodes, node.addresses.map node.at? = node.walk.map some) :
    (addressesFrom before.length nodes).map (fun address => (multi (before ++ nodes)).at? address) =
      (walkAll nodes).map some := by
  induction nodes generalizing before with
  | nil => rfl
  | cons node nodes ih =>
      have hhere : ∀ address, (multi (before ++ node :: nodes)).at? (before.length :: address) =
          node.at? address := by
        intro address
        simp [at?, children]
      have hrest := @ih (before ++ [node]) fun n hn => h n (List.mem_cons_of_mem _ hn)
      rw [List.length_append, List.length_singleton, List.append_assoc,
        List.singleton_append] at hrest
      rw [addressesFrom, List.map_append, List.map_map, walkAll, List.flatMap_cons, List.map_append,
        ← h node List.mem_cons_self]
      rw [hrest]
      exact congrArg (· ++ (walkAll nodes).map some)
        (List.map_congr_left fun address _ => hhere address)

/-! ## In a whole tree -/

/-- The addresses are those at which there is a node. -/
theorem mem_addresses_iff {node : Node} {address : List Nat} :
    address ∈ node.addresses ↔ (node.at? address).isSome = true := by
  induction address generalizing node with
  | nil => simp [addresses_eq_cons, at?]
  | cons index address ih =>
      rw [addresses_eq_cons, List.mem_cons, cons_mem_addressesFrom_iff, at?]
      cases hchild : node.children[index]? with
      | none => simp
      | some child => simp [ih]

/-- The addresses come in the order of a dictionary, each of them once. -/
theorem pairwise_addresses (node : Node) : node.addresses.Pairwise (· < ·) := by
  induction node using induction_children with
  | h node ih =>
      rw [addresses_eq_cons, List.pairwise_cons]
      refine ⟨fun address h => ?_, pairwise_addressesFrom ih 0⟩
      obtain ⟨i, child, rest, -, rfl, -⟩ := mem_addressesFrom_iff.mp h
      exact List.nil_lt_cons _ _

/-- A walk visits the nodes at the addresses. -/
theorem map_at?_addresses (node : Node) : node.addresses.map node.at? = node.walk.map some := by
  induction node using induction_children with
  | h node ih =>
      have hbelow := @map_addressesFrom node.children [] ih
      have hchildren : ∀ address ∈ addressesFrom 0 node.children,
          node.at? address = (multi node.children).at? address := by
        intro address h
        obtain ⟨i, child, rest, -, rfl, -⟩ := mem_addressesFrom_iff.mp h
        rfl
      rw [addresses_eq_cons, walk_eq_cons, List.map_cons, List.map_cons,
        List.map_congr_left hchildren]
      exact congrArg (some node :: ·) hbelow

theorem mem_walk_iff {node seen : Node} :
    seen ∈ node.walk ↔ ∃ address, node.at? address = some seen := by
  have hsome : seen ∈ node.walk ↔ some seen ∈ node.addresses.map node.at? := by
    simp [map_at?_addresses]
  rw [hsome, List.mem_map]
  constructor
  · intro h
    obtain ⟨address, -, h⟩ := h
    exact ⟨address, h⟩
  · intro h
    obtain ⟨address, h⟩ := h
    exact ⟨address, mem_addresses_iff.mpr (by rw [h]; rfl), h⟩

end TagTemplate.Node
