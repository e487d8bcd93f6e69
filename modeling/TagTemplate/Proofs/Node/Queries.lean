import Mathlib.Data.List.Induction
import TagTemplate.Proofs.Node.Address

/-!
# What the queries list

The names of a tree can be collected in one walk, each new name behind those that are already there.
Every visit keeps the list free of duplicates, complete for the nodes seen so far and in the order
of their first visits, and so it is at the end of the walk.
-/

namespace TagTemplate.Node

variable {nameOf : Node → Option String} {nodes : List Node} {names : List String}

/-! ## Names seen so far -/

/-- The names are those of the nodes, each of them once, in the order in which they first occur. -/
structure FirstSeen (nameOf : Node → Option String) (nodes : List Node) (names : List String) :
    Prop where
  nodup : names.Nodup
  mem_iff : ∀ name, name ∈ names ↔ ∃ node ∈ nodes, nameOf node = some name
  ordered : names.Pairwise fun name later =>
    nodes.findIdx (nameOf · == some name) < nodes.findIdx (nameOf · == some later)

def note (nameOf : Node → Option String) (names : List String) (node : Node) : List String :=
  match nameOf node with
  | none => names
  | some name => if name ∈ names then names else names ++ [name]

theorem note_of_none {node : Node} (h : nameOf node = none) : note nameOf names node = names := by
  rw [note, h]

theorem note_of_mem {node : Node} {name : String} (h : nameOf node = some name)
    (hmem : name ∈ names) : note nameOf names node = names := by
  simp [note, h, hmem]

theorem note_of_notMem {node : Node} {name : String} (h : nameOf node = some name)
    (hmem : name ∉ names) : note nameOf names node = names ++ [name] := by
  simp [note, h, hmem]

theorem mem_note_iff {node : Node} {name : String} :
    name ∈ note nameOf names node ↔ name ∈ names ∨ nameOf node = some name := by
  cases h : nameOf node with
  | none => simp [note_of_none h]
  | some found =>
      by_cases hmem : found ∈ names
      · rw [note_of_mem h hmem]
        constructor
        · exact .inl
        · rintro (hname | hname)
          · exact hname
          · cases hname
            exact hmem
      · rw [note_of_notMem h hmem]
        simp [eq_comm]

namespace FirstSeen

theorem nil : FirstSeen nameOf [] [] := ⟨.nil, by simp, .nil⟩

/-- The first place of a name that has been seen is among the nodes seen. -/
theorem findIdx_append (h : FirstSeen nameOf nodes names) {name : String} (hname : name ∈ names)
    (more : List Node) :
    (nodes ++ more).findIdx (nameOf · == some name) = nodes.findIdx (nameOf · == some name) ∧
      nodes.findIdx (nameOf · == some name) < nodes.length := by
  obtain ⟨node, hnode, hfound⟩ := (h.mem_iff name).mp hname
  have hlt : nodes.findIdx (nameOf · == some name) < nodes.length :=
    List.findIdx_lt_length_of_exists ⟨node, hnode, by simp [hfound]⟩
  exact ⟨by rw [List.findIdx_append, if_pos hlt], hlt⟩

/-- A name that has not been seen has no place among the nodes seen. -/
theorem le_findIdx_append (h : FirstSeen nameOf nodes names) {name : String}
    (hname : name ∉ names) (more : List Node) :
    nodes.length ≤ (nodes ++ more).findIdx (nameOf · == some name) := by
  have hnot : ¬ nodes.findIdx (nameOf · == some name) < nodes.length := by
    rw [List.findIdx_lt_length]
    simpa [h.mem_iff] using hname
  rw [List.findIdx_append, if_neg hnot]
  exact Nat.le_add_left _ _

theorem note (h : FirstSeen nameOf nodes names) (node : Node) :
    FirstSeen nameOf (nodes ++ [node]) (note nameOf names node) := by
  have hold : names.Pairwise fun name later =>
      (nodes ++ [node]).findIdx (nameOf · == some name) <
        (nodes ++ [node]).findIdx (nameOf · == some later) := by
    refine h.ordered.imp_of_mem fun hname hlater hlt => ?_
    rwa [(h.findIdx_append hname _).1, (h.findIdx_append hlater _).1]
  have hordered : (Node.note nameOf names node).Pairwise fun name later =>
      (nodes ++ [node]).findIdx (nameOf · == some name) <
        (nodes ++ [node]).findIdx (nameOf · == some later) := by
    cases hfound : nameOf node with
    | none => rwa [note_of_none hfound]
    | some found =>
        by_cases hmem : found ∈ names
        · rwa [note_of_mem hfound hmem]
        · rw [note_of_notMem hfound hmem, List.pairwise_append]
          refine ⟨hold, List.pairwise_singleton _ _, fun name hname later hlater => ?_⟩
          obtain rfl := List.mem_singleton.mp hlater
          obtain ⟨heq, hlt⟩ := h.findIdx_append hname [node]
          rw [heq]
          exact Nat.lt_of_lt_of_le hlt (h.le_findIdx_append hmem _)
  refine ⟨hordered.imp fun hlt => ?_, fun name => ?_, hordered⟩
  · rintro rfl
    exact Nat.lt_irrefl _ hlt
  · rw [mem_note_iff, h.mem_iff]
    simp [or_and_right, exists_or]

theorem foldl (h : FirstSeen nameOf nodes names) (more : List Node) :
    FirstSeen nameOf (nodes ++ more) (more.foldl (Node.note nameOf) names) := by
  induction more generalizing nodes names with
  | nil => rwa [List.append_nil]
  | cons node more ih =>
      have hrest := ih (h.note node)
      rwa [List.append_assoc, List.singleton_append] at hrest

end FirstSeen

theorem eraseDups_concat (names : List String) (name : String) :
    (names ++ [name]).eraseDups =
      if name ∈ names then names.eraseDups else names.eraseDups ++ [name] := by
  rw [List.eraseDups_append]
  by_cases h : name ∈ names <;> simp [List.removeAll, h, List.eraseDups_cons]

/-- The names of a tree are collected in one walk. -/
theorem names_eq_foldl (node : Node) :
    node.names nameOf = node.walk.foldl (note nameOf) [] := by
  rw [names]
  induction node.walk using List.reverseRecOn with
  | nil => rfl
  | append_singleton seen last ih =>
      rw [List.foldl_append, List.foldl_cons, List.foldl_nil, ← ih, List.filterMap_append]
      generalize seen.filterMap nameOf = found
      cases h : nameOf last with
      | none => simp [h, note]
      | some name =>
          rw [List.filterMap_cons_some h, List.filterMap_nil, eraseDups_concat]
          simp [note, h]

theorem firstSeen_names (nameOf : Node → Option String) (node : Node) :
    FirstSeen nameOf node.walk (node.names nameOf) := by
  rw [names_eq_foldl]
  exact FirstSeen.nil.foldl node.walk

/-- Names that are there already make no difference to what is new. -/
theorem foldl_note (names : List String) (nodes : List Node) :
    nodes.foldl (note nameOf) names =
      names ++ (nodes.foldl (note nameOf) []).filter (· ∉ names) := by
  induction nodes using List.reverseRecOn with
  | nil => simp
  | append_singleton nodes last ih =>
      rw [List.foldl_append, List.foldl_append, ih]
      generalize nodes.foldl (note nameOf) [] = found
      cases h : nameOf last with
      | none => simp [note, h]
      | some name => by_cases hnames : name ∈ names <;> by_cases hfound : name ∈ found <;>
          simp [note, h, hnames, hfound]

/-- The names of more children are behind those of the first ones, as far as they are new. -/
theorem names_multi_append (h : ∀ nodes, nameOf (multi nodes) = none) (xs ys : List Node) :
    (multi (xs ++ ys)).names nameOf = (multi xs).names nameOf ++
      ((multi ys).names nameOf).filter (· ∉ (multi xs).names nameOf) := by
  have hnames : ∀ nodes, (multi nodes).names nameOf =
      (walkAll nodes).foldl (note nameOf) [] := by
    intro nodes
    rw [names_eq_foldl, walk_multi, List.foldl_cons, note_of_none (h nodes)]
  rw [hnames, hnames, hnames, walkAll_append, List.foldl_append]
  exact foldl_note _ _

/-! ## What a name stands for -/

theorem mem_names_iff {node : Node} {name : String} :
    name ∈ node.names nameOf ↔
      ∃ address seen, node.at? address = some seen ∧ nameOf seen = some name := by
  rw [(firstSeen_names nameOf node).mem_iff]
  constructor
  · intro h
    obtain ⟨seen, hseen, hname⟩ := h
    obtain ⟨address, haddress⟩ := mem_walk_iff.mp hseen
    exact ⟨address, seen, haddress, hname⟩
  · intro h
    obtain ⟨address, seen, haddress, hname⟩ := h
    exact ⟨seen, mem_walk_iff.mpr ⟨address, haddress⟩, hname⟩

theorem mem_tags_iff {node : Node} {name : String} :
    name ∈ node.tags ↔ ∃ address escape callee args,
      node.at? address = some (interpolation escape callee args) ∧ callee.dotted = name := by
  rw [tags, mem_names_iff]
  constructor
  · intro h
    obtain ⟨address, seen, haddress, hname⟩ := h
    cases seen with
    | interpolation escape callee args =>
        exact ⟨address, escape, callee, args, haddress, Option.some.inj hname⟩
    | multi | static | block | partialRef => cases hname
  · intro h
    obtain ⟨address, escape, callee, args, haddress, rfl⟩ := h
    exact ⟨address, _, haddress, rfl⟩

theorem mem_sections_iff {node : Node} {name : String} :
    name ∈ node.sections ↔ ∃ address inverted callee body raw delimiters,
      node.at? address = some (block inverted callee body raw delimiters) ∧
        callee.dotted = name := by
  rw [sections, mem_names_iff]
  constructor
  · intro h
    obtain ⟨address, seen, haddress, hname⟩ := h
    cases seen with
    | block inverted callee body raw delimiters =>
        exact ⟨address, inverted, callee, body, raw, delimiters, haddress, Option.some.inj hname⟩
    | multi | static | interpolation | partialRef => cases hname
  · intro h
    obtain ⟨address, inverted, callee, body, raw, delimiters, haddress, rfl⟩ := h
    exact ⟨address, _, haddress, rfl⟩

theorem mem_partials_iff {node : Node} {name : String} :
    name ∈ node.partials ↔
      ∃ address padding, node.at? address = some (partialRef name padding) := by
  rw [partials, mem_names_iff]
  constructor
  · intro h
    obtain ⟨address, seen, haddress, hname⟩ := h
    cases seen with
    | partialRef found padding =>
        cases hname
        exact ⟨address, padding, haddress⟩
    | multi | static | interpolation | block => cases hname
  · intro h
    obtain ⟨address, padding, haddress⟩ := h
    exact ⟨address, _, haddress, rfl⟩

theorem hasArguments_iff (node : Node) :
    node.hasArguments = true ↔ ∃ address escape callee args,
      node.at? address = some (interpolation escape callee args) ∧ args ≠ [] := by
  rw [hasArguments, List.any_eq_true]
  constructor
  · intro h
    obtain ⟨seen, hseen, hargs⟩ := h
    obtain ⟨address, haddress⟩ := mem_walk_iff.mp hseen
    cases seen with
    | interpolation escape callee args =>
        exact ⟨address, escape, callee, args, haddress, by simpa using hargs⟩
    | multi | static | block | partialRef => cases hargs
  · intro h
    obtain ⟨address, escape, callee, args, haddress, hargs⟩ := h
    exact ⟨_, mem_walk_iff.mpr ⟨address, haddress⟩, by simpa using hargs⟩

/-- The queries see every node of a tree once. A name is listed where it is first seen, and only
there. -/
theorem queries_exact (node : Node) :
    (node.addresses.map node.at? = node.walk.map some ∧
      (∀ address, address ∈ node.addresses ↔ (node.at? address).isSome = true) ∧
      node.addresses.Pairwise (· < ·)) ∧
    (FirstSeen tagName? node.walk node.tags ∧ FirstSeen sectionName? node.walk node.sections ∧
      FirstSeen partialName? node.walk node.partials) ∧
    (∀ name, (name ∈ node.tags ↔ ∃ address escape callee args,
          node.at? address = some (interpolation escape callee args) ∧ callee.dotted = name) ∧
        (name ∈ node.sections ↔ ∃ address inverted callee body raw delimiters,
          node.at? address = some (block inverted callee body raw delimiters) ∧
            callee.dotted = name) ∧
        (name ∈ node.partials ↔ ∃ address padding,
          node.at? address = some (partialRef name padding))) ∧
    (∀ xs ys, (multi (xs ++ ys)).tags =
          (multi xs).tags ++ (multi ys).tags.filter (· ∉ (multi xs).tags) ∧
        (multi (xs ++ ys)).sections =
          (multi xs).sections ++ (multi ys).sections.filter (· ∉ (multi xs).sections) ∧
        (multi (xs ++ ys)).partials =
          (multi xs).partials ++ (multi ys).partials.filter (· ∉ (multi xs).partials)) ∧
    (node.hasArguments = true ↔ ∃ address escape callee args,
      node.at? address = some (interpolation escape callee args) ∧ args ≠ []) := by
  refine ⟨⟨map_at?_addresses node, fun _ => mem_addresses_iff, pairwise_addresses node⟩,
    ⟨firstSeen_names _ node, firstSeen_names _ node, firstSeen_names _ node⟩,
    fun name => ⟨mem_tags_iff, mem_sections_iff, mem_partials_iff⟩, fun xs ys => ?_,
    hasArguments_iff node⟩
  exact ⟨names_multi_append (fun _ => rfl) xs ys, names_multi_append (fun _ => rfl) xs ys,
    names_multi_append (fun _ => rfl) xs ys⟩

end TagTemplate.Node
