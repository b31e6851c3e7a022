import LosslessSyntax.Proofs.Placed.Neighbour
import LosslessSyntax.Proofs.Placed.TokenOrder
import Mathlib.Data.List.Nodup

/-!
# A tree told by paths

A part of a tree is the path of slots that leads to it. What stands at a path, where it begins, what
is in its slots and what a walk meets below it can all be told from the green root, with nothing
placed. The rows of placed parts are these rows of paths.

* `Visit`, `Green.Element.visits`, `Green.Element.visitsRow`: what a walk meets, each part told by its
  path;
* `Placed.Tree.part?`, `Placed.Tree.startOf`: what stands at a path, and where it begins;
* `Placed.Tree.children`, `Placed.Tree.nodes`, `Placed.Tree.slotTokens`: the parts, the nodes and the
  tokens in the slots of a node;
* `Placed.Tree.visits`, `Placed.Tree.parts`, `Placed.Tree.tokens`: what is below a part;
* `Placed.nextIn`, `Placed.previousIn`: the paths beside a path in a row;
* **`Placed.Node.Stands.visits_eq`**: a walk enters a node, goes through its slots and leaves it;
* **`Placed.Element.Stands.parts_path`**, **`Placed.Element.Stands.tokens_path`**: the placed parts
  and tokens below a part have the paths below its path.
-/

namespace LosslessSyntax

/-- What a walk meets, a part told by its path. -/
inductive Visit where
  | enter (path : List Nat)
  | leave (path : List Nat)
  | token (path : List Nat)
  deriving DecidableEq

namespace Visit

/-- The part that is met; a node is met when it is entered. -/
def met? : Visit → Option (List Nat)
  | enter path => some path
  | leave _ => none
  | token path => some path

/-- The node that is entered. -/
def entered? : Visit → Option (List Nat)
  | enter path => some path
  | leave _ => none
  | token _ => none

/-- The token that is met. -/
def token? : Visit → Option (List Nat)
  | enter _ => none
  | leave _ => none
  | token path => some path

end Visit

/-- What a walk through the element at a path meets. -/
def Green.Element.visits (path : List Nat) : Green.Element → List Visit
  | .token _ => [.token path]
  | .node _ slots =>
    .enter path :: ((List.range slots.size).flatMap fun slot =>
      match _found : slots[slot]? with
      | none => []
      | some e => e.visits (path ++ [slot])) ++ [.leave path]
termination_by e => sizeOf e
decreasing_by
  have hlt := Array.sizeOf_lt_of_mem (Array.mem_of_getElem? _found)
  simp only [Green.Element.node.sizeOf_spec]
  omega

/-- To go through the numbers of a row is to go through its members with their numbers. -/
theorem flatMap_range_zipIdx {α β : Type} (row : List α) (start : Nat) (f : Nat → α → List β) :
    ((List.range row.length).flatMap fun i => (row[i]?.map (f (start + i))).getD []) =
      (row.zipIdx start).flatMap fun (x, i) => f i x := by
  induction row generalizing start with
  | nil => rfl
  | cons x row ih =>
    rw [List.length_cons, List.range_succ_eq_map, List.flatMap_cons, List.flatMap_map,
      List.zipIdx_cons, List.flatMap_cons, ← ih (start + 1)]
    refine congrArg (f start x ++ ·) (List.flatMap_congr fun i _ => ?_)
    rw [List.getElem?_cons_succ, show start + (i + 1) = start + 1 + i by omega]

namespace Green.Element

theorem visits_node (path : List Nat) (head : Head) (slots : Array Element) :
    (node head slots).visits path =
      .enter path :: ((List.range slots.size).flatMap fun slot =>
        (slots[slot]?.map fun e => e.visits (path ++ [slot])).getD []) ++ [.leave path] := by
  rw [visits]
  congr 2
  refine List.flatMap_congr fun slot _ => ?_
  cases slots[slot]? <;> rfl

/-- What a walk meets in a row of elements, the first of which is in a slot of the node at a path. -/
def visitsRow (path : List Nat) (slot : Nat) (row : List Element) : List Visit :=
  (row.zipIdx slot).flatMap fun (e, slot) => e.visits (path ++ [slot])

theorem visitsRow_cons (path : List Nat) (slot : Nat) (e : Element) (row : List Element) :
    visitsRow path slot (e :: row) = e.visits (path ++ [slot]) ++ visitsRow path (slot + 1) row := by
  rw [visitsRow, List.zipIdx_cons, List.flatMap_cons]
  rfl

theorem visits_row (path : List Nat) (head : Head) (slots : Array Element) :
    (node head slots).visits path =
      .enter path :: visitsRow path 0 slots.toList ++ [.leave path] := by
  have hrow := flatMap_range_zipIdx slots.toList 0 fun slot e => e.visits (path ++ [slot])
  simp only [Nat.zero_add, Array.length_toList, Array.getElem?_toList] at hrow
  rw [visits_node, hrow]
  rfl

end Green.Element

namespace Placed

namespace Tree

/-- The green part at a path. -/
def part? (tree : Tree) (path : List Nat) : Option Green.Element := tree.green.toElement.at? path

/-- Whether a node stands at a path. -/
def holdsNode (tree : Tree) (path : List Nat) : Bool := (tree.part? path).any (·.isNode)

/-- The offset of the part at a path. -/
def startOf (tree : Tree) (path : List Nat) : Nat :=
  tree.start + tree.green.toElement.startAt path

/-- The number of slots of the node at a path. -/
def arityOf (tree : Tree) (path : List Nat) : Nat :=
  match tree.part? path with
  | some (.node _ slots) => slots.size
  | _ => 0

/-- The parts in the slots of the node at a path. -/
def children (tree : Tree) (path : List Nat) : List (List Nat) :=
  (List.range (tree.arityOf path)).map fun slot => path ++ [slot]

/-- The nodes in the slots of the node at a path. -/
def nodes (tree : Tree) (path : List Nat) : List (List Nat) :=
  (tree.children path).filter tree.holdsNode

/-- The tokens in the slots of the node at a path. -/
def slotTokens (tree : Tree) (path : List Nat) : List (List Nat) :=
  (tree.children path).filter fun below => !tree.holdsNode below

/-- What a walk through the part at a path meets. -/
def visits (tree : Tree) (path : List Nat) : List Visit :=
  ((tree.part? path).map (·.visits path)).getD []

/-- The part at a path and all parts below it, each before what is in its slots. -/
def parts (tree : Tree) (path : List Nat) : List (List Nat) :=
  (tree.visits path).filterMap Visit.met?

/-- The nodes among them. -/
def descendants (tree : Tree) (path : List Nat) : List (List Nat) :=
  (tree.visits path).filterMap Visit.entered?

/-- The tokens among them. -/
def tokens (tree : Tree) (path : List Nat) : List (List Nat) :=
  (tree.visits path).filterMap Visit.token?

end Tree

/-- The tokens in the slots of a node. -/
def Node.slotTokens (node : Node) : List Token := node.children.filterMap Element.token?

/-- The path after a path in a row. -/
def nextIn (row : List (List Nat)) (path : List Nat) : Option (List Nat) :=
  row[row.idxOf path + 1]?

/-- The path before a path in a row. -/
def previousIn (row : List (List Nat)) (path : List Nat) : Option (List Nat) :=
  nextIn row.reverse path

theorem nextIn_split {before after : List (List Nat)} {path : List Nat}
    (h : (before ++ path :: after).Nodup) : nextIn (before ++ path :: after) path = after.head? := by
  have hnotin : path ∉ before := fun hin => by
    have hdisjoint := (List.nodup_append.1 h).2.2 path hin path List.mem_cons_self
    exact hdisjoint rfl
  rw [nextIn, List.idxOf_append_of_notMem hnotin, List.idxOf_cons_self, Nat.add_zero,
    List.getElem?_append_right (Nat.le_add_right _ 1), Nat.add_sub_cancel_left,
    List.getElem?_cons_succ, List.head?_eq_getElem?]

theorem previousIn_split {before after : List (List Nat)} {path : List Nat}
    (h : (before ++ path :: after).Nodup) :
    previousIn (before ++ path :: after) path = before.getLast? := by
  have hrow : (before ++ path :: after).reverse = after.reverse ++ path :: before.reverse := by
    simp
  have hnodup : (after.reverse ++ path :: before.reverse).Nodup := hrow ▸ List.nodup_reverse.2 h
  rw [previousIn, hrow, nextIn_split hnodup, List.head?_reverse]

/-! ## What stands at a path -/

section

variable {tree : Tree} {node : Node} {element : Element}

theorem Element.Stands.part?_eq (standing : element.Stands tree) :
    tree.part? element.path = some element.green := standing.at?

theorem Node.Stands.part?_eq (standing : node.Stands tree) :
    tree.part? node.path = some node.green.toElement := standing.at?

theorem Element.Stands.startOf_eq (standing : element.Stands tree) :
    tree.startOf element.path = element.start := standing.start_eq.symm

theorem Node.Stands.arityOf_eq (standing : node.Stands tree) :
    tree.arityOf node.path = node.arity := by
  rw [Tree.arityOf, standing.part?_eq]
  rfl

theorem Element.Stands.holdsNode_eq (standing : element.Stands tree) :
    tree.holdsNode element.path = element.node?.isSome := by
  rw [Tree.holdsNode, standing.part?_eq]
  cases element <;> rfl

/-! ## What is in the slots -/

theorem Node.Stands.children_path (standing : node.Stands tree) :
    node.children.map Element.path = tree.children node.path := by
  rw [Node.children, Node.partsAt, List.map_filterMap, Tree.children, standing.arityOf_eq,
    ← List.filterMap_eq_map]
  refine List.filterMap_congr fun slot hslot => ?_
  obtain ⟨element, hbelow⟩ := Option.isSome_iff_exists.1
    (Node.below?_isSome.2 (List.mem_range.1 hslot))
  rw [hbelow]
  exact congrArg some (Node.below?_path hbelow)

theorem Node.Stands.nodes_path (standing : node.Stands tree) :
    node.nodes.map Node.path = tree.nodes node.path := by
  rw [Node.nodes, Node.nodesAt, List.map_filterMap, Tree.nodes, Tree.children, standing.arityOf_eq,
    ← List.filterMap_eq_filter, List.filterMap_map]
  refine List.filterMap_congr fun slot hslot => ?_
  obtain ⟨element, hbelow⟩ := Option.isSome_iff_exists.1
    (Node.below?_isSome.2 (List.mem_range.1 hslot))
  have hpath := Node.below?_path hbelow
  have hholds := (standing.below? hbelow).holdsNode_eq
  rw [hpath] at hholds
  rw [Node.nodeBelow?, hbelow, Function.comp_apply, Option.guard, hholds]
  cases element with
  | token t => rfl
  | node n => exact congrArg some hpath

theorem Node.Stands.slotTokens_path (standing : node.Stands tree) :
    node.slotTokens.map Token.path = tree.slotTokens node.path := by
  rw [Node.slotTokens, List.map_filterMap, Tree.slotTokens, ← standing.children_path,
    ← List.filterMap_eq_filter, List.filterMap_map]
  refine List.filterMap_congr fun element hmem => ?_
  obtain ⟨slot, -, hbelow⟩ := List.mem_filterMap.1 hmem
  have hholds := (standing.below? hbelow).holdsNode_eq
  rw [Function.comp_apply, Option.guard, hholds]
  cases element <;> rfl

theorem Tree.children_nodup (tree : Tree) (path : List Nat) : (tree.children path).Nodup := by
  refine List.Nodup.map (fun i j h => ?_) List.nodup_range
  simpa using h

theorem Tree.nodes_nodup (tree : Tree) (path : List Nat) : (tree.nodes path).Nodup :=
  (tree.children_nodup path).filter _

/-! ## What is below -/

theorem Node.children_flatMap {α : Type} (node : Node) (f : Element → List α) :
    node.children.flatMap f =
      (List.range node.arity).flatMap fun slot => ((node.below? slot).map f).getD [] := by
  rw [children, partsAt]
  induction List.range node.arity with
  | nil => rfl
  | cons slot slots ih =>
    rw [List.filterMap_cons, List.flatMap_cons]
    cases node.below? slot with
    | none => exact ih
    | some element => exact congrArg (f element ++ ·) ih

/-- **A walk enters a node, goes through its slots and leaves it.** -/
theorem Node.Stands.visits_eq (standing : node.Stands tree) : tree.visits node.path =
    .enter node.path :: (node.children.flatMap fun below => tree.visits below.path) ++
      [.leave node.path] := by
  rw [Tree.visits, standing.part?_eq, Node.children_flatMap]
  change Green.Element.visits node.path (.node node.green.head node.green.slots) = _
  rw [Green.Element.visits_node]
  congr 2
  refine List.flatMap_congr fun slot _ => ?_
  cases hbelow : node.below? slot with
  | none =>
    have hslot : node.green.slots[slot]? = none :=
      Array.getElem?_eq_none (Node.below?_eq_none_iff.1 hbelow)
    rw [hslot]
    rfl
  | some below =>
    have hpart := (standing.below? hbelow).part?_eq
    rw [Node.below?_green hbelow]
    change _ = tree.visits below.path
    rw [Tree.visits, hpart, Node.below?_path hbelow]

theorem Token.Stands.visits_eq {token : Token} (standing : token.Stands tree) :
    tree.visits token.path = [.token token.path] := by
  have hpart : tree.part? token.path = some (.token token.green) := standing.at?
  rw [Tree.visits, hpart]
  change Green.Element.visits token.path (.token token.green) = _
  rw [Green.Element.visits]

theorem Node.mem_children : element ∈ node.children ↔ ∃ slot, node.below? slot = some element := by
  rw [children, partsAt, List.mem_filterMap]
  constructor
  · rintro ⟨slot, -, hbelow⟩
    exact ⟨slot, hbelow⟩
  · rintro ⟨slot, hbelow⟩
    exact ⟨slot, List.mem_range.2 (Node.below?_isSome.1 (hbelow ▸ rfl)), hbelow⟩

theorem Node.Stands.of_mem_children (standing : node.Stands tree) (h : element ∈ node.children) :
    element.Stands tree := by
  obtain ⟨slot, hbelow⟩ := Node.mem_children.1 h
  exact standing.below? hbelow

/-- What holds of the tokens, and of a node as soon as it holds of its children, holds of all. -/
@[elab_as_elim]
theorem Element.descend {motive : Element → Prop} (token : ∀ t, motive (.token t))
    (node : ∀ n : Node, (∀ below ∈ n.children, motive below) → motive (.node n))
    (element : Element) : motive element := by
  cases element with
  | token t => exact token t
  | node n =>
    induction n using Node.descend with
    | step n ih =>
      refine node n fun below hmem => ?_
      obtain ⟨slot, hbelow⟩ := Node.mem_children.1 hmem
      cases below with
      | token t => exact token t
      | node m => exact ih slot m hbelow

theorem Node.parts_children (node : Node) : node.parts = node.children.flatMap Element.parts := by
  rw [parts_eq, children_flatMap]
  refine List.flatMap_congr fun slot _ => ?_
  rw [partsIn]
  cases node.below? slot <;> rfl

theorem Node.tokens_children (node : Node) :
    node.tokens = node.children.flatMap Element.tokens := by
  rw [tokens, parts_children, List.filterMap_flatMap]
  rfl

/-- How a walk meets an element. -/
def Element.visit : Element → Visit
  | .node n => .enter n.path
  | .token t => .token t.path

/-- The elements below an element are met in the visits of its path, apart from the leaving. -/
theorem Element.Stands.parts_visits (standing : element.Stands tree)
    {f : Visit → Option (List Nat)} (hleave : ∀ path, f (.leave path) = none) :
    element.parts.filterMap (fun part => f part.visit) =
      (tree.visits element.path).filterMap f := by
  induction element using Element.descend with
  | token t =>
    change [Element.token t].filterMap _ = (tree.visits t.path).filterMap f
    rw [Token.Stands.visits_eq standing, List.filterMap_cons, List.filterMap_cons]
    rfl
  | node n ih =>
    have hbelow : n.parts.filterMap (fun part => f part.visit) =
        n.children.flatMap fun below => (tree.visits below.path).filterMap f := by
      rw [n.parts_children, List.filterMap_flatMap]
      exact List.flatMap_congr fun below hmem =>
        ih below hmem (Node.Stands.of_mem_children standing hmem)
    have hlast (path : List Nat) : [Visit.leave path].filterMap f = [] := by
      rw [List.filterMap_cons, hleave]
      rfl
    change (Element.node n :: n.parts).filterMap _ = (tree.visits n.path).filterMap f
    rw [Node.Stands.visits_eq standing, List.filterMap_append, hlast, List.append_nil,
      List.filterMap_cons, List.filterMap_cons, hbelow, List.filterMap_flatMap]
    rfl

/-- **The parts of an element have the paths below its path.** -/
theorem Element.Stands.parts_path (standing : element.Stands tree) :
    element.parts.map Element.path = tree.parts element.path := by
  rw [Tree.parts, ← standing.parts_visits fun _ => rfl, ← List.filterMap_eq_map]
  exact List.filterMap_congr fun part _ => by cases part <;> rfl

/-- **The tokens of an element have the paths of the tokens below its path.** -/
theorem Element.Stands.tokens_path (standing : element.Stands tree) :
    element.tokens.map Token.path = tree.tokens element.path := by
  rw [Tree.tokens, ← standing.parts_visits fun _ => rfl, Element.tokens, List.map_filterMap]
  exact List.filterMap_congr fun part _ => by cases part <;> rfl

theorem Element.Stands.descendants_path (standing : element.Stands tree) :
    (element.parts.filterMap Element.node?).map Node.path = tree.descendants element.path := by
  rw [Tree.descendants, ← standing.parts_visits fun _ => rfl, List.map_filterMap]
  exact List.filterMap_congr fun part _ => by cases part <;> rfl

/-! ## Each path once -/

theorem Node.path_of_mem_children (h : element ∈ node.children) :
    ∃ slot, element.path = node.path ++ [slot] := by
  obtain ⟨slot, hbelow⟩ := Node.mem_children.1 h
  exact ⟨slot, Node.below?_path hbelow⟩

theorem Element.path_prefix {part : Element} (h : part ∈ element.parts) :
    element.path <+: part.path := by
  induction element using Element.descend with
  | token t => exact List.mem_singleton.1 h ▸ List.prefix_rfl
  | node n ih =>
    rcases List.mem_cons.1 h with rfl | h
    · exact List.prefix_rfl
    · rw [n.parts_children, List.mem_flatMap] at h
      obtain ⟨below, hmem, hpart⟩ := h
      obtain ⟨slot, hpath⟩ := Node.path_of_mem_children hmem
      have hlonger : n.path <+: below.path := hpath ▸ List.prefix_append _ _
      exact hlonger.trans (ih below hmem hpart)

theorem Element.Stands.parts_nodup (standing : element.Stands tree) :
    (element.parts.map Element.path).Nodup := by
  induction element using Element.descend with
  | token t => exact List.nodup_singleton _
  | node n ih =>
    change (n.path :: n.parts.map Element.path).Nodup
    rw [n.parts_children, List.map_flatMap, List.nodup_cons, List.nodup_flatMap]
    refine ⟨fun hmem => ?_, fun below hmem => ih below hmem
      (Node.Stands.of_mem_children standing hmem), ?_⟩
    · obtain ⟨below, hbelow, hpart⟩ := List.mem_flatMap.1 hmem
      obtain ⟨part, hpart, hpath⟩ := List.mem_map.1 hpart
      obtain ⟨slot, hslot⟩ := Node.path_of_mem_children hbelow
      have hlength := (Element.path_prefix hpart).length_le
      rw [hpath, hslot, List.length_append] at hlength
      exact absurd hlength (by simp)
    · -- two children have paths of one length, so no path goes on from both
      have hchildren : n.children.Pairwise fun a b => a.path ≠ b.path := by
        have hnodup := tree.children_nodup n.path
        rw [← Node.Stands.children_path standing] at hnodup
        exact List.pairwise_map.1 hnodup
      refine hchildren.imp_of_mem fun {a b} ha hb hne p hpa hpb => hne ?_
      obtain ⟨x, hx, rfl⟩ := List.mem_map.1 hpa
      obtain ⟨y, hy, hxy⟩ := List.mem_map.1 hpb
      obtain ⟨i, hi⟩ := Node.path_of_mem_children ha
      obtain ⟨j, hj⟩ := Node.path_of_mem_children hb
      have hprefix : b.path <+: x.path := hxy ▸ Element.path_prefix hy
      have hlength : a.path.length = b.path.length := by simp [hi, hj]
      have hab : a.path <+: b.path := List.prefix_of_prefix_length_le (Element.path_prefix hx)
        hprefix (Nat.le_of_eq hlength)
      exact hab.eq_of_length hlength

theorem Tree.tokens_sublist (tree : Tree) (path : List Nat) :
    (tree.tokens path).Sublist (tree.parts path) := by
  rw [tokens, parts]
  induction tree.visits path with
  | nil => exact List.Sublist.slnil
  | cons visit visits ih =>
    cases visit with
    | enter path => exact ih.cons path
    | leave path => exact ih
    | token path => exact ih.cons_cons path

theorem Tree.tokens_nodup (tree : Tree) : (tree.tokens []).Nodup := by
  have hroot : (Element.node tree.root).Stands tree := Node.Stands.root
  have hnodup := hroot.parts_nodup
  rw [hroot.parts_path] at hnodup
  exact hnodup.sublist (tree.tokens_sublist [])

end

end Placed

end LosslessSyntax
