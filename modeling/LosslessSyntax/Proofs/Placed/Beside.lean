import LosslessSyntax.Proofs.Placed.Paths
import Mathlib.Data.List.Infix

/-!
# Above and beside a part, told by paths

The part above a part has its path without the last slot. What is beside a part, among the parts of
the node above or among all tokens, is beside its path in the row of paths.

* `Placed.Element.Stands.parent_path`, `Placed.Node.Stands.ancestors_path`: the way up;
* `Placed.Finds`: a query that finds the part at a path, if any;
* **`Placed.Element.Stands.beside_finds`**, **`Placed.Node.Stands.beside_finds`**,
  **`Placed.Token.Stands.beside_finds`**: what is beside a part.
-/

namespace LosslessSyntax.Placed

variable {tree : Tree}

/-! ## The way up -/

section

variable {node : Node} {token : Token} {element : Element}

theorem Element.Stands.path_eq (standing : element.Stands tree) {parent : Node}
    (h : element.parent? = some parent) : element.path = parent.path ++ [element.index] :=
  Node.below?_path (standing.below?_eq h).2

theorem Element.Stands.parent_cases (standing : element.Stands tree) :
    (element.parent? = none ∧ element.path = [] ∧ element.index = 0) ∨
    ∃ parent, element.parent? = some parent ∧ parent.Stands tree ∧
      element.path = parent.path ++ [element.index] := by
  cases hparent : element.parent? with
  | some parent =>
    exact .inr ⟨parent, rfl, (standing.below?_eq hparent).1, standing.path_eq hparent⟩
  | none =>
    cases element with
    | token t => cases hparent
    | node n =>
      cases standing with
      | root => exact .inl ⟨rfl, rfl, rfl⟩
      | child standing found => cases hparent

theorem Element.Stands.index_eq (standing : element.Stands tree) :
    element.index = element.path.getLast?.getD 0 := by
  rcases standing.parent_cases with ⟨-, hpath, hindex⟩ | ⟨parent, -, -, hpath⟩
  · rw [hpath, hindex]
    rfl
  · rw [hpath, List.getLast?_concat]
    rfl

theorem Element.Stands.parent_path (standing : element.Stands tree) :
    element.parent?.map Node.path = if element.path = [] then none else some element.path.dropLast := by
  rcases standing.parent_cases with ⟨hparent, hpath, -⟩ | ⟨parent, hparent, -, hpath⟩
  · rw [hparent, hpath]
    rfl
  · rw [hparent, hpath, List.dropLast_concat, if_neg (by simp)]
    rfl

theorem Node.Stands.of_mem_ancestors (standing : node.Stands tree) {n : Node}
    (h : n ∈ node.ancestors) : n.Stands tree := by
  induction standing with
  | root =>
    rw [List.mem_singleton.1 h]
    exact .root
  | child standing found ih =>
    rcases List.mem_cons.1 h with rfl | h
    · exact .child standing found
    · exact ih h

theorem Node.Stands.ancestors_path (standing : node.Stands tree) :
    node.ancestors.map Node.path = node.path.inits.reverse := by
  induction standing with
  | root => rfl
  | @child parent slot head slots standing found ih =>
    have hpath : (parent.nodeBelow slot ⟨head, slots⟩).path.inits.reverse =
        (parent.nodeBelow slot ⟨head, slots⟩).path :: parent.path.inits.reverse := by
      rw [nodeBelow_path, List.inits_append, List.reverse_append]
      rfl
    rw [hpath, ← ih]
    rfl

end

/-! ## Beside -/

theorem beside_path {α : Type} (path : α → List Nat) {row before after : List α} {x : α}
    (hrow : row = before ++ x :: after) (hnodup : (row.map path).Nodup) :
    after.head?.map path = nextIn (row.map path) (path x) ∧
      before.getLast?.map path = previousIn (row.map path) (path x) := by
  have hpaths : row.map path = before.map path ++ path x :: after.map path := by
    rw [hrow, List.map_append, List.map_cons]
  rw [hpaths] at hnodup
  rw [hpaths, nextIn_split hnodup, previousIn_split hnodup, List.head?_map, List.getLast?_map]
  exact ⟨rfl, rfl⟩

theorem nextIn_of_notMem {row : List (List Nat)} {path : List Nat} (h : path ∉ row) :
    nextIn row path = none := by
  rw [nextIn, List.idxOf_eq_length_iff.2 h]
  exact List.getElem?_eq_none (Nat.le_succ _)

theorem previousIn_of_notMem {row : List (List Nat)} {path : List Nat} (h : path ∉ row) :
    previousIn row path = none :=
  nextIn_of_notMem fun hmem => h (List.mem_reverse.1 hmem)

theorem Tree.nil_notMem_children (tree : Tree) (path : List Nat) : [] ∉ tree.children path := by
  intro hmem
  obtain ⟨slot, -, hpath⟩ := List.mem_map.1 hmem
  exact absurd hpath (by simp)

theorem Tree.nil_notMem_nodes (tree : Tree) (path : List Nat) : [] ∉ tree.nodes path :=
  fun hmem => tree.nil_notMem_children path (List.mem_of_mem_filter hmem)

/-- The query finds the part at a path, or nothing if there is no path. -/
def Finds {α : Type} (tree : Tree) (part : α → Element) (query : Query (Option α))
    (path : Option (List Nat)) : Prop :=
  ∃ found, Query.Gives tree query (.ok found) ∧
    (∀ x, found = some x → (part x).Stands tree) ∧ found.map (fun x => (part x).path) = path

theorem Finds.none {α : Type} {part : α → Element} : Finds tree part (pure Option.none) Option.none :=
  ⟨Option.none, Query.Gives.pure _, fun _ h => absurd h.symm (Option.some_ne_none _), rfl⟩

section

variable {α : Type} {part : α → Element} {row : List α} {query : Query (Option α)}

theorem Finds.head (standing : ∀ x ∈ row, (part x).Stands tree)
    (h : Query.Gives tree query (.ok row.head?)) :
    Finds tree part query (row.map fun x => (part x).path).head? :=
  ⟨_, h, fun x hx => standing x (List.mem_of_head? hx), List.head?_map.symm⟩

theorem Finds.last (standing : ∀ x ∈ row, (part x).Stands tree)
    (h : Query.Gives tree query (.ok row.getLast?)) :
    Finds tree part query (row.map fun x => (part x).path).getLast? :=
  ⟨_, h, fun x hx => standing x (List.mem_of_getLast? hx), List.getLast?_map.symm⟩

theorem Finds.beside (part : α → Element) (standing : ∀ x ∈ row, (part x).Stands tree) {before after : List α} {x : α}
    (hrow : row = before ++ x :: after) {paths : List (List Nat)}
    (hpaths : row.map (fun x => (part x).path) = paths) (hnodup : paths.Nodup)
    {next previous : Query (Option α)} (hnext : Query.Gives tree next (.ok after.head?))
    (hprevious : Query.Gives tree previous (.ok before.getLast?)) :
    Finds tree part next (nextIn paths (part x).path) ∧
      Finds tree part previous (previousIn paths (part x).path) := by
  subst hpaths
  obtain ⟨hafter, hbefore⟩ := beside_path (fun x => (part x).path) hrow hnodup
  rw [← hafter, ← hbefore]
  refine ⟨⟨_, hnext, fun y hy => standing y ?_, rfl⟩, _, hprevious, fun y hy => standing y ?_, rfl⟩
  · rw [hrow]
    exact List.mem_append_right _ (List.mem_cons_of_mem _ (List.mem_of_head? hy))
  · rw [hrow]
    exact List.mem_append_left _ (List.mem_of_getLast? hy)

end

section

variable {node : Node} {element : Element} {token : Token}

theorem Node.Stands.of_mem_nodes (standing : node.Stands tree) {n : Node} (h : n ∈ node.nodes) :
    n.Stands tree := by
  obtain ⟨slot, -, hbelow⟩ := List.mem_filterMap.1 h
  exact standing.nodeBelow? hbelow

theorem Element.Stands.of_mem_parts (standing : element.Stands tree) {part : Element}
    (h : part ∈ element.parts) : part.Stands tree := by
  cases element with
  | token t => exact List.mem_singleton.1 h ▸ standing
  | node n =>
    rcases List.mem_cons.1 h with rfl | h
    · exact standing
    · exact Node.Stands.of_mem_parts standing h

theorem Element.Stands.of_mem_tokens (standing : element.Stands tree) {t : Token}
    (h : t ∈ element.tokens) : t.Stands tree := by
  obtain ⟨part, hpart, htoken⟩ := List.mem_filterMap.1 h
  have hstanding := standing.of_mem_parts hpart
  cases part with
  | node n => cases htoken
  | token t' =>
    cases htoken
    exact hstanding

theorem Node.Stands.firstNode?_finds (standing : node.Stands tree) (fits : tree.Fits) :
    Finds tree Element.node node.firstNode? (tree.nodes node.path).head? :=
  standing.nodes_path ▸ Finds.head (fun _ hmem => standing.of_mem_nodes hmem)
    (Node.firstNode?_gives standing fits)

theorem Node.Stands.lastNode?_finds (standing : node.Stands tree) (fits : tree.Fits) :
    Finds tree Element.node node.lastNode? (tree.nodes node.path).getLast? :=
  standing.nodes_path ▸ Finds.last (fun _ hmem => standing.of_mem_nodes hmem)
    (Node.lastNode?_gives standing fits)

theorem Node.tokens_path (standing : node.Stands tree) :
    node.tokens.map Token.path = tree.tokens node.path := by
  have helement : (Element.node node).Stands tree := standing
  exact helement.tokens_path

theorem Node.Stands.of_mem_tokens (standing : node.Stands tree) {t : Token} (h : t ∈ node.tokens) :
    t.Stands tree := by
  have helement : (Element.node node).Stands tree := standing
  exact helement.of_mem_tokens h

theorem Node.Stands.firstToken?_finds (standing : node.Stands tree) (fits : tree.Fits) :
    Finds tree Element.token node.firstToken? (tree.tokens node.path).head? :=
  Node.tokens_path standing ▸ Finds.head (fun _ hmem => standing.of_mem_tokens hmem)
    (Node.firstToken?_gives standing fits)

theorem Node.Stands.lastToken?_finds (standing : node.Stands tree) (fits : tree.Fits) :
    Finds tree Element.token node.lastToken? (tree.tokens node.path).getLast? :=
  Node.tokens_path standing ▸ Finds.last (fun _ hmem => standing.of_mem_tokens hmem)
    (Node.lastToken?_gives standing fits)

/-- **The parts beside a part have the paths beside its path among the children above.** -/
theorem Element.Stands.beside_finds (standing : element.Stands tree) (fits : tree.Fits) :
    Finds tree id element.next? (nextIn (tree.children element.path.dropLast) element.path) ∧
      Finds tree id element.previous?
        (previousIn (tree.children element.path.dropLast) element.path) := by
  rcases standing.parent_cases with ⟨hparent, hpath, -⟩ | ⟨parent, hparent, hstanding, hpath⟩
  · have hnil := tree.nil_notMem_children []
    unfold next? previous?
    rw [hparent, hpath]
    exact ⟨nextIn_of_notMem hnil ▸ Finds.none, previousIn_of_notMem hnil ▸ Finds.none⟩
  · obtain ⟨before, after, hrow, hnext, hprevious⟩ := standing.siblings fits hparent
    have hdrop : element.path.dropLast = parent.path := by rw [hpath, List.dropLast_concat]
    rw [hdrop]
    exact Finds.beside id (fun x hmem => hstanding.of_mem_children hmem) hrow
      hstanding.children_path (tree.children_nodup _) hnext hprevious

/-- **The nodes beside a node have the paths beside its path among the nodes above.** -/
theorem Node.Stands.beside_finds (standing : node.Stands tree) (fits : tree.Fits) :
    Finds tree Element.node node.nextNode?
        (nextIn (tree.nodes node.path.dropLast) node.path) ∧
      Finds tree Element.node node.previousNode?
        (previousIn (tree.nodes node.path.dropLast) node.path) := by
  have helement : (Element.node node).Stands tree := standing
  rcases helement.parent_cases with ⟨hparent, hpath, -⟩ | ⟨parent, hparent, hstanding, hpath⟩
  · have hnil := tree.nil_notMem_nodes []
    change node.parent? = none at hparent
    change node.path = [] at hpath
    rw [Node.nextNode?, Node.previousNode?, hparent, hpath]
    exact ⟨nextIn_of_notMem hnil ▸ Finds.none, previousIn_of_notMem hnil ▸ Finds.none⟩
  · obtain ⟨before, after, hrow, hnext, hprevious⟩ := standing.nodeSiblings fits hparent
    change node.path = parent.path ++ [node.index] at hpath
    have hdrop : node.path.dropLast = parent.path := by rw [hpath, List.dropLast_concat]
    rw [hdrop]
    exact Finds.beside Element.node (fun x hmem => hstanding.of_mem_nodes hmem) hrow
      hstanding.nodes_path (tree.nodes_nodup _) hnext hprevious

/-- **The tokens beside a token have the paths beside its path among all tokens.** -/
theorem Token.Stands.beside_finds (standing : token.Stands tree) (fits : tree.Fits) :
    Finds tree Element.token token.next? (nextIn (tree.tokens []) token.path) ∧
      Finds tree Element.token token.previous? (previousIn (tree.tokens []) token.path) := by
  have hroot : tree.root.Stands tree := .root
  obtain ⟨before, after, hrow, hnext, hprevious⟩ := standing.neighbours fits
  exact Finds.beside Element.token (fun x hmem => hroot.of_mem_tokens hmem) hrow
    (Node.tokens_path hroot) tree.tokens_nodup hnext hprevious

end

end LosslessSyntax.Placed
