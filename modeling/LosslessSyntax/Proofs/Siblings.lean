import LosslessSyntax.Proofs.Lists
import LosslessSyntax.Proofs.Placed.Chain

/-!
# From sibling to sibling

Who goes back from a node to the nodes before it, and on to the nodes after it, comes by all nodes in
the slots of the node above; who does not skip the tokens comes by all that is in these slots. It is
what a cursor over the node above gives, from the first to the last.

* `Placed.Tree.Fits.nodes_lined`, `Placed.Tree.Fits.children_lined`: the rows of nodes and of parts;
* **`Placed.Node.Stands.cursor_reads`**: what cursors over a node give;
* **`Session.siblings_enumerated`**: the siblings in the trees of all sessions.
-/

namespace LosslessSyntax

namespace Placed

section

variable {tree : Tree} {node parent : Node} {element : Element}

/-! ## Rows -/

theorem Node.parent?_of_mem_children (h : element ∈ parent.children) :
    element.parent? = some parent := by
  obtain ⟨slot, hbelow⟩ := Node.mem_children.1 h
  exact (Node.below?_parent hbelow).1

theorem Node.parent?_of_mem_nodes (h : node ∈ parent.nodes) : node.parent? = some parent := by
  obtain ⟨slot, -, hnode⟩ := List.mem_filterMap.1 h
  obtain ⟨element, hbelow, hself⟩ := Option.bind_eq_some_iff.1 hnode
  cases element with
  | token t => cases hself
  | node n =>
    cases hself
    exact (Node.below?_parent hbelow).1

theorem Node.children_nodup (node : Node) : node.children.Nodup := by
  refine List.nodup_range.filterMap fun slot slot' part h h' => ?_
  rw [← (Node.below?_parent h).2, (Node.below?_parent h').2]

theorem Node.nodes_nodup (node : Node) : node.nodes.Nodup := by
  refine List.nodup_range.filterMap fun slot slot' part h h' => ?_
  rw [← Node.nodeBelow?_index h, Node.nodeBelow?_index h']

theorem Element.Stands.exists_parent (standing : element.Stands tree)
    (below : element ≠ .node tree.root) : ∃ parent : Node, parent.Stands tree ∧
      element.parent? = some parent := by
  cases element with
  | token t =>
    cases standing with
    | child standing _ => exact ⟨_, standing, rfl⟩
  | node n =>
    cases standing with
    | root => exact absurd rfl below
    | child standing _ => exact ⟨_, standing, rfl⟩

/-- **Parts stand in the rows of the parts below nodes.** -/
theorem Tree.Fits.children_lined (fits : tree.Fits) :
    Lined tree (Element.Stands tree) Element.parent? Node.children Element.next? Element.previous? where
  above_eq := Node.parent?_of_mem_children
  nodup := Node.children_nodup
  stands standing above mem := (standing.below?_eq above).1.of_mem_children mem
  beside standing above := standing.siblings fits above
  alone {element} above := by
    unfold Element.next? Element.previous?
    rw [above]
    exact ⟨rfl, rfl⟩

/-- **Nodes stand in the rows of the nodes below nodes**, with no tokens between them. -/
theorem Tree.Fits.nodes_lined (fits : tree.Fits) :
    Lined tree (Node.Stands tree) Node.parent? Node.nodes Node.nextNode? Node.previousNode? where
  above_eq := Node.parent?_of_mem_nodes
  nodup := Node.nodes_nodup
  stands {_ node _} standing above mem := by
    have hpart : (Element.node node).Stands tree := standing
    exact (hpart.below?_eq above).1.of_mem_nodes mem
  beside standing above := standing.nodeSiblings fits above
  alone {node} above := by
    unfold Node.nextNode? Node.previousNode?
    rw [above]
    exact ⟨rfl, rfl⟩

/-! ## Cursors -/

/-- **A cursor gives the parts below a node**, one after the other, and then nothing. -/
theorem Node.Stands.cursor_reads (standing : node.Stands tree) (fits : tree.Fits) (count : Nat) :
    Query.Gives tree (Query.asking Cursor.next count node.cursor)
      (.ok ((List.range count).map (node.children[·]?))) := by
  let Left (cursor : Cursor) (row : List Element) : Prop := cursor.Valid tree ∧ cursor.left = row
  have step : ∀ cursor row, Left cursor row → ∃ rest,
      Query.Gives tree cursor.next (.ok (row.head?, rest)) ∧ Left rest row.tail := by
    rintro cursor row ⟨valid, rfl⟩
    obtain ⟨rest, hrest, hleft, hgives⟩ := valid.next_gives fits
    exact ⟨rest, hgives, hrest, hleft⟩
  have left : Left node.cursor node.children := ⟨Cursor.valid_cursor standing, Cursor.cursor_left node⟩
  exact (Query.chains_gives tree).asking_row step left count

/-- **Another kind of cursor gives the nodes among them.** -/
theorem Node.Stands.cursor_reads_nodes (standing : node.Stands tree) (fits : tree.Fits)
    (count : Nat) : Query.Gives tree (Query.asking Cursor.nextNode count node.cursor)
      (.ok ((List.range count).map (node.nodes[·]?))) := by
  let Left (cursor : Cursor) (row : List Node) : Prop := cursor.Valid tree ∧ cursor.nodesLeft = row
  have step : ∀ cursor row, Left cursor row → ∃ rest,
      Query.Gives tree cursor.nextNode (.ok (row.head?, rest)) ∧ Left rest row.tail := by
    rintro cursor row ⟨valid, rfl⟩
    obtain ⟨rest, hrest, hleft, hgives⟩ := valid.nextNode_gives fits
    exact ⟨rest, hgives, hrest, hleft⟩
  have left : Left node.cursor node.nodes :=
    ⟨Cursor.valid_cursor standing, Cursor.cursor_nodesLeft node⟩
  exact (Query.chains_gives tree).asking_row step left count

end

end Placed

namespace Session

open Placed

section

variable {s : Session} {tree : Placed.Tree}

/-- **Siblings are the row below the node above.** From every node but the root, whoever goes back
to the previous nodes meets those before it in the row of the node above, the nearest first, and
whoever goes on meets those after it; a cursor gives the whole row from its start, and its ends are
the first and the last node. The same holds for every part but the root and all that stands in the
slots. Of two parts, one is next to the other exactly if the other is previous to the one. The root has
nothing beside it. All this can fail only where there are more slots than can be numbered. -/
theorem siblings_enumerated (reached : s.Reachable) (held : tree.green.toElement ∈ s.parts)
    (room : tree.start + tree.green.width ≤ maxSize) (calls : List Call) :
    let memo := ((Facade.start tree.root).after calls).memo
    (∀ node : Placed.Node, node.Stands tree → node ≠ tree.root → ∃ parent,
      node.parent? = some parent ∧
      (∃ before after,
        Surrounds tree memo parent.nodes Node.nextNode? Node.previousNode? node before after) ∧
      (∀ count, Query.GivesFrom tree memo (Query.asking Cursor.nextNode count parent.cursor)
        ((List.range count).map (parent.nodes[·]?))) ∧
      Query.GivesFrom tree memo parent.firstNode? parent.nodes.head? ∧
      Query.GivesFrom tree memo parent.lastNode? parent.nodes.getLast?) ∧
    (∀ part : Element, part.Stands tree → part ≠ .node tree.root → ∃ parent,
      part.parent? = some parent ∧
      (∃ before after,
        Surrounds tree memo parent.children Element.next? Element.previous? part before after) ∧
      ∀ count, Query.GivesFrom tree memo (Query.asking Cursor.next count parent.cursor)
        ((List.range count).map (parent.children[·]?))) ∧
    (∀ a b : Placed.Node, a.Stands tree → b.Stands tree → ∃ onward backward,
      Query.GivesFrom tree memo a.nextNode? onward ∧
      Query.GivesFrom tree memo b.previousNode? backward ∧ (onward = some b ↔ backward = some a)) ∧
    (∀ a b : Element, a.Stands tree → b.Stands tree → ∃ onward backward,
      Query.GivesFrom tree memo a.next? onward ∧
      Query.GivesFrom tree memo b.previous? backward ∧ (onward = some b ↔ backward = some a)) ∧
    ∀ memo, tree.root.nextNode? memo = .ok none memo ∧ tree.root.previousNode? memo = .ok none memo ∧
      (Element.node tree.root).next? memo = .ok none memo ∧
      (Element.node tree.root).previous? memo = .ok none memo := by
  intro memo
  have fits := fits_of_reachable reached held room
  have valid := (Facade.valid_start tree).after fits calls
  have keeps : tree.Keeps memo := valid.memo
  refine ⟨fun node standing below => ?_, fun part standing below => ?_,
    fun a b ha hb => fits.nodes_lined.inverse ha hb keeps,
    fun a b ha hb => fits.children_lined.inverse ha hb keeps,
    fun memo => ⟨rfl, rfl, rfl, rfl⟩⟩
  · have hpart : (Element.node node).Stands tree := standing
    obtain ⟨parent, hparent, above⟩ :=
      hpart.exists_parent fun same => below (Element.node.inj same)
    exact ⟨parent, above, fits.nodes_lined.surrounds standing above keeps,
      fun count => (hparent.cursor_reads_nodes fits count).givesFrom keeps,
      (Node.firstNode?_gives hparent fits).givesFrom keeps,
      (Node.lastNode?_gives hparent fits).givesFrom keeps⟩
  · obtain ⟨parent, hparent, above⟩ := standing.exists_parent below
    exact ⟨parent, above, fits.children_lined.surrounds standing above keeps,
      fun count => (hparent.cursor_reads fits count).givesFrom keeps⟩

/-- After the first of two arguments comes the second, past the comma, and then nothing; after the
comma comes the second as well. -/
theorem siblings_enumerated_arguments : ∃ s : Session, s.Reachable ∧
    arguments.toElement ∈ s.parts ∧
    (∃ found memo, Query.chain
        ((Tree.root ⟨0, 0, arguments⟩).nodeBelow 0 argument).nextNode? Node.nextNode? 2 ∅ =
          .ok found memo ∧ found.map (Option.map Node.index) = [some 2, none]) ∧
    ∃ found memo, Query.chain
        (Element.token ((Tree.root ⟨0, 0, arguments⟩).tokenBelow 1 comma)).next? Element.next? 2 ∅ =
          .ok found memo ∧ found.map (Option.map Element.index) = [some 2, none] := by
  obtain ⟨s, reached, -, -, held⟩ := arguments_reachable
  have h := @siblings_enumerated s ⟨0, 0, arguments⟩ reached held (by decide) []
  refine ⟨s, reached, held, ?_, ?_⟩
  · obtain ⟨parent, above, ⟨before, after, around⟩, -⟩ :=
      h.1 ((Tree.root ⟨0, 0, arguments⟩).nodeBelow 0 argument) (.child .root rfl) nofun
    cases above
    obtain ⟨memo, hrun⟩ := (around.onward 2).run (arguments_narrow 0)
    have hcut : (Tree.root ⟨0, 0, arguments⟩).nodes =
        [] ++ _ :: [(Tree.root ⟨0, 0, arguments⟩).nodeBelow 2 argument] := rfl
    obtain ⟨-, rfl⟩ := cut_unique (Node.nodes_nodup _) around.cut hcut
    exact ⟨_, memo, hrun, rfl⟩
  · obtain ⟨parent, above, ⟨before, after, around⟩, -⟩ :=
      h.2.1 (.token ((Tree.root ⟨0, 0, arguments⟩).tokenBelow 1 comma)) (.child .root rfl) nofun
    cases above
    obtain ⟨memo, hrun⟩ := (around.onward 2).run (arguments_narrow 0)
    have hcut : (Tree.root ⟨0, 0, arguments⟩).children =
        [.node ((Tree.root ⟨0, 0, arguments⟩).nodeBelow 0 argument)] ++
          _ :: [.node ((Tree.root ⟨0, 0, arguments⟩).nodeBelow 2 argument)] := rfl
    obtain ⟨-, rfl⟩ := cut_unique (Node.children_nodup _) around.cut hcut
    exact ⟨_, memo, hrun, rfl⟩

end

end Session

end LosslessSyntax
