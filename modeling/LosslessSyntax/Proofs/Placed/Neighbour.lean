import LosslessSyntax.Placed.Cursor
import LosslessSyntax.Proofs.Placed.Slot

/-!
# Rows of children

The parts in the slots of a node stand in one row, and so do the nodes among them. What is beside a
part is beside it in the row; a cursor is what is left of the row, and takes from its two ends.

* `Placed.Node.partsAt`, `Placed.Node.nodesAt`: the parts and the nodes in some slots;
* `Placed.Node.children`, `Placed.Node.nodes`: those in all slots;
* **`Placed.Element.Stands.siblings`**, **`Placed.Node.Stands.nodeSiblings`**: what is beside a part;
* `Placed.Cursor.left`, `Placed.Cursor.nodesLeft`: what is left of the row;
* **`Placed.Cursor.Valid.next_gives`** and its like: what a cursor takes.
-/

namespace LosslessSyntax.Placed

namespace Node

/-- The parts in some slots. -/
def partsAt (node : Node) (slots : List Nat) : List Element := slots.filterMap node.below?

/-- The node in a slot, if it holds one. -/
def nodeBelow? (node : Node) (slot : Nat) : Option Node := (node.below? slot).bind Element.node?

/-- The nodes in some slots. -/
def nodesAt (node : Node) (slots : List Nat) : List Node := slots.filterMap node.nodeBelow?

/-- The parts in the slots of a node. -/
def children (node : Node) : List Element := node.partsAt (List.range node.arity)

/-- The nodes in the slots of a node. -/
def nodes (node : Node) : List Node := node.nodesAt (List.range node.arity)

end Node

section

variable {tree : Tree} {node : Node} {slot count : Nat}

theorem Node.nodeBelow?_index {n : Node} (h : node.nodeBelow? slot = some n) : n.index = slot := by
  obtain ⟨element, hbelow, hnode⟩ := Option.bind_eq_some_iff.1 h
  cases element with
  | token t => cases hnode
  | node m =>
    cases hnode
    exact (Node.below?_parent hbelow).2

theorem Node.Stands.nodeBelow? (standing : node.Stands tree) {n : Node}
    (h : node.nodeBelow? slot = some n) : n.Stands tree := by
  obtain ⟨element, hbelow, hnode⟩ := Option.bind_eq_some_iff.1 h
  cases element with
  | token t => cases hnode
  | node m =>
    cases hnode
    exact standing.below? hbelow

theorem Node.partsAt_range' (h : slot < node.arity) (count : Nat) : ∃ element,
    node.below? slot = some element ∧ node.partsAt (List.range' slot (count + 1)) =
      element :: node.partsAt (List.range' (slot + 1) count) := by
  obtain ⟨element, hbelow⟩ := Option.isSome_iff_exists.1 (Node.below?_isSome.2 h)
  refine ⟨element, hbelow, ?_⟩
  rw [partsAt, List.range'_succ, List.filterMap_cons, hbelow]
  rfl

theorem Node.length_partsAt_range' (h : slot + count ≤ node.arity) :
    (node.partsAt (List.range' slot count)).length = count := by
  induction count generalizing slot with
  | zero => rfl
  | succ count ih =>
    obtain ⟨element, -, hrow⟩ := Node.partsAt_range' (show slot < node.arity by omega) count
    rw [hrow, List.length_cons, ih (by omega)]

theorem Node.head?_partsAt_range' (node : Node) (slot : Nat) :
    (node.partsAt (List.range' slot (node.arity - slot))).head? = node.below? slot := by
  by_cases h : slot < node.arity
  · obtain ⟨element, hbelow, hrow⟩ := Node.partsAt_range' h (node.arity - (slot + 1))
    rw [show node.arity - slot = node.arity - (slot + 1) + 1 by omega, hrow, hbelow]
    rfl
  · rw [show node.arity - slot = 0 by omega, Node.below?_eq_none_iff.2 (Nat.le_of_not_lt h)]
    rfl

theorem Node.getLast?_partsAt_range (h : slot < node.arity) :
    (node.partsAt (List.range (slot + 1))).getLast? = node.below? slot := by
  obtain ⟨element, hbelow⟩ := Option.isSome_iff_exists.1 (Node.below?_isSome.2 h)
  have hlast : [slot].filterMap node.below? = [element] := by simp [hbelow]
  rw [partsAt, List.range_succ, List.filterMap_append, hlast, List.getLast?_concat, hbelow]

theorem Node.nodesAt_range'_succ (node : Node) (slot count : Nat) :
    node.nodesAt (List.range' slot (count + 1)) =
      (node.nodeBelow? slot).toList ++ node.nodesAt (List.range' (slot + 1) count) := by
  rw [nodesAt, List.range'_succ, List.filterMap_cons]
  cases node.nodeBelow? slot <;> rfl

theorem Node.nodesAt_range'_last (node : Node) (slot count : Nat) :
    node.nodesAt (List.range' slot (count + 1)) =
      node.nodesAt (List.range' slot count) ++ (node.nodeBelow? (slot + count)).toList := by
  rw [nodesAt, List.range'_1_concat, List.filterMap_append]
  congr 1

/-- The first node in a row of slots, and the nodes in the slots after it. -/
theorem Node.nodesAt_cons {n : Node} {rest : List Node}
    (h : node.nodesAt (List.range' slot count) = n :: rest) :
    slot ≤ n.index ∧ n.index < slot + count ∧
      node.nodesAt (List.range' (n.index + 1) (slot + count - (n.index + 1))) = rest := by
  induction count generalizing slot with
  | zero => cases h
  | succ count ih =>
    rw [nodesAt_range'_succ] at h
    cases hnode : node.nodeBelow? slot with
    | some m =>
      rw [hnode, Option.toList_some, List.singleton_append, List.cons.injEq] at h
      obtain ⟨rfl, h⟩ := h
      rw [nodeBelow?_index hnode, show slot + (count + 1) - (slot + 1) = count by omega]
      exact ⟨Nat.le_refl _, by omega, h⟩
    | none =>
      rw [hnode, Option.toList_none, List.nil_append] at h
      obtain ⟨hlow, hhigh, hrest⟩ := ih h
      refine ⟨by omega, by omega, ?_⟩
      rw [← hrest, show slot + (count + 1) = slot + 1 + count by omega]

theorem Node.children_split {element : Element} (h : node.below? slot = some element) :
    node.children = node.partsAt (List.range slot) ++
      element :: node.partsAt (List.range' (slot + 1) (node.arity - (slot + 1))) := by
  have hslot : slot < node.arity := Node.below?_isSome.1 (h ▸ rfl)
  obtain ⟨count, hcount⟩ : ∃ count, node.arity = slot + (count + 1) :=
    ⟨node.arity - (slot + 1), by omega⟩
  obtain ⟨e, he, hrow⟩ := Node.partsAt_range' hslot count
  rw [h, Option.some_inj] at he
  subst he
  have hall : node.children = node.partsAt (List.range slot) ++
      node.partsAt (List.range' slot (count + 1)) := by
    rw [children, hcount, List.range_add, List.range'_eq_map_range, partsAt, List.filterMap_append]
    rfl
  rw [hall, hrow, hcount, show slot + (count + 1) - (slot + 1) = count by omega]

theorem Node.nodes_split (h : slot < node.arity) :
    node.nodes = node.nodesAt (List.range slot) ++ ((node.nodeBelow? slot).toList ++
      node.nodesAt (List.range' (slot + 1) (node.arity - (slot + 1)))) := by
  obtain ⟨count, hcount⟩ : ∃ count, node.arity = slot + (count + 1) :=
    ⟨node.arity - (slot + 1), by omega⟩
  have hall : node.nodes = node.nodesAt (List.range slot) ++
      node.nodesAt (List.range' slot (count + 1)) := by
    rw [nodes, hcount, List.range_add, List.range'_eq_map_range, nodesAt, List.filterMap_append]
    rfl
  rw [hall, nodesAt_range'_succ, hcount, show slot + (count + 1) - (slot + 1) = count by omega]

end

/-! ## Neighbours -/

section

variable {tree : Tree} {node : Node} {slot : Nat}

theorem Node.nodeAt_some (standing : node.Stands tree) (fits : tree.Fits)
    (h : slot < node.arity) : Query.Gives tree (node.nodeAt slot) (.ok (node.nodeBelow? slot)) := by
  obtain ⟨element, hbelow⟩ := Option.isSome_iff_exists.1 (Node.below?_isSome.2 h)
  rw [nodeBelow?, hbelow]
  exact nodeAt_gives standing fits hbelow

theorem Node.firstNodeFrom?_gives (standing : node.Stands tree) (fits : tree.Fits) {count : Nat}
    (h : slot + count ≤ node.arity) :
    Query.Gives tree (node.firstNodeFrom? count slot)
      (.ok (node.nodesAt (List.range' slot count)).head?) := by
  induction count generalizing slot with
  | zero => exact Query.Gives.pure none
  | succ count ih =>
    rw [nodesAt_range'_succ, firstNodeFrom?]
    refine (nodeAt_some standing fits (by omega)).bind_ok ?_
    cases node.nodeBelow? slot with
    | some found => exact Query.Gives.pure _
    | none => exact ih (by omega)

theorem Node.lastNodeBefore?_gives (standing : node.Stands tree) (fits : tree.Fits)
    (h : slot ≤ node.arity) :
    Query.Gives tree (node.lastNodeBefore? slot)
      (.ok (node.nodesAt (List.range slot)).getLast?) := by
  induction slot with
  | zero => exact Query.Gives.pure none
  | succ slot ih =>
    have hrow : node.nodesAt (List.range (slot + 1)) =
        node.nodesAt (List.range slot) ++ (node.nodeBelow? slot).toList := by
      rw [List.range_eq_range', nodesAt_range'_last, ← List.range_eq_range', Nat.zero_add]
    rw [hrow, List.getLast?_append, lastNodeBefore?]
    refine (nodeAt_some standing fits (by omega)).bind_ok ?_
    cases node.nodeBelow? slot with
    | some found => exact Query.Gives.pure _
    | none => exact ih (by omega)

/-- **What is beside a part is beside it among the children of the node above.** -/
theorem Element.Stands.siblings {element : Element} (standing : element.Stands tree)
    (fits : tree.Fits) {parent : Node}
    (h : element.parent? = some parent) : ∃ before after,
    parent.children = before ++ element :: after ∧
      Query.Gives tree element.next? (.ok after.head?) ∧
      Query.Gives tree element.previous? (.ok before.getLast?) := by
  obtain ⟨hparent, hbelow⟩ := standing.below?_eq h
  refine ⟨_, _, Node.children_split hbelow, ?_, ?_⟩
  · rw [next?, h, Node.head?_partsAt_range']
    exact Node.slot?_gives hparent fits _
  · have hslot : element.index < parent.arity := Node.below?_isSome.1 (hbelow ▸ rfl)
    unfold previous?
    rw [h]
    cases hindex : element.index with
    | zero => exact Query.Gives.pure none
    | succ slot =>
      rw [Node.getLast?_partsAt_range (show slot < parent.arity by omega)]
      exact Node.slot?_gives hparent fits slot

/-- **The nodes beside a node are those beside it among the nodes below the node above.** -/
theorem Node.Stands.nodeSiblings (standing : node.Stands tree) (fits : tree.Fits) {parent : Node}
    (h : node.parent? = some parent) : ∃ before after,
    parent.nodes = before ++ node :: after ∧
      Query.Gives tree node.nextNode? (.ok after.head?) ∧
      Query.Gives tree node.previousNode? (.ok before.getLast?) := by
  have hstanding : (Element.node node).Stands tree := standing
  obtain ⟨hparent, hbelow⟩ := hstanding.below?_eq h
  have hindex : node.index < parent.arity := Node.below?_isSome.1 (hbelow ▸ rfl)
  have hnode : parent.nodeBelow? node.index = some node := by
    rw [Node.nodeBelow?, show node.index = (Element.node node).index from rfl, hbelow]
    rfl
  refine ⟨parent.nodesAt (List.range node.index),
    parent.nodesAt (List.range' (node.index + 1) (parent.arity - (node.index + 1))), ?_, ?_, ?_⟩
  · have hsplit := Node.nodes_split hindex
    rw [hnode] at hsplit
    exact hsplit
  · rw [nextNode?, h]
    exact firstNodeFrom?_gives hparent fits (by omega)
  · rw [previousNode?, h]
    exact lastNodeBefore?_gives hparent fits (Nat.le_of_lt hindex)

end

/-! ## Cursors -/

namespace Cursor

/-- A cursor that was made for a node of the tree. -/
structure Valid (tree : Tree) (cursor : Cursor) : Prop where
  standing : cursor.parent.Stands tree
  front_le : cursor.front ≤ cursor.back
  back_le : cursor.back ≤ cursor.parent.arity

/-- The parts that are left. -/
def left (cursor : Cursor) : List Element :=
  cursor.parent.partsAt (List.range' cursor.front cursor.length)

/-- The nodes that are left. -/
def nodesLeft (cursor : Cursor) : List Node :=
  cursor.parent.nodesAt (List.range' cursor.front cursor.length)

variable {tree : Tree} {cursor : Cursor}

theorem valid_cursor {node : Node} (standing : node.Stands tree) : Valid tree node.cursor :=
  ⟨standing, Nat.zero_le _, Nat.le_refl _⟩

theorem cursor_left (node : Node) : node.cursor.left = node.children := by
  rw [left, Node.children, List.range_eq_range']
  rfl

theorem cursor_nodesLeft (node : Node) : node.cursor.nodesLeft = node.nodes := by
  rw [nodesLeft, Node.nodes, List.range_eq_range']
  rfl

theorem holdsNode_eq (cursor : Cursor) (slot : Nat) :
    cursor.holdsNode slot = (cursor.parent.nodeBelow? slot).isSome := by
  rw [holdsNode, Node.nodeBelow?, Green.Node.slot?, Node.below?]
  cases cursor.parent.green.slots[slot]? with
  | none => rfl
  | some e => cases e <;> rfl

namespace Valid

theorem of_mem_left (h : Valid tree cursor) {element : Element} (hmem : element ∈ cursor.left) :
    element.Stands tree := by
  obtain ⟨slot, -, hbelow⟩ := List.mem_filterMap.1 hmem
  exact h.standing.below? hbelow

theorem of_mem_nodesLeft (h : Valid tree cursor) {node : Node} (hmem : node ∈ cursor.nodesLeft) :
    node.Stands tree := by
  obtain ⟨slot, -, hbelow⟩ := List.mem_filterMap.1 hmem
  exact h.standing.nodeBelow? hbelow

theorem length_left (h : Valid tree cursor) : cursor.left.length = cursor.length := by
  have hfront := h.front_le
  have hback := h.back_le
  exact Node.length_partsAt_range' (by unfold length; omega)

/-- **The next part is the first of those that are left.** -/
theorem next_gives (h : Valid tree cursor) (fits : tree.Fits) :
    ∃ cursor' : Cursor, cursor'.Valid tree ∧ cursor'.left = cursor.left.tail ∧
      Query.Gives tree cursor.next (.ok (cursor.left.head?, cursor')) := by
  obtain ⟨parent, front, back⟩ := cursor
  have hfront : front ≤ back := h.front_le
  have hback : back ≤ parent.arity := h.back_le
  rw [Cursor.next]
  dsimp only
  by_cases hmore : front < back
  · obtain ⟨element, hbelow, hrow⟩ :=
      Node.partsAt_range' (show front < parent.arity by omega) (back - (front + 1))
    have hleft : left ⟨parent, front, back⟩ = element :: left ⟨parent, front + 1, back⟩ := by
      rw [left, left, length, length, ← hrow, show back - front = back - (front + 1) + 1 by omega]
    refine ⟨⟨parent, front + 1, back⟩, ⟨h.standing, hmore, hback⟩, by rw [hleft]; rfl, ?_⟩
    rw [if_pos hmore, hleft]
    exact (Node.slotAt_gives h.standing fits hbelow).bind_ok (Query.Gives.pure _)
  · have hleft : left ⟨parent, front, back⟩ = [] := by
      rw [left, length, Nat.sub_eq_zero_of_le (Nat.le_of_not_lt hmore)]
      rfl
    refine ⟨⟨parent, front, back⟩, h, by rw [hleft]; rfl, ?_⟩
    rw [if_neg hmore, hleft]
    exact Query.Gives.pure _

/-- **The next part from the back is the last of those that are left.** -/
theorem nextBack_gives (h : Valid tree cursor) (fits : tree.Fits) :
    ∃ cursor' : Cursor, cursor'.Valid tree ∧ cursor'.left = cursor.left.dropLast ∧
      Query.Gives tree cursor.nextBack (.ok (cursor.left.getLast?, cursor')) := by
  obtain ⟨parent, front, back⟩ := cursor
  have hfront : front ≤ back := h.front_le
  have hback : back ≤ parent.arity := h.back_le
  rw [Cursor.nextBack]
  dsimp only
  by_cases hmore : front < back
  · obtain ⟨element, hbelow⟩ := Option.isSome_iff_exists.1
      (Node.below?_isSome.2 (show back - 1 < parent.arity by omega))
    have hleft : left ⟨parent, front, back⟩ = left ⟨parent, front, back - 1⟩ ++ [element] := by
      have hlast : [back - 1].filterMap parent.below? = [element] := by simp [hbelow]
      rw [left, left, length, length, ← hlast, Node.partsAt, Node.partsAt, ← List.filterMap_append]
      dsimp only
      rw [show back - front = back - 1 - front + 1 by omega, List.range'_1_concat,
        show front + (back - 1 - front) = back - 1 by omega]
    refine ⟨⟨parent, front, back - 1⟩, ⟨h.standing, ?_, ?_⟩, by rw [hleft, List.dropLast_concat], ?_⟩
    · exact Nat.le_sub_one_of_lt hmore
    · change back - 1 ≤ parent.arity
      omega
    · rw [if_pos hmore, hleft, List.getLast?_concat]
      exact (Node.slotAt_gives h.standing fits hbelow).bind_ok (Query.Gives.pure _)
  · have hleft : left ⟨parent, front, back⟩ = [] := by
      rw [left, length, Nat.sub_eq_zero_of_le (Nat.le_of_not_lt hmore)]
      rfl
    refine ⟨⟨parent, front, back⟩, h, by rw [hleft]; rfl, ?_⟩
    rw [if_neg hmore, hleft]
    exact Query.Gives.pure _

/-- **The next node is the first of those that are left.** -/
theorem nextNode_gives (h : Valid tree cursor) (fits : tree.Fits) :
    ∃ cursor' : Cursor, cursor'.Valid tree ∧ cursor'.nodesLeft = cursor.nodesLeft.tail ∧
      Query.Gives tree cursor.nextNode (.ok (cursor.nodesLeft.head?, cursor')) := by
  have hfront := h.front_le
  have hback := h.back_le
  have hspan : cursor.front + cursor.length = cursor.back := Nat.add_sub_cancel' hfront
  have hfirst : Query.Gives tree (cursor.parent.firstNodeFrom? cursor.length cursor.front)
      (.ok cursor.nodesLeft.head?) :=
    Node.firstNodeFrom?_gives h.standing fits (by omega)
  cases hrow : cursor.nodesLeft with
  | nil =>
    rw [hrow] at hfirst
    refine ⟨cursor.close, ⟨h.standing, Nat.le_refl _, hback⟩, ?_,
      Query.Gives.bind_ok hfirst (Query.Gives.pure _)⟩
    rw [nodesLeft, length, close, Nat.sub_self]
    rfl
  | cons node rest =>
    rw [hrow] at hfirst
    obtain ⟨hlow, hhigh, hrest⟩ := Node.nodesAt_cons hrow
    refine ⟨{ cursor with front := node.index + 1 }, ⟨h.standing, ?_, hback⟩, ?_,
      Query.Gives.bind_ok hfirst (Query.Gives.pure _)⟩
    · change node.index + 1 ≤ cursor.back
      omega
    · rw [List.tail_cons, ← hrest, hspan]
      rfl

theorem lastNodeSlot?_cases (cursor : Cursor) (count : Nat) :
    (cursor.lastNodeSlot? count = none ∧
      cursor.parent.nodesAt (List.range' cursor.front count) = []) ∨
    ∃ slot node, cursor.lastNodeSlot? count = some slot ∧ cursor.front ≤ slot ∧
      slot < cursor.front + count ∧ cursor.parent.nodeBelow? slot = some node ∧
      cursor.parent.nodesAt (List.range' cursor.front count) =
        cursor.parent.nodesAt (List.range' cursor.front (slot - cursor.front)) ++ [node] := by
  induction count with
  | zero => exact .inl ⟨rfl, rfl⟩
  | succ count ih =>
    rw [lastNodeSlot?, Node.nodesAt_range'_last, holdsNode_eq]
    cases hnode : cursor.parent.nodeBelow? (cursor.front + count) with
    | some node =>
      refine .inr ⟨cursor.front + count, node, rfl, by omega, by omega, hnode, ?_⟩
      rw [Nat.add_sub_cancel_left]
      rfl
    | none =>
      rw [Option.toList_none, List.append_nil]
      rcases ih with ⟨hnone, hrow⟩ | ⟨slot, node, hsome, hlow, hhigh, hbelow, hrow⟩
      · exact .inl ⟨hnone, hrow⟩
      · exact .inr ⟨slot, node, hsome, hlow, by omega, hbelow, hrow⟩

/-- **The next node from the back is the last of those that are left.** -/
theorem nextNodeBack_gives (h : Valid tree cursor) (fits : tree.Fits) :
    ∃ cursor' : Cursor, cursor'.Valid tree ∧ cursor'.nodesLeft = cursor.nodesLeft.dropLast ∧
      Query.Gives tree cursor.nextNodeBack (.ok (cursor.nodesLeft.getLast?, cursor')) := by
  have hfront := h.front_le
  have hback := h.back_le
  have hspan : cursor.front + cursor.length = cursor.back := Nat.add_sub_cancel' hfront
  rw [nextNodeBack]
  rcases lastNodeSlot?_cases cursor cursor.length with
    ⟨hnone, hrow⟩ | ⟨slot, node, hsome, hlow, hhigh, hbelow, hrow⟩
  · have hleft : cursor.nodesLeft = [] := hrow
    refine ⟨{ cursor with back := cursor.front }, ⟨h.standing, Nat.le_refl _, ?_⟩, ?_, ?_⟩
    · exact Nat.le_trans hfront hback
    · rw [hleft, nodesLeft, length, Nat.sub_self]
      rfl
    · rw [hnone, hleft]
      exact Query.Gives.pure _
  · have hleft : cursor.nodesLeft = nodesLeft { cursor with back := slot } ++ [node] := hrow
    refine ⟨{ cursor with back := slot }, ⟨h.standing, hlow, ?_⟩, ?_, ?_⟩
    · change slot ≤ cursor.parent.arity
      omega
    · rw [hleft, List.dropLast_concat]
    · have hnode := Node.nodeAt_some h.standing fits
        (show slot < cursor.parent.arity by omega)
      rw [hsome, hleft, List.getLast?_concat]
      rw [hbelow] at hnode
      exact Query.Gives.bind_ok hnode (Query.Gives.pure _)

end Valid

end Cursor

/-! ## The outermost nodes -/

section

variable {tree : Tree} {node : Node}

theorem Node.firstNode?_gives (standing : node.Stands tree) (fits : tree.Fits) :
    Query.Gives tree node.firstNode? (.ok node.nodes.head?) := by
  obtain ⟨rest, -, -, hgives⟩ := (Cursor.valid_cursor standing).nextNode_gives fits
  rw [Cursor.cursor_nodesLeft] at hgives
  exact hgives.map Prod.fst

theorem Node.lastNode?_gives (standing : node.Stands tree) (fits : tree.Fits) :
    Query.Gives tree node.lastNode? (.ok node.nodes.getLast?) := by
  obtain ⟨rest, -, -, hgives⟩ := (Cursor.valid_cursor standing).nextNodeBack_gives fits
  rw [Cursor.cursor_nodesLeft] at hgives
  exact hgives.map Prod.fst

end

end LosslessSyntax.Placed
