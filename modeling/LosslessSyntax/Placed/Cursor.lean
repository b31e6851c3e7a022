import LosslessSyntax.Placed.Memo

/-!
# Neighbours and cursors

The neighbours of a part are what is in the slots beside it. The nodes among them skip the tokens
that stand between.

A cursor stands between what was taken from the front of the slots of a node and what was taken
from the back, and gives out one part at a time from either end. One kind of cursor gives what is
in each slot, the other only the nodes.

* `Placed.Node.firstNodeFrom?`, `Placed.Node.lastNodeBefore?`: the outermost node in a row of slots;
* `Placed.Node.nextNode?`, `Placed.Node.previousNode?`: the nodes beside a node;
* `Placed.Element.next?`, `Placed.Element.previous?`: what is beside a part;
* `Placed.Cursor`, `Placed.Cursor.length`: the slots that are left, and their number;
* `Placed.Cursor.next`, `Placed.Cursor.nextBack`: what is in the outermost slot that is left;
* `Placed.Cursor.nextNode`, `Placed.Cursor.nextNodeBack`: the outermost node that is left;
* `Placed.Node.firstNode?`, `Placed.Node.lastNode?`: the outermost nodes in the slots of a node.
-/

namespace LosslessSyntax.Placed

/-! ## Neighbours -/

namespace Node

/-- The first node in `count` slots from `slot` on. -/
def firstNodeFrom? (node : Node) : Nat → Nat → Query (Option Node)
  | 0, _ => return none
  | count + 1, slot => do
    match ← node.nodeAt slot with
    | some found => return some found
    | none => firstNodeFrom? node count (slot + 1)

/-- The last node in the slots before `slot`. -/
def lastNodeBefore? (node : Node) : Nat → Query (Option Node)
  | 0 => return none
  | slot + 1 => do
    match ← node.nodeAt slot with
    | some found => return some found
    | none => lastNodeBefore? node slot

/-- The next node in the parent. -/
def nextNode? (node : Node) : Query (Option Node) :=
  match node.parent? with
  | none => return none
  | some parent => parent.firstNodeFrom? (parent.arity - (node.index + 1)) (node.index + 1)

/-- The previous node in the parent. -/
def previousNode? (node : Node) : Query (Option Node) :=
  match node.parent? with
  | none => return none
  | some parent => parent.lastNodeBefore? node.index

end Node

namespace Element

/-- What is in the next slot of the parent. -/
def next? (element : Element) : Query (Option Element) :=
  match element.parent? with
  | none => return none
  | some parent => parent.slot? (element.index + 1)

/-- What is in the previous slot of the parent. -/
def previous? (element : Element) : Query (Option Element) :=
  match element.parent?, element.index with
  | some parent, slot + 1 => parent.slot? slot
  | _, _ => return none

end Element

/-! ## Cursors -/

/-- The slots of a node from `front` up to `back` that were not given out yet. -/
structure Cursor where
  parent : Node
  front : Nat
  back : Nat

/-- A cursor over all slots of a node. -/
def Node.cursor (node : Node) : Cursor := ⟨node, 0, node.arity⟩

namespace Cursor

/-- The number of slots that are left. -/
def length (cursor : Cursor) : Nat := cursor.back - cursor.front

/-- The cursor that has nothing left. -/
def close (cursor : Cursor) : Cursor := { cursor with front := cursor.back }

/-- What is in the first slot that is left. -/
def next (cursor : Cursor) : Query (Option Element × Cursor) := do
  if cursor.front < cursor.back then
    let element ← cursor.parent.slotAt cursor.front
    return (some element, { cursor with front := cursor.front + 1 })
  else return (none, cursor)

/-- What is in the last slot that is left. -/
def nextBack (cursor : Cursor) : Query (Option Element × Cursor) := do
  if cursor.front < cursor.back then
    let element ← cursor.parent.slotAt (cursor.back - 1)
    return (some element, { cursor with back := cursor.back - 1 })
  else return (none, cursor)

/-- The first node that is left; the tokens before it are passed by. -/
def nextNode (cursor : Cursor) : Query (Option Node × Cursor) := do
  match ← cursor.parent.firstNodeFrom? cursor.length cursor.front with
  | some node => return (some node, { cursor with front := node.index + 1 })
  | none => return (none, cursor.close)

/-- Whether a slot holds a node. -/
def holdsNode (cursor : Cursor) (slot : Nat) : Bool :=
  (cursor.parent.green.slot? slot).any (·.isNode)

/-- The last slot with a node among the first `count` slots that are left. -/
def lastNodeSlot? (cursor : Cursor) : Nat → Option Nat
  | 0 => none
  | count + 1 =>
    if cursor.holdsNode (cursor.front + count) then some (cursor.front + count)
    else cursor.lastNodeSlot? count

/-- The last node that is left; the tokens after it are passed by. -/
def nextNodeBack (cursor : Cursor) : Query (Option Node × Cursor) := do
  match cursor.lastNodeSlot? cursor.length with
  | some slot => return (← cursor.parent.nodeAt slot, { cursor with back := slot })
  | none => return (none, { cursor with back := cursor.front })

end Cursor

namespace Node

/-- The first node in the slots of a node. -/
def firstNode? (node : Node) : Query (Option Node) := Prod.fst <$> node.cursor.nextNode

/-- The last node in the slots of a node. -/
def lastNode? (node : Node) : Query (Option Node) := Prod.fst <$> node.cursor.nextNodeBack

end Node

end LosslessSyntax.Placed
