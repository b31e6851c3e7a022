import LosslessSyntax.Placed.Basic
import Std.Data.HashMap

/-!
# Placing on demand

Children are placed only when they are asked for. A memo holds the nodes that were placed so far,
each in its slot; the node in a slot that is filled is given out as it was made, and a slot that is
not is filled with a new node. How many nodes were made for each slot is kept as well, so that each of
them has its own address. Tokens are not kept, they are placed anew each time.

* `Placed.Memo`, `Placed.Memo.keep`: the nodes in their slots, and one more of them;
* `Placed.Query`: queries that may add to the memo;
* `Placed.Rooms`: how many children of a node a memo has room for;
* `Placed.Node.placeNode`: the node in a slot that holds a green node;
* `Placed.Node.slotAt`, `Placed.Node.slot?`: what is in a slot;
* `Placed.Node.nodeAt`: the node in a slot;
* `Placed.Node.placedAt?`: the node in a slot if it was placed before;
* `Placed.Node.foldBelow`: something is done with every part below a node, in the order of the text.
-/

namespace LosslessSyntax.Placed

/-- The nodes below the roots that were placed so far. -/
structure Memo where
  /-- The node in each slot that is filled. -/
  kept : Std.HashMap Address Node
  /-- How many nodes were made for each slot. -/
  made : Std.HashMap Address Nat

namespace Memo

/-- Nothing is placed yet. -/
def empty : Memo := ⟨∅, ∅⟩

instance : EmptyCollection Memo := ⟨empty⟩

instance : Membership Address Memo := ⟨fun memo slot => slot ∈ memo.kept⟩

instance (slot : Address) (memo : Memo) : Decidable (slot ∈ memo) :=
  inferInstanceAs (Decidable (slot ∈ memo.kept))

instance : GetElem? Memo Address Node fun memo slot => slot ∈ memo where
  getElem memo slot filled := memo.kept.get slot filled
  getElem? memo slot := memo.kept[slot]?

/-- How many nodes were made for a slot. -/
def turn (memo : Memo) (slot : Address) : Nat := memo.made[slot]?.getD 0

/-- The memo after a node was made for a slot, which it fills. -/
def keep : Memo → Address → Node → Memo
  | ⟨kept, made⟩, slot, node => ⟨kept.insert slot node, made.insert slot (made[slot]?.getD 0 + 1)⟩

end Memo

/-- Questions about placed parts. A failing query keeps what it placed before it failed. -/
abbrev Query := EStateM Violation Memo

namespace Query

instance : MonadLift (Except Violation) Query where
  monadLift
    | .ok value => pure value
    | .error violation => throw violation

end Query

/-- The largest slot number that a placed part can keep. -/
def maxSlot : Nat := UInt32.size - 1

/-- Refuses slot numbers that a placed part cannot keep. -/
def checkSlot (slot : Nat) : Except Violation Unit :=
  if slot ≤ maxSlot then .ok () else .error .slotTooLarge

/-! ## Rooms -/

/-- The room for the children of a node: nothing, a single place, or a row of them. -/
inductive Rooms where
  | none
  | one
  | row (length : Nat)
  deriving DecidableEq

namespace Rooms

/-- The number of places. -/
def size : Rooms → Nat
  | none => 0
  | one => 1
  | row length => length

/-- The room for the children of a green node: that of a list goes by its shape alone. -/
def ofGreen (green : Green.Node) : Rooms :=
  match green.listShape? with
  | some .empty => none
  | some .single => one
  | some .many => row green.arity
  | some .separated => row green.arity
  | Option.none =>
    match green.arity with
    | 0 => none
    | 1 => one
    | count => row count

end Rooms

namespace Node

/-- Refuses slots that the memo has no room for. -/
def checkRoom (node : Node) (slot : Nat) : Except Violation Unit :=
  let rooms := Rooms.ofGreen node.green
  if slot < rooms.size then .ok () else .error (.noSuchRoom slot rooms.size)

/-! ## Placing children -/

/-- The node in a slot, as the memo keeps it; if it keeps none, a node is made over the green node
`green`, which the slot holds, and kept. -/
def placeNode (node : Node) (slot : Nat) (green : Green.Node) : Query Node := do
  node.checkRoom slot
  let filled := node.address.child slot
  match (← get)[filled]? with
  | some kept => return kept
  | none =>
    let start ← addSize node.start (← node.green.offsetAt slot)
    checkSlot slot
    let turn := (← get).turn filled
    let made := child node slot start (node.address.childAt slot turn) green
    modify (·.keep filled made)
    return made

/-- A token of the green node at its place. -/
def tokenAt (node : Node) (slot : Nat) (green : Green.Token) : Except Violation Token := do
  let start ← addSize node.start (← node.green.offsetAt slot)
  checkSlot slot
  return ⟨node, slot, start, green⟩

/-- What is in a slot. -/
def slotAt (node : Node) (slot : Nat) : Query Element := do
  match ← node.green.slotAt slot with
  | .token green => return .token (← node.tokenAt slot green)
  | .node head slots => return .node (← node.placeNode slot ⟨head, slots⟩)

/-- What is in a slot, if there is one of that number. -/
def slot? (node : Node) (slot : Nat) : Query (Option Element) :=
  if slot < node.arity then some <$> node.slotAt slot else return none

/-- The node in a slot; a token is not placed. -/
def nodeAt (node : Node) (slot : Nat) : Query (Option Node) := do
  match ← node.green.slotAt slot with
  | .token _ => return none
  | .node head slots => return some (← node.placeNode slot ⟨head, slots⟩)

/-- The node in a slot if it was placed before; nothing is ever placed in the slot of a token. -/
def placedAt? (node : Node) (slot : Nat) : Query (Option Node) := do
  let _ ← node.green.slotAt slot
  node.checkRoom slot
  return (← get)[node.address.child slot]?

/-! ## Going down -/

theorem sizeOf_lt_of_slot {node : Green.Node} {slot : Nat} {head : Green.Head}
    {slots : Array Green.Element} (h : node.slots[slot]? = some (.node head slots)) :
    sizeOf (⟨head, slots⟩ : Green.Node) < sizeOf node := by
  have hlt := Array.sizeOf_lt_of_mem (Array.mem_of_getElem? h)
  cases node
  simp only [Green.Node.mk.sizeOf_spec, Green.Element.node.sizeOf_spec] at hlt ⊢
  omega

theorem lt_arity_of_slot {node : Green.Node} {slot : Nat} {element : Green.Element}
    (h : node.slots[slot]? = some element) : slot < node.arity :=
  (Array.getElem?_eq_some_iff.1 h).1

/-- Does `step` with everything in the slots of a node from `slot` on and below it, each node before
what is in its slots; `step` is told how deep a part stands. -/
def foldBelow {σ : Type} (step : Nat → σ → Element → Query σ) (depth : Nat) (node : Node)
    (slot : Nat) (state : σ) : Query σ :=
  match _found : node.green.slots[slot]? with
  | none => return state
  | some (.token green) => do
    let state ← step depth state (.token (← node.tokenAt slot green))
    foldBelow step depth node (slot + 1) state
  | some (.node head slots) => do
    let below := (← node.placeNode slot ⟨head, slots⟩).withGreen ⟨head, slots⟩
    let state ← step depth state (.node below)
    let state ← foldBelow step (depth + 1) below 0 state
    foldBelow step depth node (slot + 1) state
termination_by (sizeOf node.green, node.arity - slot)
decreasing_by
  · exact .right _ (Nat.sub_succ_lt_self _ _ (lt_arity_of_slot (by assumption)))
  · exact .left _ _ (by rw [withGreen_green]; exact sizeOf_lt_of_slot (by assumption))
  · exact .right _ (Nat.sub_succ_lt_self _ _ (lt_arity_of_slot (by assumption)))

end Node

end LosslessSyntax.Placed
