import LosslessSyntax.Placed.Memo
import LosslessSyntax.Green.Basic

/-!
# Parts by offset

An offset in the text is inside a token or between two of them, and a stretch of text lies within
a part of each level down to some depth. Both are found from the top by the widths of the slots,
and only what stands on the way is placed.

* `Placed.Touching`: the tokens that hold an offset or have it at an end, at most two;
* `Placed.Node.tokensAt`: these tokens of a node;
* `Placed.Node.covering`: the part that holds a stretch of text.
-/

namespace LosslessSyntax.Placed

/-- What touches an offset: nothing, one thing, or one that ends there and one that begins. -/
inductive Touching (α : Type) where
  | none
  | one (only : α)
  | two (left right : α)

namespace Touching

variable {α : Type}

/-- Of two things the left one. -/
def left? : Touching α → Option α
  | none => .none
  | one only => some only
  | two left _ => some left

/-- Of two things the right one. -/
def right? : Touching α → Option α
  | none => .none
  | one only => some only
  | two _ right => some right

/-- The number of things. -/
def count : Touching α → Nat
  | none => 0
  | one _ => 1
  | two _ _ => 2

/-- The first thing, and what is left after it. -/
def next : Touching α → Option α × Touching α
  | none => (.none, none)
  | one only => (some only, none)
  | two left right => (some left, one right)

/-- The things from left to right. -/
def toList : Touching α → List α
  | none => []
  | one only => [only]
  | two left right => [left, right]

/-- What touches an offset when one slot ends there and the next one begins. -/
def join (before after : Touching α) : Touching α :=
  match before.left?, after.right? with
  | some left, some right => two left right
  | some only, .none => one only
  | .none, some only => one only
  | .none, .none => none

end Touching

namespace Node

/-- The tokens below a node that hold an offset or have it at an end; tokens without text are none
of them. -/
def tokensAt (node : Node) (offset : Nat) : Query (Touching Token) := do
  let span ← node.span
  if span.isEmpty || !span.touches offset then return .none
  let inSlot (slot : Nat) : Query (Touching Token) :=
    match _h : node.green.slots[slot]? with
    | some (.token green) => return .one (← node.tokenAt slot green)
    | some (.node head slots) => do
      ((← node.placeNode slot ⟨head, slots⟩).withGreen ⟨head, slots⟩).tokensAt offset
    | none => throw (node.green.noSlot slot)
  match node.green.slotsTouching (offset - span.start) with
  | [] => return .none
  | [slot] => inSlot slot
  | slot :: next :: _ => do
    let before ← inSlot slot
    let after ← inSlot next
    return before.join after
termination_by sizeOf node.green
decreasing_by
  rw [withGreen_green]
  exact sizeOf_lt_of_slot (by assumption)

/-- The part below a node, or the node itself, that holds the text from `first` to `last`; the
search goes down as long as one slot holds it. -/
def coveringFrom (node : Node) (first last : Nat) : Query Element := do
  match node.green.slotCovering? (first - node.start) (last - node.start) with
  | none => return .node node
  | some slot =>
    match _h : node.green.slots[slot]? with
    | some (.token green) => return .token (← node.tokenAt slot green)
    | some (.node head slots) => do
      ((← node.placeNode slot ⟨head, slots⟩).withGreen ⟨head, slots⟩).coveringFrom first last
    | none => throw (node.green.noSlot slot)
termination_by sizeOf node.green
decreasing_by
  rw [withGreen_green]
  exact sizeOf_lt_of_slot (by assumption)

/-- The part that holds a stretch of the text of a node. -/
def covering (node : Node) (span : Span) : Query Element := do
  let whole ← node.span
  if whole.covers span then node.coveringFrom span.start span.stop
  else throw (.spanOutsideNode span node.kind whole)

end Node

end LosslessSyntax.Placed
