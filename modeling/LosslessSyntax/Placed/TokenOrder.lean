import LosslessSyntax.Placed.Memo

/-!
# The order of tokens

The tokens of a tree stand one after the other in the text. From a token the next one is found by
going up until there is something further right, and down on its left edge; nodes without a token
are passed by.

* `Placed.Node.firstTokenFrom?`, `Placed.Node.lastTokenBefore?`: the outermost tokens in the slots
  on one side of a place;
* `Placed.Node.firstToken?`, `Placed.Node.lastToken?`: the outermost tokens below a node;
* `Placed.Token.next?`, `Placed.Token.previous?`: the tokens beside a token.
-/

namespace LosslessSyntax.Placed

namespace Node

/-- The first token in the slots of a node from `slot` on. -/
def firstTokenFrom? (node : Node) (slot : Nat) : Query (Option Token) :=
  match _found : node.green.slots[slot]? with
  | none => return none
  | some (.token green) => return some (← node.tokenAt slot green)
  | some (.node head slots) => do
    let below := (← node.placeNode slot ⟨head, slots⟩).withGreen ⟨head, slots⟩
    match ← firstTokenFrom? below 0 with
    | some token => return some token
    | none => firstTokenFrom? node (slot + 1)
termination_by (sizeOf node.green, node.arity - slot)
decreasing_by
  · exact .left _ _ (by rw [withGreen_green]; exact sizeOf_lt_of_slot (by assumption))
  · exact .right _ (Nat.sub_succ_lt_self _ _ (lt_arity_of_slot (by assumption)))

/-- The last token in the slots of a node before `slot`. -/
def lastTokenBefore? (node : Node) : Nat → Query (Option Token)
  | 0 => return none
  | slot + 1 =>
    match _found : node.green.slots[slot]? with
    | none => lastTokenBefore? node slot
    | some (.token green) => return some (← node.tokenAt slot green)
    | some (.node head slots) => do
      let below := (← node.placeNode slot ⟨head, slots⟩).withGreen ⟨head, slots⟩
      match ← lastTokenBefore? below slots.size with
      | some token => return some token
      | none => lastTokenBefore? node slot
termination_by slot => (sizeOf node.green, slot)
decreasing_by
  · exact .right _ (Nat.lt_succ_self _)
  · exact .left _ _ (by rw [withGreen_green]; exact sizeOf_lt_of_slot (by assumption))
  · exact .right _ (Nat.lt_succ_self _)

/-- The first token below a node. -/
def firstToken? (node : Node) : Query (Option Token) := node.firstTokenFrom? 0

/-- The last token below a node. -/
def lastToken? (node : Node) : Query (Option Token) := node.lastTokenBefore? node.arity

/-- The first token from a slot of a node on, in the node or further right. -/
def tokenFrom? : Node → Nat → Query (Option Token)
  | root tree start green, slot => (root tree start green).firstTokenFrom? slot
  | child parent index start address green, slot => do
    match ← (child parent index start address green).firstTokenFrom? slot with
    | some token => return some token
    | none => parent.tokenFrom? (index + 1)

/-- The last token before a slot of a node, in the node or further left. -/
def tokenBefore? : Node → Nat → Query (Option Token)
  | root tree start green, slot => (root tree start green).lastTokenBefore? slot
  | child parent index start address green, slot => do
    match ← (child parent index start address green).lastTokenBefore? slot with
    | some token => return some token
    | none => parent.tokenBefore? index

end Node

namespace Token

/-- The next token of the tree. -/
def next? (token : Token) : Query (Option Token) := token.parent.tokenFrom? (token.slot + 1)

/-- The previous token of the tree. -/
def previous? (token : Token) : Query (Option Token) := token.parent.tokenBefore? token.slot

end Token

end LosslessSyntax.Placed
