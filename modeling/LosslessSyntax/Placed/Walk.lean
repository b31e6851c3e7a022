import LosslessSyntax.Placed.Cursor

/-!
# Walks

A walk goes through a subtree in the order of the text. It enters a node, passes what is in its
slots, and leaves it; a token is met once. After a node was entered the rest of it may be skipped,
and leaving it comes next.

* `Placed.Walk`, `Placed.Walk.Event`: a walk, and what it meets;
* `Placed.Walk.next`, `Placed.Walk.nextOfNode`: the next event, and the next one that is no token;
* `Placed.Walk.skip`: passes by what is left of the innermost node;
* `Placed.Node.descendants`: the nodes that a walk enters.
-/

namespace LosslessSyntax.Placed

/-- A walk that enters `start` first, if it is there yet, and has the nodes of `inside` to leave,
the innermost first, each with the slots that are left of it. -/
structure Walk where
  start : Option Node
  inside : List (Node × Cursor)

/-- What a walk meets. -/
inductive Walk.Event where
  | enter (node : Node)
  | leave (node : Node)
  | token (token : Token)

/-- A walk through a node and all below it. -/
def Node.walk (node : Node) : Walk := ⟨some node, []⟩

namespace Walk

/-- The next event. -/
def next (walk : Walk) : Query (Option Event × Walk) := do
  match walk.inside with
  | [] =>
    match walk.start with
    | none => return (none, walk)
    | some node => return (some (.enter node), ⟨none, [(node, node.cursor)]⟩)
  | (node, cursor) :: outer =>
    match ← cursor.next with
    | (some (.node child), cursor) =>
      return (some (.enter child),
        { walk with inside := (child, child.cursor) :: (node, cursor) :: outer })
    | (some (.token token), cursor) =>
      return (some (.token token), { walk with inside := (node, cursor) :: outer })
    | (none, _) => return (some (.leave node), { walk with inside := outer })

/-- Skips what is left of the innermost node. -/
def skip (walk : Walk) : Except Violation Walk :=
  match walk.inside with
  | [] => .error .nothingToSkip
  | (node, cursor) :: outer => .ok { walk with inside := (node, cursor.close) :: outer }

/-! ## Walks over nodes -/

/-- The number of slots that are left of the innermost node. -/
def slotsLeft (walk : Walk) : Nat :=
  match walk.inside with
  | [] => 0
  | (_, cursor) :: _ => cursor.length

/-- The next event that is no token, at most `tokens` tokens further on. -/
def passTokens : Nat → Walk → Query (Option Event × Walk)
  | 0, walk => walk.next
  | tokens + 1, walk => do
    match ← walk.next with
    | (some (.token _), walk) => passTokens tokens walk
    | result => return result

/-- The next event that is no token. -/
def nextOfNode (walk : Walk) : Query (Option Event × Walk) := passTokens walk.slotsLeft walk

/-- The node that an event enters. -/
def Event.entered? : Event → Option Node
  | .enter node => some node
  | _ => none

end Walk

/-- The node itself and all nodes below it, each one before what is in its slots. -/
def Node.descendants (node : Node) : Query (List Node) := do
  let found ← node.foldBelow (fun _ found element =>
    match element with
    | .node below => return below :: found
    | .token _ => return found) 1 0 [node]
  return found.reverse

end LosslessSyntax.Placed
