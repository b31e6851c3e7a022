import LosslessSyntax.Placed.Memo

/-!
# Lists by their elements

A list view counts the elements of a list and passes its separators by. Element `i` stands in
slot `i`, or in slot `2 * i` if the list is separated; the separator after it is in the slot that
follows.

A part is printed as its kind and its span, a token with its text. The listing of a subtree has a
line for each part, in the order of the text, indented by depth; a list is marked with its shape.

* `Placed.ListView`, `Placed.Node.asList?`: the view of a node that is a list;
* `Placed.ListView.length`, `Placed.ListView.separatorCount`: how many elements and separators;
* `Placed.ListView.slotOf`, `Placed.ListView.elementOf?`: slots by elements and back;
* `Placed.ListView.element`, `Placed.ListView.get?`, `Placed.ListView.placed?`: the elements;
* `Placed.ListView.separator?`, `Placed.ListView.separators`: the separators;
* `Placed.ListView.Cursor`: elements one by one, from either end;
* `Placed.Node.label`, `Placed.Token.label`: a part as it is printed;
* `Placed.Node.treeLabel`, `Placed.ListView.label`: a whole tree and a list in short;
* `Placed.Node.listing`: a subtree.
-/

namespace LosslessSyntax.Placed

/-- A node that is a list, with its shape. -/
structure ListView where
  node : Node
  shape : Green.ListShape

/-- The view of a node that is a list. -/
def Node.asList? (node : Node) : Option ListView := node.green.listShape?.map (⟨node, ·⟩)

namespace ListView

/-- Slot numbers in computations are below this bound. -/
def slotBound : Nat := UInt64.size

/-- The number of elements. -/
def length (list : ListView) : Nat :=
  match list.shape with
  | .separated => (list.node.arity + 1) / 2
  | .empty | .single | .many => list.node.arity

/-- Whether the list has no slots. -/
def isEmpty (list : ListView) : Bool := list.shape == .empty

/-- The number of separators. -/
def separatorCount (list : ListView) : Nat := list.node.arity - list.length

/-- Whether the last slot holds a separator. -/
def endsInSeparator (list : ListView) : Bool :=
  list.shape == .separated && list.node.arity % 2 == 0

/-- Twice a number, if that is a slot number. -/
def twice (number : Nat) : Except Violation Nat :=
  if number * 2 < slotBound then .ok (number * 2) else .error .slotOverflow

/-- The slot of an element. -/
def slotOf (list : ListView) (element : Nat) : Except Violation Nat :=
  match list.shape with
  | .separated => twice element
  | .empty | .single | .many => .ok element

/-- The element of a slot; separators have none. -/
def elementOf? (list : ListView) (slot : Nat) : Option Nat :=
  match list.shape with
  | .separated => if slot % 2 == 0 then some (slot / 2) else none
  | .empty | .single | .many => some slot

/-- The node in the slot of an element. -/
def elementNode (list : ListView) (slot : Nat) : Query Node := do
  match ← list.node.slotAt slot with
  | .node node => return node
  | .token _ => throw .elementIsToken

/-- An element of the list. -/
def element (list : ListView) (index : Nat) : Query Node := do
  if index < list.length then list.elementNode (← list.slotOf index)
  else throw (.noSuchElement index list.length)

/-- An element of the list, if there is one of that number. -/
def get? (list : ListView) (index : Nat) : Query (Option Node) := do
  if index < list.length then return some (← list.elementNode (← list.slotOf index))
  else return none

/-- An element of the list, if there is one of that number and it was placed before. -/
def placed? (list : ListView) (index : Nat) : Query (Option Node) := do
  if index < list.length then list.node.placedAt? (← list.slotOf index)
  else return none

/-- The separator after an element. -/
def separator? (list : ListView) (index : Nat) : Query (Option Token) := do
  match list.shape with
  | .separated =>
    let slot := (← twice index) + 1
    return (← list.node.slot? slot).bind (·.token?)
  | .empty | .single | .many => return none

/-- All separators. -/
def separators (list : ListView) : Query (List Token) := do
  return (← (List.range list.separatorCount).mapM list.separator?).filterMap id

/-! ## Elements one by one -/

/-- The elements of a list from `front` up to `back` that were not given out yet. -/
structure Cursor where
  list : ListView
  front : Nat
  back : Nat

/-- A cursor over all elements. -/
def cursor (list : ListView) : Cursor := ⟨list, 0, list.length⟩

namespace Cursor

/-- The number of elements that are left. -/
def length (cursor : Cursor) : Nat := cursor.back - cursor.front

/-- The first element that is left. -/
def next (cursor : Cursor) : Query (Option Node × Cursor) := do
  if cursor.front == cursor.back then return (none, cursor)
  let node ← cursor.list.element cursor.front
  return (some node, { cursor with front := cursor.front + 1 })

/-- The last element that is left. -/
def nextBack (cursor : Cursor) : Query (Option Node × Cursor) := do
  if cursor.front == cursor.back then return (none, cursor)
  let node ← cursor.list.element (cursor.back - 1)
  return (some node, { cursor with back := cursor.back - 1 })

end Cursor

end ListView

/-! ## Listings -/

/-- A node is printed as its kind and its span. -/
def Node.label (node : Node) : Except Violation String := do
  let span ← node.span
  return s!"{node.kind.label}@{span.text}"

/-- A token is printed as its kind, its span and its text. -/
def Token.label (token : Token) : Except Violation String := do
  let span ← token.span
  return s!"{token.kind.label}@{span.text} {Text.quoted token.text}"

namespace Node

/-- A line of a listing. -/
def line (depth : Nat) (label : String) : String :=
  "".pushn ' ' (2 * depth) ++ label ++ "\n"

/-- The line of a node; a list is marked with its shape. -/
def headLine (depth : Nat) (node : Node) : Except Violation String := do
  let label ← node.label
  return line depth <| match node.green.listShape? with
    | some shape => s!"{label} {shape.label}"
    | none => label

/-- The listing of a node and all below it. -/
def listing (node : Node) : Query String := do
  node.foldBelow (fun depth before element => do
    match element with
    | .node below => return before ++ (← headLine depth below)
    | .token token => return before ++ line depth (← token.label)) 1 0 (← headLine 0 node)

end Node

/-- A tree is printed around its root. -/
def Node.treeLabel (root : Node) : Except Violation String := do
  let label ← root.label
  return s!"SyntaxTree \x7b root: {label}, .. \x7d"

/-- A list view is printed as its node, its shape and its length. -/
def ListView.label (list : ListView) : Except Violation String := do
  let node ← list.node.label
  return s!"SyntaxList \x7b node: {node}, shape: {list.shape.label}, len: {list.length} \x7d"

end LosslessSyntax.Placed
