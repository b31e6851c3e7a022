import LosslessSyntax.Interner

/-!
# Building a tree from events

A builder takes the events of a parser: a node or a list is opened, tokens and finished subtrees
follow, and it is closed. All children that belong to no closed node yet stand in one row; an open
entry knows where in the row its own children begin. A mark is a place in the row, and a node
may be opened there later, around children that came before it was known to be needed.

* `Builder`, `Builder.Entry`, `Builder.Build`: the row, the open entries, and builder events;
* `Builder.mark`: the place at the end of the row;
* `Builder.openNode`, `Builder.openList`, `Builder.openNodeAt`: events that open an entry;
* `Builder.token`, `Builder.triviaToken`, `Builder.subtree`: events that add a child;
* `Builder.closeNode`, `Builder.closeList`: events that close the innermost entry;
* `Builder.finish`, `Builder.discard`: the two ways to end.
-/

namespace LosslessSyntax

open Green

namespace Builder

/-- Whether an open entry will be a node with a fixed layout or a list. -/
inductive Layout where
  | node
  | list
  deriving DecidableEq

/-- An entry that was opened and is not closed yet; its children are those of the row from `first`
on that belong to no entry inside it. -/
structure Entry where
  layout : Layout
  kind : Kind
  first : Nat
  deriving DecidableEq

end Builder

/-- What was built so far: the open entries, the innermost first, and the row of children. -/
structure Builder where
  supply : Nat
  interner : Interner
  opened : List Builder.Entry
  children : Array Element

namespace Builder

/-- Builder events. A failing event leaves the builder in the state that it had reached. -/
abbrev Build := EStateM Failure Builder

/-- A builder for a new tree; `supply` is the next free identity. -/
def start (supply : Nat) (interner : Interner) : Builder := ⟨supply, interner, [], #[]⟩

/-- The place at the end of the row, as a mark. -/
def mark (builder : Builder) : Nat := builder.children.size

/-- A mark is printed as its place in the row. -/
def markLabel (builder : Builder) : String := s!"Checkpoint({builder.mark})"

/-! ## The row and the open entries -/

/-- Asks the interner. -/
def intern {α : Type} (request : Interner → Make (α × Interner)) : Build α := fun builder =>
  match request builder.interner builder.supply with
  | .ok (made, interner) supply => .ok made { builder with interner, supply }
  | .error failure supply => .error failure { builder with supply }

/-- Adds a child at the end of the row. -/
def push (child : Element) : Build Unit :=
  modify fun builder => { builder with children := builder.children.push child }

/-- Takes the children from a place on off the row. -/
def cutOff (first : Nat) : Build (Array Element) :=
  modifyGet fun builder =>
    (builder.children.extract first builder.children.size,
      { builder with children := builder.children.take first })

/-- Adds an open entry. -/
def enter (entry : Entry) : Build Unit :=
  modify fun builder => { builder with opened := entry :: builder.opened }

/-- Takes the innermost entry off. -/
def leave : Build Entry := do
  match (← get).opened with
  | [] => throw (.violated .nothingOpen)
  | entry :: opened =>
    modify fun builder => { builder with opened }
    return entry

/-- Forgets all children and all open entries. -/
def forget : Build Unit := modify fun builder => { builder with opened := [], children := #[] }

/-- Puts a node in the place of the children of an entry. -/
def wrap (entry : Entry) (shape : Shape) : Build Unit := do
  let slots ← cutOff entry.first
  let node ← intern (·.node entry.kind shape slots)
  push node.toElement

/-! ## Events -/

/-- Opens a node. -/
def openNode (kind : Kind) : Build Unit := do
  enter ⟨.node, kind, (← get).mark⟩

/-- Opens a list; its children are elements and, if it is separated, the separators. -/
def openList (kind : Kind) : Build Unit := do
  enter ⟨.list, kind, (← get).mark⟩

/-- Opens a node at a mark, within the innermost open entry; the children after the mark are its
first ones. -/
def openNodeAt (mark : Nat) (kind : Kind) : Build Unit := do
  let builder ← get
  if builder.mark < mark then throw (.violated .markBeyondChildren)
  if builder.opened.head?.any (mark < ·.first) then throw (.violated .markBeforeEntry)
  enter ⟨.node, kind, mark⟩

/-- Closes the innermost entry, which has to be a node. If its kind is one of lists, the builder
forgets all. -/
def closeNode : Build Unit := do
  let entry ← leave
  match entry.layout with
  | .list => throw (.violated .listIsOpen)
  | .node =>
    if entry.kind.isList then
      forget
      throw (.rejected (.listKind entry.kind))
    wrap entry .plain

/-- Closes the innermost entry, which has to be a list. If its children make no list, the builder
forgets all. -/
def closeList : Build Unit := do
  let entry ← leave
  match entry.layout with
  | .node => throw (.violated .nodeIsOpen)
  | .list =>
    let children := (← get).children
    match listShapeOf entry.kind (children.extract entry.first children.size) with
    | .error error =>
      forget
      throw (.rejected error)
    | .ok shape => wrap entry (.list shape)

/-- Adds a token with trivia; `text` is the text of the trivia, too. -/
def triviaToken (leading : List Trivia.Piece) (kind : Kind) (text : String)
    (trailing : List Trivia.Piece) : Build Unit := do
  let token ← intern fun interner => do
    let before ← Trivia.ofPieces leading
    let after ← Trivia.ofPieces trailing
    interner.token before kind text after
  push (.token token)

/-- Adds a token without trivia. -/
def token (kind : Kind) (text : String) : Build Unit := triviaToken [] kind text []

/-- Adds a finished subtree. -/
def subtree (node : Node) : Build Unit := push node.toElement

/-- The root, if it is the only child and nothing is open. -/
def finish : Build Node := do
  let builder ← get
  if !builder.opened.isEmpty then
    forget
    throw (.rejected (.leftOpen builder.opened.length))
  match builder.children.toList with
  | [.node head slots] => return ⟨head, slots⟩
  | children => throw (.rejected (.notOneRoot children.length))

/-- Gives up a builder, in which nothing may be open. -/
def discard : Build Unit := do
  if !(← get).opened.isEmpty then throw (.violated .builderNotFinished)

end Builder

end LosslessSyntax
