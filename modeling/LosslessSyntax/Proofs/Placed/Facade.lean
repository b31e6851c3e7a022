import LosslessSyntax.Placed.ListView
import LosslessSyntax.Placed.Offset
import LosslessSyntax.Placed.TokenOrder
import LosslessSyntax.Placed.Walk

/-!
# A caller and a tree

A caller starts with the root of a tree and holds every handle that it was given: parts, lists,
cursors and walks. It may ask any of them anything, in any order. Handles stay as they are when they
are asked; a cursor that has moved on is a new one.

* `Placed.Handle`: what a caller can hold;
* `Placed.HandleKind.Question`: what it can ask of it, and `Placed.HandleKind.ask` the asking;
* `Placed.Call`: a question to one of the handles, or a comparison of two;
* `Placed.Facade.run`: the replies to a series of calls.
-/

namespace LosslessSyntax.Placed

/-- The kinds of handles. -/
inductive HandleKind where
  | node
  | token
  | list
  | slots
  | nodes
  | elements
  | walk
  deriving DecidableEq

/-- What a handle is. -/
def HandleKind.Held : HandleKind → Type
  | node => Node
  | token => Token
  | list => ListView
  | slots => Cursor
  | nodes => Cursor
  | elements => ListView.Cursor
  | walk => Walk

/-- A handle. -/
structure Handle where
  kind : HandleKind
  held : kind.Held

/-- The handle of a part. -/
def Handle.part : Element → Handle
  | .node n => ⟨.node, n⟩
  | .token t => ⟨.token, t⟩

/-- A piece of an answer. -/
inductive Datum (H : Type) where
  | handle (handle : H)
  | kind (kind : Kind)
  | text (text : String)
  | number (number : Nat)
  | flag (flag : Bool)
  | span (span : Span)
  | green (green : Green.Element)
  | shape (shape : Green.ListShape)
  | note (note : Green.Annotation)

/-- The handles in an answer. -/
def handlesOf {H : Type} (data : List (Datum H)) : List H :=
  data.filterMap fun
    | .handle handle => some handle
    | _ => none

/-- The answer that is a row of parts. -/
def dataOf (row : List Element) : List (Datum Handle) := row.map fun part => .handle (.part part)

/-! ## Questions -/

/-- What can be asked of a node. -/
inductive NodeQuestion where
  | kind
  | text
  | width
  | start
  | stop
  | span
  | index
  | arity
  | green
  | annotations
  | parent
  | ancestors
  | slotAt (slot : Nat)
  | getSlot (slot : Nat)
  | cursor
  | nodeCursor
  | firstNode
  | lastNode
  | nextNode
  | previousNode
  | next
  | previous
  | firstToken
  | lastToken
  | descendants
  | walk
  | tokensAt (offset : Nat)
  | covering (span : Span)
  | asList

/-- What can be asked of a token. -/
inductive TokenQuestion where
  | kind
  | text
  | start
  | stop
  | span
  | trimmedSpan
  | index
  | green
  | parent
  | ancestors
  | next
  | previous
  | nextToken
  | previousToken

/-- What can be asked of a list. -/
inductive ListQuestion where
  | node
  | shape
  | length
  | isEmpty
  | separatorCount
  | endsInSeparator
  | slotOf (index : Nat)
  | elementOf (slot : Nat)
  | element (index : Nat)
  | get (index : Nat)
  | separator (index : Nat)
  | separators
  | cursor

/-- What can be asked of a row that knows its length. -/
inductive RowQuestion where
  | length
  | next
  | nextBack

/-- What can be asked of a row of nodes. -/
inductive NodesQuestion where
  | next
  | nextBack

/-- What can be asked of a walk. -/
inductive WalkQuestion where
  | next
  | nextOfNode
  | skip

/-- The questions to a handle. -/
def HandleKind.Question : HandleKind → Type
  | node => NodeQuestion
  | token => TokenQuestion
  | list => ListQuestion
  | slots => RowQuestion
  | nodes => NodesQuestion
  | elements => RowQuestion
  | walk => WalkQuestion

/-- Asks a node. -/
def NodeQuestion.ask (node : Node) : NodeQuestion → Query (List (Datum Handle))
  | kind => return [.kind node.kind]
  | text => return [.text node.display]
  | width => return [.number node.width]
  | start => return [.number node.start]
  | stop => return [.number (← node.stop)]
  | span => return [.span (← node.span)]
  | index => return [.number node.index]
  | arity => return [.number node.arity]
  | green => return [.green node.green.toElement]
  | annotations => return (← node.annotations).map .note
  | parent => return dataOf (node.parent?.toList.map .node)
  | ancestors => return dataOf (node.ancestors.map .node)
  | slotAt slot => return dataOf [← node.slotAt slot]
  | getSlot slot => return dataOf (← node.slot? slot).toList
  | cursor => return [.handle ⟨.slots, node.cursor⟩]
  | nodeCursor => return [.handle ⟨.nodes, node.cursor⟩]
  | firstNode => return dataOf ((← node.firstNode?).toList.map .node)
  | lastNode => return dataOf ((← node.lastNode?).toList.map .node)
  | nextNode => return dataOf ((← node.nextNode?).toList.map .node)
  | previousNode => return dataOf ((← node.previousNode?).toList.map .node)
  | next => return dataOf (← (Element.node node).next?).toList
  | previous => return dataOf (← (Element.node node).previous?).toList
  | firstToken => return dataOf ((← node.firstToken?).toList.map .token)
  | lastToken => return dataOf ((← node.lastToken?).toList.map .token)
  | descendants => return dataOf ((← node.descendants).map .node)
  | walk => return [.handle ⟨.walk, node.walk⟩]
  | tokensAt offset => return dataOf ((← node.tokensAt offset).toList.map .token)
  | covering stretch => return dataOf [← node.covering stretch]
  | asList => return node.asList?.toList.map fun list => .handle ⟨.list, list⟩

/-- Asks a token. -/
def TokenQuestion.ask (token : Token) : TokenQuestion → Query (List (Datum Handle))
  | kind => return [.kind token.kind]
  | text => return [.text token.text]
  | start => return [.number token.start]
  | stop => return [.number (← token.stop)]
  | span => return [.span (← token.span)]
  | trimmedSpan => return [.span (← token.trimmedSpan)]
  | index => return [.number token.slot]
  | green => return [.green (.token token.green)]
  | parent => return dataOf [.node token.parent]
  | ancestors => return dataOf (token.parent.ancestors.map .node)
  | next => return dataOf (← (Element.token token).next?).toList
  | previous => return dataOf (← (Element.token token).previous?).toList
  | nextToken => return dataOf ((← token.next?).toList.map .token)
  | previousToken => return dataOf ((← token.previous?).toList.map .token)

/-- Asks a list. -/
def ListQuestion.ask (list : ListView) : ListQuestion → Query (List (Datum Handle))
  | node => return dataOf [.node list.node]
  | shape => return [.shape list.shape]
  | length => return [.number list.length]
  | isEmpty => return [.flag list.isEmpty]
  | separatorCount => return [.number list.separatorCount]
  | endsInSeparator => return [.flag list.endsInSeparator]
  | slotOf index => return [.number (← list.slotOf index)]
  | elementOf slot => return (list.elementOf? slot).toList.map .number
  | element index => return dataOf [.node (← list.element index)]
  | get index => return dataOf ((← list.get? index).toList.map .node)
  | separator index => return dataOf ((← list.separator? index).toList.map .token)
  | separators => return dataOf ((← list.separators).map .token)
  | cursor => return [.handle ⟨.elements, list.cursor⟩]

/-- Asks a cursor over slots. -/
def Cursor.ask (cursor : Cursor) : RowQuestion → Query (List (Datum Handle))
  | .length => return [.number cursor.length]
  | .next => do
    let (element, rest) ← cursor.next
    return dataOf element.toList ++ [.handle ⟨.slots, rest⟩]
  | .nextBack => do
    let (element, rest) ← cursor.nextBack
    return dataOf element.toList ++ [.handle ⟨.slots, rest⟩]

/-- Asks a cursor over nodes. -/
def Cursor.askNodes (cursor : Cursor) : NodesQuestion → Query (List (Datum Handle))
  | .next => do
    let (node, rest) ← cursor.nextNode
    return dataOf (node.toList.map .node) ++ [.handle ⟨.nodes, rest⟩]
  | .nextBack => do
    let (node, rest) ← cursor.nextNodeBack
    return dataOf (node.toList.map .node) ++ [.handle ⟨.nodes, rest⟩]

/-- Asks a cursor over the elements of a list. -/
def ListView.Cursor.ask (cursor : ListView.Cursor) : RowQuestion → Query (List (Datum Handle))
  | .length => return [.number cursor.length]
  | .next => do
    let (node, rest) ← cursor.next
    return dataOf (node.toList.map .node) ++ [.handle ⟨.elements, rest⟩]
  | .nextBack => do
    let (node, rest) ← cursor.nextBack
    return dataOf (node.toList.map .node) ++ [.handle ⟨.elements, rest⟩]

/-- An event of a walk: a token, or a node and whether it is entered. -/
def Walk.Event.data : Walk.Event → List (Datum Handle)
  | .enter n => .flag true :: dataOf [.node n]
  | .leave n => .flag false :: dataOf [.node n]
  | .token t => dataOf [.token t]

/-- Asks a walk. -/
def Walk.ask (walk : Walk) : WalkQuestion → Query (List (Datum Handle))
  | .next => do
    let (event, rest) ← walk.next
    return (event.map Event.data).getD [] ++ [.handle ⟨.walk, rest⟩]
  | .nextOfNode => do
    let (event, rest) ← walk.nextOfNode
    return (event.map Event.data).getD [] ++ [.handle ⟨.walk, rest⟩]
  | .skip => return [.handle ⟨.walk, ← walk.skip⟩]

/-- Asks a handle. -/
def HandleKind.ask : (kind : HandleKind) → kind.Held → kind.Question → Query (List (Datum Handle))
  | node => NodeQuestion.ask
  | token => TokenQuestion.ask
  | list => ListQuestion.ask
  | slots => Cursor.ask
  | nodes => Cursor.askNodes
  | elements => ListView.Cursor.ask
  | walk => Walk.ask

/-! ## Calls -/

/-- A question to a handle, by its number; a comparison of two handles; or a look at what was placed
before in a slot of a node or for an element of a list. -/
inductive Call where
  | ask (handle : Nat) (kind : HandleKind) (question : kind.Question)
  | same (a b : Nat)
  | placedAt (handle slot : Nat)
  | placedElement (handle index : Nat)

/-- Whether two handles are of the same part; only parts are compared. -/
def Handle.same? : Handle → Handle → Option Bool
  | ⟨.node, a⟩, ⟨.node, b⟩ => some (Node.same a b)
  | ⟨.token, a⟩, ⟨.token, b⟩ => some (Token.same a b)
  | ⟨.node, _⟩, ⟨.token, _⟩ => some false
  | ⟨.token, _⟩, ⟨.node, _⟩ => some false
  | _, _ => none

/-- Makes a call. A call that no handle fits has no answer. -/
def Call.make (handles : List Handle) : Call → Query (List (Datum Handle))
  | ask handle kind question =>
    match handles[handle]? with
    | none => return []
    | some ⟨actual, held⟩ =>
      if fitting : kind = actual then actual.ask held (fitting ▸ question) else return []
  | same a b => return ((handles[a]?.bind fun x => handles[b]?.bind x.same?).toList.map .flag)
  | placedAt handle slot =>
    match handles[handle]? with
    | some ⟨.node, node⟩ => return dataOf ((← Node.placedAt? node slot).toList.map .node)
    | _ => return []
  | placedElement handle index =>
    match handles[handle]? with
    | some ⟨.list, list⟩ => return dataOf ((← ListView.placed? list index).toList.map .node)
    | _ => return []

/-- What a caller got to: what was placed, and the handles that it holds. -/
structure Facade where
  memo : Memo
  handles : List Handle

namespace Facade

/-- A caller that was given the root of a tree of its own. -/
def start (root : Node) : Facade := ⟨∅, [⟨.node, root⟩]⟩

/-- The reply to a call, and what the caller has then. -/
def step (facade : Facade) (call : Call) : Except Violation (List (Datum Handle)) × Facade :=
  match call.make facade.handles facade.memo with
  | .ok data memo => (.ok data, ⟨memo, facade.handles ++ handlesOf data⟩)
  | .error violation memo => (.error violation, { facade with memo })

/-- The replies to a series of calls. -/
def run (facade : Facade) : List Call → List (Except Violation (List (Datum Handle)))
  | [] => []
  | call :: calls => (facade.step call).1 :: (facade.step call).2.run calls

/-- What a caller has after a series of calls. -/
def after (facade : Facade) : List Call → Facade
  | [] => facade
  | call :: calls => (facade.step call).2.after calls

end Facade

end LosslessSyntax.Placed
