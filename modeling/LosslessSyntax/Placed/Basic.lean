import LosslessSyntax.Green.Make
import LosslessSyntax.Green.Pending

/-!
# Placed parts

A placed part is a part of a green tree at one place in the text of one tree: it knows the node
above it, its slot there and its offset. A part that stands in many places of a green tree has a
placed part for each of them. Nodes are the same if they were made as one; tokens are the same in
one slot of the same node.

A node is given its address when it is made, and no other node is ever given the same one: it is the
tree and the slots on the way from the node up to the root, and for each of these slots how many
nodes had been made for it before. A slot goes by the address of the first node that is made for
it. An address carries a number that sums it up, so that it can be looked up in one step however
deep the node stands. The addresses of the nodes in the slots of one node share the way up from
there, and what is shared is the same without a look at it.

A part is replaced by making the nodes above it anew, up to the root. The result is a green tree;
whatever is not on the way from the part to the root is shared with the old one.

* `Placed.Address`: which node of which tree;
* `Placed.Address.root`, `Placed.Address.child`: the address of a root, and of the first node in a
  slot;
* `Placed.Address.childAt`: the address of any node that is made for a slot;
* `Placed.Node`, `Placed.Token`, `Placed.Element`: the placed parts;
* `Placed.Node.address`, `Placed.Node.same`, `Placed.Token.same`: identity;
* `Placed.Node.parent?`, `Placed.Node.ancestors`: the way up;
* `Placed.Node.span`, `Placed.Token.span`: the stretch of text that a part covers;
* `Placed.Node.replace`, `Placed.Token.replace`: the root with another part in the place of one.
-/

namespace LosslessSyntax.Placed

/-! ## Addresses -/

/-- The number that sums up a way through a tree. -/
def pathCode (tree : Nat) : List Nat → UInt64
  | [] => hash tree
  | slot :: path => mixHash (pathCode tree path) (hash slot)

/-- Which node it is: its tree, the slots from the node up to the root, and its turn in each of them,
which counts the nodes that were made for the slot before. -/
structure Address where
  tree : Nat
  path : List Nat
  turns : List Nat
  code : UInt64
  code_eq : code = pathCode tree path

/-- Whether two rows are one. -/
def decidePath : (a b : List Nat) → Decidable (a = b)
  | [], [] => isTrue rfl
  | [], _ :: _ => isFalse (by simp)
  | _ :: _, [] => isFalse (by simp)
  | x :: a, y :: b =>
    if head : x = y then
      match withPtrEqDecEq a b fun _ => decidePath a b with
      | isTrue tail => isTrue (by rw [head, tail])
      | isFalse tail => isFalse fun h => tail (List.cons.inj h).2
    else isFalse fun h => head (List.cons.inj h).1

namespace Address

theorem eq_of_parts {a b : Address} (tree : a.tree = b.tree) (path : a.path = b.path)
    (turns : a.turns = b.turns) : a = b := by
  obtain ⟨_, _, _, _, ha⟩ := a
  obtain ⟨_, _, _, _, hb⟩ := b
  subst tree path turns ha hb
  rfl

instance : DecidableEq Address := fun a b =>
  if code : a.code = b.code then
    if tree : a.tree = b.tree then
      match decidePath a.path b.path, decidePath a.turns b.turns with
      | isTrue path, isTrue turns => isTrue (eq_of_parts tree path turns)
      | isFalse path, _ => isFalse fun h => path (congrArg Address.path h)
      | _, isFalse turns => isFalse fun h => turns (congrArg Address.turns h)
    else isFalse fun h => tree (congrArg Address.tree h)
  else isFalse fun h => code (congrArg Address.code h)

instance : Hashable Address := ⟨code⟩

/-- The address of the root of a tree. -/
def root (tree : Nat) : Address := ⟨tree, [], [], hash tree, rfl⟩

/-- The address of a node that is made for a slot, after `turn` others. -/
def childAt (address : Address) (slot turn : Nat) : Address where
  tree := address.tree
  path := slot :: address.path
  turns := turn :: address.turns
  code := mixHash address.code (hash slot)
  code_eq := by rw [address.code_eq, pathCode]

/-- The address of the first node that is made for a slot. -/
def child (address : Address) (slot : Nat) : Address := address.childAt slot 0

end Address

/-! ## Nodes, tokens and elements -/

/-- A node of a green tree at its place: the root of a numbered tree, or in a slot of a node. -/
inductive Node where
  | root (tree : Nat) (start : Nat) (green : Green.Node)
  | child (parent : Node) (slot : Nat) (start : Nat) (address : Address) (green : Green.Node)

/-- A token of a green tree at its place. -/
structure Token where
  parent : Node
  slot : Nat
  start : Nat
  green : Green.Token

/-- A placed node or a placed token. -/
inductive Element where
  | node (node : Node)
  | token (token : Token)

namespace Node

/-- The green node that stands here. -/
def green : Node → Green.Node
  | root _ _ green => green
  | child _ _ _ _ green => green

/-- The offset of the first byte. -/
def start : Node → Nat
  | root _ start _ => start
  | child _ _ start _ _ => start

/-- The slot in the parent; zero for a root. -/
def index : Node → Nat
  | root _ _ _ => 0
  | child _ slot _ _ _ => slot

/-- The node above. -/
def parent? : Node → Option Node
  | root _ _ _ => none
  | child parent _ _ _ _ => some parent

/-- What the node was given when it was made. -/
def address : Node → Address
  | root tree _ _ => .root tree
  | child _ _ _ address _ => address

/-- The tree that a node belongs to. -/
def tree (node : Node) : Nat := node.address.tree

/-- The node itself and all nodes above it, from the inside out. -/
def ancestors : Node → List Node
  | root tree start green => [root tree start green]
  | child parent slot start address green =>
    child parent slot start address green :: parent.ancestors

/-- Nodes are the same if they were made as one. -/
def same (a b : Node) : Bool := a.address == b.address

/-- The node over a green node; for the one that is there already this is the node itself. -/
def withGreen : Node → Green.Node → Node
  | root tree start _, green => root tree start green
  | child parent slot start address _, green => child parent slot start address green

@[simp] theorem withGreen_green (node : Node) (green : Green.Node) :
    (node.withGreen green).green = green := by
  cases node <;> rfl

/-- The kind of a node. -/
def kind (node : Node) : Kind := node.green.kind

/-- The length of the text of a node. -/
def width (node : Node) : Nat := node.green.width

/-- The number of slots. -/
def arity (node : Node) : Nat := node.green.arity

/-- The text of a node. -/
def text (node : Node) : String := node.green.text

/-- The text of a node as it is written. -/
def display (node : Node) : String := node.green.display

/-- The stretch of text that a node covers. -/
def span (node : Node) : Except Violation Span := Span.ofSize node.start node.width

/-- The offset after the last byte. -/
def stop (node : Node) : Except Violation Nat := do return (← node.span).stop

/-- The annotations of a node, their spans counted from the start of the text. -/
def annotations (node : Node) : Except Violation (List Green.Annotation) :=
  node.green.annotations.mapM fun note => do
    return { note with span := ← note.span.shift node.start }

end Node

namespace Token

/-- The kind of a token. -/
def kind (token : Token) : Kind := token.green.kind

/-- The text of a token. -/
def text (token : Token) : String := token.green.text

/-- Tokens are the same if they stand in the same slot of the same node. -/
def same (a b : Token) : Bool := a.parent.same b.parent && a.slot == b.slot

/-- The stretch of text that a token covers. -/
def span (token : Token) : Except Violation Span := Span.ofSize token.start token.green.width

/-- The offset after the last byte. -/
def stop (token : Token) : Except Violation Nat := do return (← token.span).stop

/-- The stretch of text of a token without its trivia. -/
def trimmedSpan (token : Token) : Except Violation Span :=
  token.green.trimmedSpan.shift token.start

end Token

namespace Element

/-- The node that an element is. -/
def node? : Element → Option Node
  | node n => some n
  | token _ => none

/-- The token that an element is. -/
def token? : Element → Option Token
  | node _ => none
  | token t => some t

/-- The kind of an element. -/
def kind : Element → Kind
  | node n => n.kind
  | token t => t.kind

/-- The stretch of text that an element covers. -/
def span : Element → Except Violation Span
  | node n => n.span
  | token t => t.span

/-- The node above. -/
def parent? : Element → Option Node
  | node n => n.parent?
  | token t => some t.parent

/-- The slot in the node above. -/
def index : Element → Nat
  | node n => n.index
  | token t => t.slot

/-- The text of an element. -/
def text : Element → String
  | node n => n.text
  | token t => t.text

/-- The text of an element as it is written; that of a token is written as it is. -/
def display : Element → String
  | node n => n.display
  | token t => t.text

end Element

/-! ## Replacing a part -/

/-- The green root with another node in the place of a node. -/
def Node.replace : Node → Green.Node → Green.Make Green.Node
  | root _ _ _, replacement => return replacement
  | child parent slot _ _ _, replacement => do
    parent.replace (← parent.green.replaceSlot slot replacement.toElement)

/-- The green root with another token in the place of a token. -/
def Token.replace (token : Token) (replacement : Green.Token) : Green.Make Green.Node := do
  token.parent.replace (← token.parent.green.replaceSlot token.slot (.token replacement))

end LosslessSyntax.Placed
