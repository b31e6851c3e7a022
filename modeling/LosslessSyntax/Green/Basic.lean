import LosslessSyntax.Trivia
import LosslessSyntax.Text.Span

/-!
# Green trees

A green tree holds the text of a program and its structure, but not where it stands: a token knows
its text, a node knows its width and what is in its slots. So one green tree can be a part of many
others, or many parts of the same one. Every token and every node has an identity; two references
with one identity are the same part, while two parts may well be alike and not be the same.

* `Green.ListShape`, `Green.Shape`: how the slots of a node are laid out;
* `Green.Annotation`: a note on a stretch of a node;
* `Green.Token`, `Green.Node`, `Green.Element`: the parts;
* `Green.Element.text`, `Green.Element.width`: the text of a part and its length;
* `Green.Element.same`: whether two references are the same part.

The slots of a node tile its text, so they can be found by offsets that count from the start of the
node. Slots that end before an offset come before all others, and the first one that does not is found
by halving.

* `Green.firstFailing`: the first number that fails a test which fails from some number on;
* `Green.Node.startOf`, `Green.Node.stopOf`: the two ends of a slot;
* `Green.Node.slotsTouching`: the slots with text that hold an offset or end there;
* `Green.Node.slotCovering?`: the slot that holds a stretch of text.

A label names a part for a reader: what it is, how it is laid out and how long it is.

* `Green.Shape.label`, `Green.Element.label`: the labels.
-/

namespace LosslessSyntax.Green

/-! ## Shapes and annotations -/

/-- How many elements a list has, and whether tokens separate them. -/
inductive ListShape where
  /-- No slots. -/
  | empty
  /-- One element and nothing else. -/
  | single
  /-- Two or more elements. -/
  | many
  /-- Elements in even slots and separators in odd ones. -/
  | separated
  deriving DecidableEq

/-- The name of a list shape. -/
def ListShape.label : ListShape → String
  | .empty => "Empty"
  | .single => "Single"
  | .many => "Many"
  | .separated => "SeparatedMany"

/-- How the slots of a node are laid out: as its kind demands, or as a list. -/
inductive Shape where
  | plain
  | list (shape : ListShape)
  deriving DecidableEq

/-- A note on a stretch of a node, counted from the start of the node. -/
structure Annotation where
  span : Span
  message : String
  deriving DecidableEq

/-! ## Tokens, nodes and elements -/

/-- A token: its text with the trivia at both ends, which are cut off between characters. -/
structure Token where
  id : Nat
  kind : Kind
  leading : Trivia
  text : String
  trailing : Trivia
  trivia_le : leading.length + trailing.length ≤ text.utf8ByteSize
  leading_cut : Text.isBoundary text.toList leading.length = true
  trailing_cut : Text.isBoundary text.toList (text.utf8ByteSize - trailing.length) = true
  deriving DecidableEq

/-- What a node knows of itself, its slots apart: its width and the offset of each slot are kept, so
that nobody has to add up; `notes` is absent if there is no annotation. -/
structure Head where
  id : Nat
  kind : Kind
  shape : Shape
  width : Nat
  offsets : Array Nat
  notes : Option (List Annotation)
  deriving DecidableEq

/-- A part of a green tree. -/
inductive Element where
  | token (token : Token)
  | node (head : Head) (slots : Array Element)

/-- An element that is a node. -/
structure Node where
  head : Head
  slots : Array Element

namespace Token

/-- The length of the text of a token. -/
def width (token : Token) : Nat := token.text.utf8ByteSize

/-- The stretch of a token that is no trivia. -/
def trimmedSpan (token : Token) : Span where
  start := token.leading.length
  stop := token.width - token.trailing.length
  start_le_stop := Nat.le_sub_of_add_le token.trivia_le

/-- The text of a token without its trivia. -/
def trimmedText (token : Token) : String :=
  let span := token.trimmedSpan
  String.ofList <|
    Text.takeBytes (Text.dropBytes token.text.toList span.start) (span.stop - span.start)

/-- Tokens are alike if they agree in everything but their identity. -/
def alike (a b : Token) : Bool :=
  a.kind == b.kind && a.leading == b.leading && a.text == b.text && a.trailing == b.trailing

end Token

namespace Node

/-- The kind of a node. -/
def kind (node : Node) : Kind := node.head.kind

/-- The shape of a node. -/
def shape (node : Node) : Shape := node.head.shape

/-- The length of the text of a node, trivia included. -/
def width (node : Node) : Nat := node.head.width

/-- The shape of a node that is a list. -/
def listShape? (node : Node) : Option ListShape :=
  match node.shape with
  | .plain => none
  | .list shape => some shape

/-- The annotations of a node. -/
def annotations (node : Node) : List Annotation := node.head.notes.getD []

/-- The number of slots. -/
def arity (node : Node) : Nat := node.slots.size

/-- What is in a slot, if there is one of that number. -/
def slot? (node : Node) (slot : Nat) : Option Element := node.slots[slot]?

/-- The violation of asking for a slot that the node does not have. -/
def noSlot (node : Node) (slot : Nat) : Violation :=
  .noSuchSlot slot node.kind node.arity

/-- What is in a slot. -/
def slotAt (node : Node) (slot : Nat) : Except Violation Element :=
  match node.slot? slot with
  | some element => .ok element
  | none => .error (node.noSlot slot)

/-- The offset of a slot from the start of its node. -/
def offsetAt (node : Node) (slot : Nat) : Except Violation Nat :=
  match node.head.offsets[slot]? with
  | some offset => .ok offset
  | none => .error (node.noSlot slot)

/-- A node as an element. -/
def toElement (node : Node) : Element := .node node.head node.slots

end Node

namespace Element

/-- The node that an element is. -/
def node? : Element → Option Node
  | .token _ => none
  | .node head slots => some ⟨head, slots⟩

/-- The token that an element is. -/
def token? : Element → Option Token
  | .token t => some t
  | .node _ _ => none

/-- Whether an element is a node. -/
def isNode (element : Element) : Bool := element.node?.isSome

/-- The identity of an element. -/
def id : Element → Nat
  | .token t => t.id
  | .node head _ => head.id

/-- The kind of an element. -/
def kind : Element → Kind
  | .token t => t.kind
  | .node head _ => head.kind

/-- The length of the text of an element. -/
def width : Element → Nat
  | .token t => t.width
  | .node head _ => head.width

/-- Two references are the same part if they are of one sort and have one identity. -/
def same : Element → Element → Bool
  | .token a, .token b => a.id == b.id
  | .node a _, .node b _ => a.id == b.id
  | _, _ => false

mutual

/-- A text, and after it the text of an element. -/
def textAfter (before : String) : Element → String
  | .token t => before ++ t.text
  | .node _ ⟨slots⟩ => textsAfter before slots

/-- A text, and after it the texts of a row of elements. -/
def textsAfter (before : String) : List Element → String
  | [] => before
  | element :: rest => textsAfter (textAfter before element) rest

end

/-- The text of an element: the texts of its tokens in order. -/
def text (element : Element) : String := textAfter "" element

end Element

/-- The text of a node. -/
def Node.text (node : Node) : String := node.toElement.text

/-! ## Slots by their place in the text -/

/-- The first number from `low` up to `high` that fails a test, or `high` if none does; once a
number fails, all later ones have to. -/
def firstFailing (test : Nat → Bool) (low high : Nat) : Nat :=
  if low < high then
    let middle := (low + high) / 2
    if test middle then firstFailing test (middle + 1) high else firstFailing test low middle
  else low
termination_by high - low

namespace Node

/-- Where a slot begins. -/
def startOf (node : Node) (slot : Nat) : Nat := node.head.offsets.getD slot 0

/-- The length of the text in a slot. -/
def widthOf (node : Node) (slot : Nat) : Nat := (node.slots[slot]?.map Element.width).getD 0

/-- Where a slot ends. -/
def stopOf (node : Node) (slot : Nat) : Nat := node.startOf slot + node.widthOf slot

/-- The slots from `slot` on, at most `count` of them, that begin at `offset` or before it; those
without text are left out. -/
def slotsUpTo (node : Node) (offset : Nat) : Nat → Nat → List Nat
  | 0, _ => []
  | count + 1, slot =>
    if offset < node.startOf slot then []
    else if node.widthOf slot = 0 then slotsUpTo node offset count (slot + 1)
    else slot :: slotsUpTo node offset count (slot + 1)

/-- The slots that are not empty of text and hold `offset` or have it at an end. -/
def slotsTouching (node : Node) (offset : Nat) : List Nat :=
  let first := firstFailing (node.stopOf · < offset) 0 node.arity
  node.slotsUpTo offset (node.arity - first) first

/-- The slot that holds the text from `start` to `stop`: the first that ends after `start`, or the
last if there is none, unless it leaves out some of the text. -/
def slotCovering? (node : Node) (start stop : Nat) : Option Nat :=
  let slot := min (firstFailing (node.stopOf · ≤ start) 0 node.arity) (node.arity - 1)
  if slot < node.arity ∧ node.startOf slot ≤ start ∧ stop ≤ node.stopOf slot then some slot
  else none

end Node

/-! ## Labels -/

/-- A shape is printed with the list shape in it. -/
def Shape.label : Shape → String
  | .plain => "Node"
  | .list shape => s!"List({shape.label})"

/-- A node is printed as its kind, its shape, its width and the number of its slots. -/
def Node.label (node : Node) : String :=
  s!"GreenNode \x7b kind: {node.kind.label}, shape: {node.shape.label}, " ++
    s!"text_len: {node.width}, slot_count: {node.arity} \x7d"

/-- A token is printed as its kind and its text. -/
def Token.label (token : Token) : String :=
  s!"GreenToken \x7b kind: {token.kind.label}, text: {Text.quoted token.text}, .. \x7d"

/-- A part is printed as what it is. -/
def Element.label : Element → String
  | .token t => t.label
  | .node head slots => Node.label ⟨head, slots⟩

end LosslessSyntax.Green
