import LosslessSyntax.Green.Basic

/-!
# Making green trees

Every token and every node that is made takes the next free identity. A node is made from the row
of its slots and keeps it; its width is the sum of the widths in the row, and the offset of a slot
is the sum of the widths before it.

A list is a row of nodes, or a row in which nodes and tokens take turns and a node comes first.
Its shape says how many slots there are and whether tokens stand between the elements.

An edit gives a new node of the same kind; all slots but the edited one hold the parts they held
before. A list is classified anew, and annotations, which describe the old layout, are dropped.

* `Green.interleave`: the slots of a list from its elements and its separators;
* `Green.listShapeOf`: the shape of a row of slots, or why it is no list;
* `Green.Make`: computations that make parts;
* `Green.Token.make`, `Green.Token.plain`: tokens with and without trivia;
* `Green.Node.plain`, `Green.Node.ofListSlots`: nodes with a fixed layout, and lists from their
  slots;
* `Green.Node.list`, `Green.Node.separated`: lists from their elements and separators;
* `Green.Node.annotate`: a node with other annotations;
* `Green.Node.replaceSlot`, `Green.Node.insertSlot`, `Green.Node.removeSlot`: the three edits.
-/

namespace LosslessSyntax.Green

/-! ## The shape of a list -/

/-- Elements and separators in turn; each separator follows its element. -/
def interleave : List Node → List Token → List Element
  | [], _ => []
  | element :: elements, [] => element.toElement :: interleave elements []
  | element :: elements, separator :: separators =>
    element.toElement :: .token separator :: interleave elements separators

/-- Refuses the first slot, counted from `slot`, that holds a token where an element belongs or, if
the list is separated, a node where a separator belongs. -/
def checkSlots (separated : Bool) : Nat → List Element → Except BuildError Unit
  | _, [] => .ok ()
  | slot, .token t :: rest =>
    if !separated || slot % 2 == 0 then .error (.tokenAsElement slot t.kind)
    else checkSlots separated (slot + 1) rest
  | slot, .node head _ :: rest =>
    if separated && slot % 2 == 1 then .error (.nodeAsSeparator slot head.kind)
    else checkSlots separated (slot + 1) rest

/-- The shape of a list of the given kind over a row of slots. -/
def listShapeOf (kind : Kind) (slots : Array Element) : Except BuildError ListShape := do
  if !kind.isList then throw (.notListKind kind)
  let separated := slots.any fun slot => !slot.isNode
  checkSlots separated 0 slots.toList
  return match slots.size with
    | 0 => .empty
    | 1 => .single
    | _ => if separated then .separated else .many

/-! ## Tokens and nodes -/

/-- Computations that make parts of trees; the state is the next free identity. -/
abbrev Make := EStateM Failure Nat

namespace Make

/-- The next free identity. -/
def fresh : Make Nat := modifyGet fun next => (next, next + 1)

instance : MonadLift (Except Violation) Make where
  monadLift
    | .ok value => pure value
    | .error violation => throw (.violated violation)

instance : MonadLift (Except BuildError) Make where
  monadLift
    | .ok value => pure value
    | .error error => throw (.rejected error)

end Make

namespace Token

/-- A token with trivia at both ends; `text` is the text of the trivia, too. -/
def make (leading : Trivia) (kind : Kind) (text : String) (trailing : Trivia) :
    Make Token := do
  if fits : leading.length + trailing.length ≤ text.utf8ByteSize then
    if cut : Text.isBoundary text.toList leading.length = true ∧
        Text.isBoundary text.toList (text.utf8ByteSize - trailing.length) = true then
      let id ← Make.fresh
      return ⟨id, kind, leading, text, trailing, fits, cut.1, cut.2⟩
    else throw (.violated (.triviaSplitsCharacter kind text))
  else throw (.violated (.triviaTooLong kind text))

/-- A token without trivia. -/
def plain (kind : Kind) (text : String) : Make Token := make .none kind text .none

end Token

namespace Node

/-- A node over a row of slots, which have to fit its shape. -/
def make (kind : Kind) (shape : Shape) (notes : Option (List Annotation))
    (slots : Array Element) : Make Node := do
  let widths := slots.toList.map Element.width
  let width ← sumSizes widths
  let id ← Make.fresh
  return ⟨⟨id, kind, shape, width, offsetsOf widths, notes⟩, slots⟩

/-- A node with a fixed layout. -/
def plain (kind : Kind) (slots : Array Element) : Make Node := do
  if kind.isList then throw (.rejected (.listKind kind))
  make kind .plain none slots

/-- A list over a row of slots. -/
def ofListSlots (kind : Kind) (slots : Array Element) : Make Node := do
  let shape ← listShapeOf kind slots
  make kind (.list shape) none slots

/-- A list of elements. -/
def list (kind : Kind) (elements : List Node) : Make Node :=
  ofListSlots kind (elements.map toElement).toArray

/-- A list of elements with separators between them and perhaps one at the end. -/
def separated (kind : Kind) (elements : List Node) (separators : List Token) :
    Make Node := do
  if elements.length < separators.length || separators.length + 1 < elements.length then
    throw (.rejected (.separatorsDoNotFit elements.length separators.length))
  ofListSlots kind (interleave elements separators).toArray

/-- The same slots with other annotations. -/
def annotate (node : Node) (annotations : List Annotation) : Make Node :=
  make node.kind node.shape (if annotations.isEmpty then none else some annotations) node.slots

end Node

/-! ## Edits -/

namespace Node

/-- A node of the same kind over other slots. -/
def rebuild (node : Node) (slots : Array Element) : Make Node :=
  match node.shape with
  | .plain => make node.kind .plain none slots
  | .list _ => ofListSlots node.kind slots

/-- The node with another element in a slot. -/
def replaceSlot (node : Node) (slot : Nat) (element : Element) : Make Node :=
  if h : slot < node.arity then node.rebuild (node.slots.set slot element h)
  else throw (.violated (node.noSlot slot))

/-- The node with one more element, before what is in a slot or at the end. -/
def insertSlot (node : Node) (slot : Nat) (element : Element) : Make Node :=
  if h : slot ≤ node.arity then node.rebuild (node.slots.insertIdx slot element h)
  else throw (.violated (node.noSlot slot))

/-- The node without a slot. -/
def removeSlot (node : Node) (slot : Nat) : Make Node :=
  if h : slot < node.arity then node.rebuild (node.slots.eraseIdx slot h)
  else throw (.violated (node.noSlot slot))

end Node

end LosslessSyntax.Green
