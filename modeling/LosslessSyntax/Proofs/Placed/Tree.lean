import LosslessSyntax.Placed.Basic
import LosslessSyntax.Proofs.Green.Layout

/-!
# Where parts stand

A tree is a green root at an offset. A node or a token stands in a tree if it can be reached from the
root by going down through the slots, and if it carries the offset that the texts before it add up
to. Such a part is nothing but the path of slots that leads to it.

* `Placed.Tree`: a green root at an offset;
* `Placed.Node.Stands`, `Placed.Token.Stands`: the parts of a tree at their places;
* `Placed.Node.path`, `Placed.Token.path`: the slots from the root down to a part;
* `Green.Element.startAt`: the length of the text before a path;
* `Placed.Node.Stands.at?`, `Placed.Node.Stands.start_eq`: what stands at a path, and where;
* **`Placed.Node.Stands.eq_of_path`**: one path, one node.
-/

namespace LosslessSyntax

/-- The length of the text before the part at a path: in each node on the way, the texts in the
slots to the left. -/
def Green.Element.startAt : Green.Element → List Nat → Nat
  | _, [] => 0
  | .token _, _ :: _ => 0
  | .node head slots, slot :: path =>
    Green.Node.before ⟨head, slots⟩ slot + (slots[slot]?.map (·.startAt path)).getD 0
termination_by _ path => path.length

namespace Placed

/-- A green root at an offset, with the number of the tree. -/
structure Tree where
  number : Nat
  start : Nat
  green : Green.Node

/-- The root of a tree. -/
def Tree.root (tree : Tree) : Node := .root tree.number tree.start tree.green

namespace Node

/-- The slots from the root down to a node. -/
def path (node : Node) : List Nat := node.address.path.reverse

/-- The node in a slot, where the texts before it end. -/
def nodeBelow (node : Node) (slot : Nat) (green : Green.Node) : Node :=
  .child node slot (node.start + node.green.before slot) (node.address.child slot) green

/-- The token in a slot, where the texts before it end. -/
def tokenBelow (node : Node) (slot : Nat) (green : Green.Token) : Token :=
  ⟨node, slot, node.start + node.green.before slot, green⟩

@[simp] theorem nodeBelow_green (node : Node) (slot : Nat) (green : Green.Node) :
    (node.nodeBelow slot green).green = green := rfl

@[simp] theorem nodeBelow_start (node : Node) (slot : Nat) (green : Green.Node) :
    (node.nodeBelow slot green).start = node.start + node.green.before slot := rfl

@[simp] theorem nodeBelow_address (node : Node) (slot : Nat) (green : Green.Node) :
    (node.nodeBelow slot green).address = node.address.child slot := rfl

@[simp] theorem nodeBelow_withGreen (node : Node) (slot : Nat) (green : Green.Node) :
    (node.nodeBelow slot green).withGreen green = node.nodeBelow slot green := rfl

@[simp] theorem nodeBelow_path (node : Node) (slot : Nat) (green : Green.Node) :
    (node.nodeBelow slot green).path = node.path ++ [slot] := List.reverse_cons

@[simp] theorem root_path (tree : Tree) : tree.root.path = [] := rfl
@[simp] theorem root_green (tree : Tree) : tree.root.green = tree.green := rfl
@[simp] theorem root_start (tree : Tree) : tree.root.start = tree.start := rfl

/-- The nodes of a tree, each where it belongs. -/
inductive Stands (tree : Tree) : Node → Prop
  | root : Stands tree tree.root
  | child {parent : Node} {slot : Nat} {head : Green.Head} {slots : Array Green.Element}
      (standing : Stands tree parent)
      (found : parent.green.slots[slot]? = some (.node head slots)) :
      Stands tree (parent.nodeBelow slot ⟨head, slots⟩)

end Node

namespace Token

/-- The slots from the root down to a token. -/
def path (token : Token) : List Nat := token.parent.path ++ [token.slot]

/-- The tokens of a tree, each where it belongs. -/
inductive Stands (tree : Tree) : Token → Prop
  | child {parent : Node} {slot : Nat} {green : Green.Token} (standing : parent.Stands tree)
      (found : parent.green.slots[slot]? = some (.token green)) :
      Stands tree (parent.tokenBelow slot green)

end Token

@[simp] theorem Node.tokenBelow_path (node : Node) (slot : Nat) (green : Green.Token) :
    (node.tokenBelow slot green).path = node.path ++ [slot] := rfl

namespace Element

/-- The slots from the root down to an element. -/
def path : Element → List Nat
  | node n => n.path
  | token t => t.path

/-- The green element that stands here. -/
def green : Element → Green.Element
  | node n => n.green.toElement
  | token t => .token t.green

/-- The offset of the first byte. -/
def start : Element → Nat
  | node n => n.start
  | token t => t.start

/-- The nodes and tokens of a tree. -/
def Stands (tree : Tree) : Element → Prop
  | node n => n.Stands tree
  | token t => t.Stands tree

end Element

/-! ## Paths in the green root -/

section Path

variable {tree : Tree}

theorem at?_snoc {root : Green.Element} {path : List Nat} {node : Green.Node} {slot : Nat}
    {e : Green.Element} (h : root.at? path = some node.toElement)
    (he : node.slots[slot]? = some e) : root.at? (path ++ [slot]) = some e := by
  rw [Green.Element.at?_append, h, Option.bind_some, Green.Node.toElement,
    Green.Element.at?_node_cons, he, Option.bind_some, Green.Element.at?_nil]

theorem startAt_nil (e : Green.Element) : e.startAt [] = 0 := by
  cases e <;> rw [Green.Element.startAt]

theorem startAt_cons {head : Green.Head} {slots : Array Green.Element} {slot : Nat}
    {e : Green.Element} (h : slots[slot]? = some e) (path : List Nat) :
    (Green.Element.node head slots).startAt (slot :: path) =
      Green.Node.before ⟨head, slots⟩ slot + e.startAt path := by
  rw [Green.Element.startAt, h]
  rfl

theorem startAt_snoc {root : Green.Element} {path : List Nat} {node : Green.Node}
    (h : root.at? path = some node.toElement) {slot : Nat} {e : Green.Element}
    (he : node.slots[slot]? = some e) :
    root.startAt (path ++ [slot]) = root.startAt path + node.before slot := by
  induction path generalizing root with
  | nil =>
    rw [Green.Element.at?_nil, Option.some_inj] at h
    subst h
    rw [List.nil_append, Green.Node.toElement, startAt_cons he, startAt_nil, startAt_nil,
      Nat.zero_add, Nat.add_zero]
  | cons first path ih =>
    cases root with
    | token t => simp at h
    | node head slots =>
      rw [Green.Element.at?_node_cons, Option.bind_eq_some_iff] at h
      obtain ⟨child, hc, h⟩ := h
      rw [List.cons_append, startAt_cons hc, startAt_cons hc, ih h, Nat.add_assoc]

/-- **A node that stands in a tree is the part at its path.** -/
theorem Node.Stands.at? {node : Node} (h : node.Stands tree) :
    tree.green.toElement.at? node.path = some node.green.toElement := by
  induction h with
  | root => exact Green.Element.at?_nil _
  | child standing found ih =>
    rw [Node.nodeBelow_path]
    exact at?_snoc ih found

/-- **It starts where the texts before its path end.** -/
theorem Node.Stands.start_eq {node : Node} (h : node.Stands tree) :
    node.start = tree.start + tree.green.toElement.startAt node.path := by
  induction h with
  | root => rw [Node.root_path, startAt_nil]; rfl
  | child standing found ih =>
    rw [Node.nodeBelow_path, startAt_snoc standing.at? found, Node.nodeBelow_start, ih, Nat.add_assoc]

theorem Token.Stands.at? {token : Token} (h : token.Stands tree) :
    tree.green.toElement.at? token.path = some (.token token.green) := by
  cases h with
  | child standing found => exact at?_snoc standing.at? found

theorem Token.Stands.start_eq {token : Token} (h : token.Stands tree) :
    token.start = tree.start + tree.green.toElement.startAt token.path := by
  cases h with
  | child standing found =>
    rw [Node.tokenBelow_path, startAt_snoc standing.at? found, Node.tokenBelow, standing.start_eq,
      Nat.add_assoc]

theorem Element.Stands.at? {element : Element} (h : element.Stands tree) :
    tree.green.toElement.at? element.path = some element.green := by
  cases element with
  | node n => exact Node.Stands.at? h
  | token t => exact Token.Stands.at? h

theorem Element.Stands.start_eq {element : Element} (h : element.Stands tree) :
    element.start = tree.start + tree.green.toElement.startAt element.path := by
  cases element with
  | node n => exact Node.Stands.start_eq h
  | token t => exact Token.Stands.start_eq h

/-- **One path, one node.** -/
theorem Node.Stands.eq_of_path {a b : Node} (ha : a.Stands tree) (hb : b.Stands tree)
    (h : a.path = b.path) : a = b := by
  induction ha generalizing b with
  | root =>
    cases hb with
    | root => rfl
    | child standing found => simp at h
  | child standing found ih =>
    cases hb with
    | root => simp at h
    | child standing' found' =>
      rw [Node.nodeBelow_path, Node.nodeBelow_path] at h
      obtain ⟨hpath, hslot⟩ := List.append_inj' h rfl
      obtain rfl := ih standing' hpath
      cases hslot
      rw [found, Option.some_inj] at found'
      cases found'
      rfl

theorem Token.Stands.eq_of_path {a b : Token} (ha : a.Stands tree) (hb : b.Stands tree)
    (h : a.path = b.path) : a = b := by
  cases ha with
  | child standing found =>
    cases hb with
    | child standing' found' =>
      obtain ⟨hpath, hslot⟩ := List.append_inj' h rfl
      obtain rfl := standing.eq_of_path standing' hpath
      cases hslot
      rw [found, Option.some_inj] at found'
      cases found'
      rfl

theorem Node.Stands.address_eq_iff {a b : Node} (ha : a.Stands tree) (hb : b.Stands tree) :
    a.address = b.address ↔ a.path = b.path := by
  constructor
  · intro h
    rw [Node.path, h, Node.path]
  · intro h
    rw [ha.eq_of_path hb h]

end Path

end Placed

end LosslessSyntax
