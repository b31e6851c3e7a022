import LosslessSyntax.Green.Basic

/-!
# Equality of green trees

Two green trees are equal if they agree in everything but the identities of their parts. Parts that
are the same need no comparison. A digest lists what a hash function reads of a tree: equal trees
have one digest.

* `Green.Element.equal`: equality, with a short way for parts that are the same;
* `Green.Element.digest`: what a hash function reads.
-/

namespace LosslessSyntax.Green

/-- Heads are alike if they agree in everything but their identity. -/
def Head.alike (a b : Head) : Bool :=
  a.kind == b.kind && a.shape == b.shape && a.width == b.width && a.notes == b.notes

namespace Element

mutual

/-- Equality of two elements. -/
def equal : Element → Element → Bool
  | .token a, .token b => a.alike b
  | .node a ⟨as⟩, .node b ⟨bs⟩ => a.id == b.id || a.alike b && equalRows as bs
  | _, _ => false

/-- Equality of two rows of elements, slot by slot. -/
def equalRows : List Element → List Element → Bool
  | [], [] => true
  | a :: as, b :: bs => equal a b && equalRows as bs
  | _, _ => false

end

end Element

/-! ## Digests -/

/-- What a hash function reads at one time. -/
inductive Word where
  /-- Whether the tree is a node. -/
  | sort (isNode : Bool)
  /-- The head of a node and the number of its slots. -/
  | node (kind : Kind) (shape : Shape) (width : Nat) (notes : Option (List Annotation))
    (slots : Nat)
  /-- A slot that holds a node. -/
  | nodeSlot
  /-- A slot that holds a token. -/
  | tokenSlot
  /-- The contents of a token. -/
  | token (kind : Kind) (leading : Trivia) (text : String) (trailing : Trivia)
  deriving DecidableEq

/-- The contents of a token as a word. -/
def Token.word (token : Token) : Word :=
  .token token.kind token.leading token.text token.trailing

namespace Element

/-- What is read of a slot when its node is read. -/
def slotWords : Element → List Word
  | .token t => [.tokenSlot, t.word]
  | .node _ _ => [.nodeSlot]

/-- What is read of a node before the nodes in its slots. -/
def headWords (head : Head) (slots : List Element) : List Word :=
  .node head.kind head.shape head.width head.notes slots.length :: slots.flatMap slotWords

mutual

/-- The words of a node in front of `rest`: its own, then those of the nodes in its slots from the
last to the first. -/
def nodeWords : Element → List Word → List Word
  | .token _, rest => rest
  | .node head ⟨slots⟩, rest => headWords head slots ++ rowWords slots rest

/-- The words of the nodes in a row, from the last to the first, in front of `rest`. -/
def rowWords : List Element → List Word → List Word
  | [], rest => rest
  | element :: elements, rest => rowWords elements (nodeWords element rest)

end

/-- What a hash function reads of a tree. -/
def digest (element : Element) : List Word :=
  match element with
  | .token t => [.sort false, t.word]
  | .node _ _ => .sort true :: nodeWords element []

end Element

end LosslessSyntax.Green
