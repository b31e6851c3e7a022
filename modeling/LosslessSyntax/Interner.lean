import LosslessSyntax.Green.Make

/-!
# Interning

An interner keeps the tokens and the small nodes that were made through it, and gives out the kept
one when the same contents are asked for again. Tokens go by their contents, nodes by their kind,
their shape and the identities of what is in their slots. What is kept stands in two tables, each
entry under a hash: the one of the request for which it was made, or, once its table has grown, the
one that was computed of the entry itself. Entries are only ever added.

* `Interner.Hashing`: a hasher, and when tables grow;
* `Interner.Table`: entries under their hashes;
* `Interner`: the kept tokens and nodes;
* `Interner.tokenHash`, `Interner.nodeHash`: the hashes of requests;
* `Interner.rehashToken`, `Interner.rehashNode`: the hashes of entries;
* `Interner.token`, `Interner.node`: the token or node with given contents, made if it is not
  kept;
* `Interner.listing`: the numbers of what is kept.
-/

namespace LosslessSyntax

open Green

namespace Interner

/-! ## Hashing -/

/-- What a hasher reads at one time. -/
inductive Datum where
  | kind (kind : Kind)
  | shape (shape : Shape)
  | text (text : String)
  | trivia (trivia : Trivia)
  /-- The identity of a part, be it a token or a node. -/
  | part (id : Nat)

/-- What interners take from elsewhere: the hash of a row of data, and whether a table of so many
entries has to grow before another one goes in. -/
structure Hashing where
  hash : List Datum → UInt64
  full : Nat → Bool

/-- A datum in numbers. -/
def Datum.codes : Datum → List Nat
  | .kind read => [read.code]
  | .shape .plain => [0]
  | .shape (.list read) => [1, read.ctorIdx]
  | .text read => read.toList.map Char.toNat ++ [0x110000]
  | .trivia read =>
    read.pieces.length :: read.pieces.flatMap fun piece => [piece.cls.ctorIdx, piece.length]
  | .part id => [id]

/-- Adds up and multiplies; tables double. -/
def Hashing.plain : Hashing where
  hash data := (data.flatMap Datum.codes).foldl
    (fun state code => (state + UInt64.ofNat code) * 0x9e3779b97f4a7c15) 0
  full count := count &&& (count + 1) == 0

/-! ## Tables -/

/-- Entries, each under the hash that it was stored with, the last one first. -/
structure Table (α : Type) where
  stored : List (UInt64 × α)

namespace Table

variable {α : Type}

/-- The table without entries. -/
def empty : Table α := ⟨[]⟩

/-- The entries without their hashes. -/
def contents (table : Table α) : List α := table.stored.map Prod.snd

instance : Membership α (Table α) := ⟨fun table entry => entry ∈ table.contents⟩

/-- The number of entries. -/
def size (table : Table α) : Nat := table.stored.length

/-- An entry that was stored under a hash and passes a test. -/
def find? (table : Table α) (hash : UInt64) (test : α → Bool) : Option α :=
  (table.stored.find? fun (stored, entry) => stored == hash && test entry).map Prod.snd

/-- Stores all entries anew, under hashes that are computed of the entries. -/
def grow (table : Table α) (rehash : α → UInt64) : Table α :=
  ⟨table.stored.map fun (_, entry) => (rehash entry, entry)⟩

/-- Stores a new entry under a hash; a table that is full grows first. -/
def insert (table : Table α) (full : Nat → Bool) (hash : UInt64) (entry : α)
    (rehash : α → UInt64) : Table α :=
  let table := if full table.size then table.grow rehash else table
  ⟨(hash, entry) :: table.stored⟩

end Table

end Interner

/-! ## Interners -/

/-- The tokens and nodes that were made so far. -/
structure Interner where
  hashing : Interner.Hashing
  tokens : Interner.Table Token
  nodes : Interner.Table Node

namespace Interner

/-- The interner that keeps nothing yet. -/
def empty (hashing : Hashing) : Interner := ⟨hashing, .empty, .empty⟩

/-- Nodes with more slots than this are rarely repeated and are not kept. -/
def maxSlots : Nat := 3

/-- The hash of what a token is asked for by. -/
def tokenHash (hashing : Hashing) (leading : Trivia) (kind : Kind) (text : String)
    (trailing : Trivia) : UInt64 :=
  hashing.hash [.kind kind, .text text, .trivia leading, .trivia trailing]

/-- The hash of a token. -/
def rehashToken (hashing : Hashing) (token : Token) : UInt64 :=
  hashing.hash [.kind token.kind, .text token.text, .trivia token.leading, .trivia token.trailing]

/-- The hash of what a node is asked for by; the parts in the slots go by their identities, for they
were interned before. -/
def nodeHash (hashing : Hashing) (kind : Kind) (shape : Shape) (slots : Array Element) : UInt64 :=
  hashing.hash (.kind kind :: .shape shape :: slots.toList.map fun part => .part part.id)

/-- The hash of a node. -/
def rehashNode (hashing : Hashing) (node : Node) : UInt64 :=
  nodeHash hashing node.kind node.shape node.slots

/-- Whether a token has the given contents. -/
def tokenMatches (leading : Trivia) (kind : Kind) (text : String) (trailing : Trivia)
    (token : Token) : Bool :=
  token.kind == kind && token.text == text && token.leading == leading &&
    token.trailing == trailing

/-- Whether two rows hold the same parts, slot by slot. -/
def sameRow (a b : Array Element) : Bool :=
  a.size == b.size && (a.zip b).all fun (x, y) => x.same y

/-- Whether a node has the given contents and no annotations. -/
def nodeMatches (kind : Kind) (shape : Shape) (slots : Array Element) (node : Node) : Bool :=
  node.kind == kind && node.shape == shape && node.annotations.isEmpty && sameRow node.slots slots

/-- The token with the given contents, and the interner that keeps it. -/
def token (interner : Interner) (leading : Trivia) (kind : Kind) (text : String)
    (trailing : Trivia) : Make (Token × Interner) :=
  let hash := tokenHash interner.hashing leading kind text trailing
  match interner.tokens.find? hash (tokenMatches leading kind text trailing) with
  | some kept => return (kept, interner)
  | none => do
    let made ← Token.make leading kind text trailing
    let tokens :=
      interner.tokens.insert interner.hashing.full hash made (rehashToken interner.hashing)
    return (made, { interner with tokens })

/-- The node with the given contents, and the interner that keeps it unless it is large. -/
def node (interner : Interner) (kind : Kind) (shape : Shape) (slots : Array Element) :
    Make (Node × Interner) :=
  if slots.size ≤ maxSlots then
    let hash := nodeHash interner.hashing kind shape slots
    match interner.nodes.find? hash (nodeMatches kind shape slots) with
    | some kept => return (kept, interner)
    | none => do
      let made ← Node.make kind shape none slots
      let nodes :=
        interner.nodes.insert interner.hashing.full hash made (rehashNode interner.hashing)
      return (made, { interner with nodes })
  else do
    let made ← Node.make kind shape none slots
    return (made, interner)

/-- An interner is printed as the numbers of nodes and tokens that it keeps. -/
def listing (interner : Interner) : String :=
  s!"NodeCache \x7b nodes: {interner.nodes.size}, tokens: {interner.tokens.size} \x7d"

end Interner

end LosslessSyntax
