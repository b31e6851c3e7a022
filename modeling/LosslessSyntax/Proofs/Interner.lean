import LosslessSyntax.Proofs.Green.Stock
import Mathlib.Data.List.Forall2
import Mathlib.Data.List.Nodup

/-!
# What an interner keeps

An interner looks for what it is asked for by a key: a token by its contents, a node by its kind, its
shape and the identities of the parts in its slots. No two of the tokens that it keeps have one key,
and no two of the nodes.

* `Interner.tokenKey`, `Interner.nodeKey`: the keys;
* `Interner.Table.Hashed`: each entry of a table stands under the hash that is computed of it;
* `Interner.rehashToken_eq`, `Interner.rehashNode_eq`: that is the hash which it is asked for under;
* `Interner.token_cases`, `Interner.node_cases`: what an interner gives, and what it keeps then;
* `Interner.Orderly`: each key is there once, under its hash;
* `Interner.Orderly.find?_token`, `Interner.Orderly.find?_node`: so what is kept is found;
* **`Interner.Orderly.token`**, **`Interner.Orderly.node`**: it stays so;
* `Interner.keeps_token`, `Interner.keeps_node`: what was given is kept for good.
-/

namespace LosslessSyntax.Interner

open Green

/-! ## Keys -/

/-- What a token is asked for by: its contents. -/
def tokenKey (token : Token) : Kind × String × Trivia × Trivia :=
  (token.kind, token.text, token.leading, token.trailing)

/-- The sort and the identity of each part in a row. -/
def rowKey (slots : Array Element) : List (Bool × Nat) :=
  slots.toList.map fun e => (e.isNode, e.id)

/-- What a node is asked for by: its kind, its shape and the parts in its slots. -/
def nodeKey (node : Node) : Kind × Shape × List (Bool × Nat) :=
  (node.kind, node.shape, rowKey node.slots)

section

variable {leading trailing : Trivia} {kind : Kind} {text : String} {shape : Shape}
  {slots : Array Element}

theorem tokenMatches_iff {token : Token} : tokenMatches leading kind text trailing token = true ↔
    tokenKey token = (kind, text, leading, trailing) := by
  simp [tokenMatches, tokenKey, and_assoc]

theorem sameRow_iff {a b : Array Element} : sameRow a b = true ↔ rowKey a = rowKey b := by
  have hsame : ∀ x y : Element, x.same y = true ↔ (x.isNode, x.id) = (y.isNode, y.id) :=
    fun x y => by rw [Element.same_iff, Prod.mk.injEq]
  rw [rowKey, rowKey, ← List.forall₂_eq_eq_eq, List.forall₂_map_left_iff,
    List.forall₂_map_right_iff, List.forall₂_iff_zip, sameRow, Bool.and_eq_true, beq_iff_eq,
    Array.length_toList, Array.length_toList, ← Array.all_toList, Array.toList_zip,
    List.all_eq_true]
  simp only [← hsame, Prod.forall]

theorem size_eq_of_rowKey {a b : Array Element} (h : rowKey a = rowKey b) : a.size = b.size := by
  have hlength := congrArg List.length h
  simpa only [rowKey, List.length_map, Array.length_toList] using hlength

theorem nodeMatches_iff {node : Node} : nodeMatches kind shape slots node = true ↔
    nodeKey node = (kind, shape, rowKey slots) ∧ node.annotations = [] := by
  simp only [nodeMatches, nodeKey, Bool.and_eq_true, beq_iff_eq, List.isEmpty_iff, sameRow_iff,
    Prod.mk.injEq]
  constructor
  · rintro ⟨⟨⟨hkind, hshape⟩, hnotes⟩, hrow⟩
    exact ⟨⟨hkind, hshape, hrow⟩, hnotes⟩
  · rintro ⟨⟨hkind, hshape, hrow⟩, hnotes⟩
    exact ⟨⟨⟨hkind, hshape⟩, hnotes⟩, hrow⟩

end

/-! ## Tables -/

namespace Table

variable {α : Type} {table : Table α} {full : Nat → Bool} {hash : UInt64} {entry : α}
  {rehash : α → UInt64}

theorem mem_iff {x : α} : x ∈ table ↔ x ∈ table.contents := Iff.rfl

theorem mem_of_stored {stored : UInt64} {x : α} (h : (stored, x) ∈ table.stored) : x ∈ table :=
  List.mem_map.2 ⟨_, h, rfl⟩

@[simp] theorem contents_empty : (empty : Table α).contents = [] := rfl

theorem contents_grow : (table.grow rehash).contents = table.contents := by
  rw [contents, grow, List.map_map]
  rfl

theorem contents_insert : (table.insert full hash entry rehash).contents = entry :: table.contents := by
  unfold insert
  dsimp only
  split_ifs
  · exact congrArg (entry :: ·) contents_grow
  · rfl

theorem mem_insert {x : α} : x ∈ table.insert full hash entry rehash ↔ x = entry ∨ x ∈ table := by
  rw [mem_iff, contents_insert, List.mem_cons, mem_iff]

theorem mem_of_find? {test : α → Bool} {x : α} (h : table.find? hash test = some x) :
    x ∈ table ∧ test x = true := by
  obtain ⟨⟨stored, y⟩, hfind, rfl⟩ := Option.map_eq_some_iff.1 h
  have hpasses := List.find?_some hfind
  rw [Bool.and_eq_true] at hpasses
  exact ⟨mem_of_stored (List.mem_of_find?_eq_some hfind), hpasses.2⟩

theorem find?_eq_none {test : α → Bool} (h : ∀ x ∈ table, test x = false) :
    table.find? hash test = none := by
  rw [find?, Option.map_eq_none_iff, List.find?_eq_none]
  rintro ⟨stored, x⟩ hx
  change ¬(stored == hash && test x) = true
  rw [h x (mem_of_stored hx), Bool.and_false]
  exact Bool.false_ne_true

/-- Each entry stands under the hash that is computed of it. -/
def Hashed (table : Table α) (rehash : α → UInt64) : Prop :=
  ∀ stored entry, (stored, entry) ∈ table.stored → stored = rehash entry

theorem Hashed.empty : (empty : Table α).Hashed rehash := fun _ _ h => absurd h List.not_mem_nil

theorem hashed_grow : (table.grow rehash).Hashed rehash := by
  intro stored x hx
  obtain ⟨⟨before, y⟩, -, hpair⟩ := List.mem_map.1 hx
  cases hpair
  rfl

theorem Hashed.insert (h : table.Hashed rehash) (right : hash = rehash entry) :
    (table.insert full hash entry rehash).Hashed rehash := by
  intro stored x hx
  rcases List.mem_cons.1 hx with hnew | hold
  · cases hnew
    exact right
  · split_ifs at hold
    · exact hashed_grow stored x hold
    · exact h stored x hold

/-- **What passes a test is found**, if it is alone with that and has the hash that is looked under. -/
theorem Hashed.find?_eq_some (h : table.Hashed rehash) {test : α → Bool} {x : α} (hx : x ∈ table)
    (passes : test x = true) (right : rehash x = hash)
    (alone : ∀ y ∈ table, test y = true → y = x) : table.find? hash test = some x := by
  have hsome : (table.find? hash test).isSome := by
    obtain ⟨⟨stored, y⟩, hstored, hy⟩ := List.mem_map.1 hx
    obtain rfl : y = x := hy
    rw [find?, Option.isSome_map, List.find?_isSome]
    refine ⟨_, hstored, ?_⟩
    change (stored == hash && test y) = true
    rw [h stored y hstored, right, passes, beq_self_eq_true, Bool.and_self]
  obtain ⟨found, hfind⟩ := Option.isSome_iff_exists.1 hsome
  obtain ⟨hfound, hmatch⟩ := mem_of_find? hfind
  rw [hfind, alone found hfound hmatch]

end Table

/-! ## Hashes -/

section

variable {hashing : Hashing} {leading trailing : Trivia} {kind : Kind} {text : String}
  {shape : Shape} {slots : Array Element}

/-- **The hash of a token is the one that it is asked for under.** -/
theorem rehashToken_eq {token : Token} (h : tokenKey token = (kind, text, leading, trailing)) :
    rehashToken hashing token = tokenHash hashing leading kind text trailing := by
  cases h
  rfl

theorem nodeHash_eq (hashing : Hashing) (kind : Kind) (shape : Shape) (slots : Array Element) :
    nodeHash hashing kind shape slots = hashing.hash
      (.kind kind :: .shape shape :: (rowKey slots).map fun part => .part part.2) := by
  rw [nodeHash, rowKey, List.map_map]
  rfl

/-- **The hash of a node is the one that it is asked for under**: it reads of the slots the
identities, which are in the key. -/
theorem rehashNode_eq {node : Node} (h : nodeKey node = (kind, shape, rowKey slots)) :
    rehashNode hashing node = nodeHash hashing kind shape slots := by
  obtain ⟨rfl, rfl, hrow⟩ : node.kind = kind ∧ node.shape = shape ∧
      rowKey node.slots = rowKey slots := by
    simpa only [nodeKey, Prod.mk.injEq] using h
  rw [rehashNode, nodeHash_eq, nodeHash_eq, hrow]

end

/-! ## What is given -/

/-- The interner after a token was made for a request. -/
def withToken (interner : Interner) (token : Token) (hash : UInt64) : Interner :=
  { interner with
    tokens := interner.tokens.insert interner.hashing.full hash token (rehashToken interner.hashing) }

/-- The interner after a node was made for a request. -/
def withNode (interner : Interner) (node : Node) (hash : UInt64) : Interner :=
  { interner with
    nodes := interner.nodes.insert interner.hashing.full hash node (rehashNode interner.hashing) }

section

variable {interner : Interner} {leading trailing : Trivia} {kind : Kind} {text : String}
  {shape : Shape} {slots : Array Element}

theorem token_of_find {kept : Token}
    (h : interner.tokens.find? (tokenHash interner.hashing leading kind text trailing)
      (tokenMatches leading kind text trailing) = some kept) :
    interner.token leading kind text trailing = pure (kept, interner) := by
  unfold Interner.token
  dsimp only
  rw [h]

theorem token_of_miss
    (h : interner.tokens.find? (tokenHash interner.hashing leading kind text trailing)
      (tokenMatches leading kind text trailing) = none) :
    interner.token leading kind text trailing = Token.make leading kind text trailing >>=
      fun made => pure (made, interner.withToken made
        (tokenHash interner.hashing leading kind text trailing)) := by
  unfold Interner.token
  dsimp only
  rw [h]
  rfl

theorem node_of_find (small : slots.size ≤ maxSlots) {kept : Node}
    (h : interner.nodes.find? (nodeHash interner.hashing kind shape slots)
      (nodeMatches kind shape slots) = some kept) :
    interner.node kind shape slots = pure (kept, interner) := by
  unfold Interner.node
  dsimp only
  rw [if_pos small, h]

theorem node_of_miss (small : slots.size ≤ maxSlots)
    (h : interner.nodes.find? (nodeHash interner.hashing kind shape slots)
      (nodeMatches kind shape slots) = none) :
    interner.node kind shape slots = Node.make kind shape none slots >>=
      fun made => pure (made, interner.withNode made
        (nodeHash interner.hashing kind shape slots)) := by
  unfold Interner.node
  dsimp only
  rw [if_pos small, h]
  rfl

theorem node_of_large (large : maxSlots < slots.size) :
    interner.node kind shape slots = Node.make kind shape none slots >>=
      fun made => pure (made, interner) := by
  rw [Interner.node, if_neg (Nat.not_le.2 large)]

end

section

variable {interner after : Interner} {supply next : Nat}

/-- An interner gives the token that it finds, or a new one that it keeps from now on. -/
theorem token_cases {leading trailing : Trivia} {kind : Kind} {text : String} {given : Token}
    (h : interner.token leading kind text trailing supply = .ok (given, after) next) :
    tokenKey given = (kind, text, leading, trailing) ∧
      (given ∈ interner.tokens ∧ after = interner ∨
        interner.tokens.find? (tokenHash interner.hashing leading kind text trailing)
            (tokenMatches leading kind text trailing) = none ∧
          after = interner.withToken given
            (tokenHash interner.hashing leading kind text trailing)) := by
  cases hfind : interner.tokens.find? (tokenHash interner.hashing leading kind text trailing)
    (tokenMatches leading kind text trailing) with
  | some kept =>
    rw [token_of_find hfind] at h
    cases h
    obtain ⟨hkept, hmatch⟩ := Table.mem_of_find? hfind
    exact ⟨tokenMatches_iff.1 hmatch, .inl ⟨hkept, rfl⟩⟩
  | none =>
    rw [token_of_miss hfind] at h
    change EStateM.bind (Token.make leading kind text trailing) _ supply = _ at h
    rw [EStateM.bind, Token.make_run] at h
    split_ifs at h
    cases h
    exact ⟨rfl, .inr ⟨rfl, rfl⟩⟩

/-- An interner gives the node that it finds, or a new one, which it keeps unless it is large. -/
theorem node_cases {kind : Kind} {shape : Shape} {slots : Array Element} {given : Node}
    (h : interner.node kind shape slots supply = .ok (given, after) next) :
    nodeKey given = (kind, shape, rowKey slots) ∧ given.annotations = [] ∧
      (slots.size ≤ maxSlots ∧ given ∈ interner.nodes ∧ after = interner ∨
        given.slots = slots ∧ given.head.notes = none ∧
        (slots.size ≤ maxSlots ∧
            interner.nodes.find? (nodeHash interner.hashing kind shape slots)
              (nodeMatches kind shape slots) = none ∧
            after = interner.withNode given (nodeHash interner.hashing kind shape slots) ∨
          maxSlots < slots.size ∧ after = interner)) := by
  have hmake : ∀ {kept : Node → Interner},
      (Node.make kind shape none slots >>= fun made => pure (made, kept made)) supply =
        .ok (given, after) next → nodeKey given = (kind, shape, rowKey slots) ∧
          given.annotations = [] ∧ given.slots = slots ∧ given.head.notes = none ∧
          after = kept given := fun {kept} hrun => by
    change EStateM.bind (Node.make kind shape none slots) (fun made => pure (made, kept made))
      supply = _ at hrun
    rw [EStateM.bind, Node.make_run] at hrun
    dsimp only at hrun
    split_ifs at hrun
    cases hrun
    exact ⟨rfl, rfl, rfl, rfl, rfl⟩
  by_cases hsize : slots.size ≤ maxSlots
  · cases hfind : interner.nodes.find? (nodeHash interner.hashing kind shape slots)
      (nodeMatches kind shape slots) with
    | some kept =>
      rw [node_of_find hsize hfind] at h
      cases h
      obtain ⟨hkept, hmatch⟩ := Table.mem_of_find? hfind
      obtain ⟨hkey, hnotes⟩ := nodeMatches_iff.1 hmatch
      exact ⟨hkey, hnotes, .inl ⟨hsize, hkept, rfl⟩⟩
    | none =>
      rw [node_of_miss hsize hfind] at h
      obtain ⟨hkey, hempty, hslots, hnotes, hafter⟩ := hmake h
      exact ⟨hkey, hempty, .inr ⟨hslots, hnotes, .inl ⟨hsize, rfl, hafter⟩⟩⟩
  · rw [node_of_large (Nat.lt_of_not_le hsize)] at h
    obtain ⟨hkey, hempty, hslots, hnotes, hafter⟩ := hmake h
    exact ⟨hkey, hempty, .inr ⟨hslots, hnotes, .inr ⟨Nat.lt_of_not_le hsize, hafter⟩⟩⟩

end

/-! ## One entry for each key -/

/-- Each key is there once, each entry stands under its hash, and the nodes that are kept are small
and have no annotations. -/
structure Orderly (interner : Interner) : Prop where
  tokens : (interner.tokens.contents.map tokenKey).Nodup
  nodes : (interner.nodes.contents.map nodeKey).Nodup
  tokensHashed : interner.tokens.Hashed (rehashToken interner.hashing)
  nodesHashed : interner.nodes.Hashed (rehashNode interner.hashing)
  plain : ∀ node ∈ interner.nodes, node.head.notes = none
  small : ∀ node ∈ interner.nodes, node.arity ≤ maxSlots

namespace Orderly

variable {interner after : Interner} {supply next : Nat}

theorem empty (hashing : Hashing) : Orderly (Interner.empty hashing) :=
  ⟨List.nodup_nil, List.nodup_nil, .empty, .empty, fun _ h => absurd h List.not_mem_nil,
    fun _ h => absurd h List.not_mem_nil⟩

theorem eq_of_tokenKey (h : interner.Orderly) {a b : Token} (ha : a ∈ interner.tokens)
    (hb : b ∈ interner.tokens) (hkey : tokenKey a = tokenKey b) : a = b :=
  List.inj_on_of_nodup_map h.tokens ha hb hkey

theorem eq_of_nodeKey (h : interner.Orderly) {a b : Node} (ha : a ∈ interner.nodes)
    (hb : b ∈ interner.nodes) (hkey : nodeKey a = nodeKey b) : a = b :=
  List.inj_on_of_nodup_map h.nodes ha hb hkey

theorem annotations_eq_nil (h : interner.Orderly) {node : Node} (hkept : node ∈ interner.nodes) :
    node.annotations = [] := by
  rw [Node.annotations, h.plain node hkept]
  rfl

/-- **A token that is kept is found** under the hash of what it is asked for by. -/
theorem find?_token (h : interner.Orderly) {leading trailing : Trivia} {kind : Kind} {text : String}
    {kept : Token} (hkept : kept ∈ interner.tokens)
    (hkey : tokenKey kept = (kind, text, leading, trailing)) :
    interner.tokens.find? (tokenHash interner.hashing leading kind text trailing)
      (tokenMatches leading kind text trailing) = some kept :=
  h.tokensHashed.find?_eq_some hkept (tokenMatches_iff.2 hkey) (rehashToken_eq hkey)
    fun _ hfound hmatch => h.eq_of_tokenKey hfound hkept
      ((tokenMatches_iff.1 hmatch).trans hkey.symm)

/-- **A node that is kept is found** under the hash of what it is asked for by. -/
theorem find?_node (h : interner.Orderly) {kind : Kind} {shape : Shape} {slots : Array Element}
    {kept : Node} (hkept : kept ∈ interner.nodes)
    (hkey : nodeKey kept = (kind, shape, rowKey slots)) :
    interner.nodes.find? (nodeHash interner.hashing kind shape slots)
      (nodeMatches kind shape slots) = some kept :=
  h.nodesHashed.find?_eq_some hkept (nodeMatches_iff.2 ⟨hkey, h.annotations_eq_nil hkept⟩)
    (rehashNode_eq hkey) fun _ hfound hmatch => h.eq_of_nodeKey hfound hkept
      ((nodeMatches_iff.1 hmatch).1.trans hkey.symm)

theorem token_of_kept (h : interner.Orderly) {leading trailing : Trivia} {kind : Kind}
    {text : String} {kept : Token} (hkept : kept ∈ interner.tokens)
    (hkey : tokenKey kept = (kind, text, leading, trailing)) (supply : Nat) :
    interner.token leading kind text trailing supply = .ok (kept, interner) supply := by
  rw [token_of_find (h.find?_token hkept hkey)]
  rfl

theorem node_of_kept (h : interner.Orderly) {kind : Kind} {shape : Shape} {slots : Array Element}
    {kept : Node} (hkept : kept ∈ interner.nodes)
    (hkey : nodeKey kept = (kind, shape, rowKey slots)) (supply : Nat) :
    interner.node kind shape slots supply = .ok (kept, interner) supply := by
  have hrow : rowKey kept.slots = rowKey slots := congrArg (fun key => key.2.2) hkey
  have hsize : slots.size ≤ maxSlots := size_eq_of_rowKey hrow ▸ h.small kept hkept
  rw [node_of_find hsize (h.find?_node hkept hkey)]
  rfl

theorem withToken (h : interner.Orderly) {leading trailing : Trivia} {kind : Kind} {text : String}
    {given : Token} (hkey : tokenKey given = (kind, text, leading, trailing))
    (missed : interner.tokens.find? (tokenHash interner.hashing leading kind text trailing)
      (tokenMatches leading kind text trailing) = none) :
    (interner.withToken given (tokenHash interner.hashing leading kind text trailing)).Orderly := by
  refine { h with tokens := ?_, tokensHashed := h.tokensHashed.insert (rehashToken_eq hkey).symm }
  rw [Interner.withToken, Table.contents_insert, List.map_cons, List.nodup_cons]
  refine ⟨fun hmem => ?_, h.tokens⟩
  obtain ⟨kept, hkept, hsame⟩ := List.mem_map.1 hmem
  have hfound := h.find?_token hkept (hsame.trans hkey)
  rw [missed] at hfound
  cases hfound

theorem withNode (h : interner.Orderly) {kind : Kind} {shape : Shape} {slots : Array Element}
    {given : Node} (hkey : nodeKey given = (kind, shape, rowKey slots))
    (hnotes : given.head.notes = none) (hsmall : given.arity ≤ maxSlots)
    (missed : interner.nodes.find? (nodeHash interner.hashing kind shape slots)
      (nodeMatches kind shape slots) = none) :
    (interner.withNode given (nodeHash interner.hashing kind shape slots)).Orderly := by
  refine { h with
    nodes := ?_, nodesHashed := h.nodesHashed.insert (rehashNode_eq hkey).symm
    plain := fun node hnode => ?_, small := fun node hnode => ?_ }
  · rw [Interner.withNode, Table.contents_insert, List.map_cons, List.nodup_cons]
    refine ⟨fun hmem => ?_, h.nodes⟩
    obtain ⟨kept, hkept, hsame⟩ := List.mem_map.1 hmem
    have hfound := h.find?_node hkept (hsame.trans hkey)
    rw [missed] at hfound
    cases hfound
  · rcases Table.mem_insert.1 hnode with rfl | hold
    · exact hnotes
    · exact h.plain node hold
  · rcases Table.mem_insert.1 hnode with rfl | hold
    · exact hsmall
    · exact h.small node hold

/-- **Giving a token leaves each key there once.** -/
theorem token (h : interner.Orderly) {leading trailing : Trivia} {kind : Kind} {text : String}
    {given : Token}
    (hrun : interner.token leading kind text trailing supply = .ok (given, after) next) :
    after.Orderly := by
  obtain ⟨hkey, ⟨-, rfl⟩ | ⟨hnone, rfl⟩⟩ := token_cases hrun
  · exact h
  · exact h.withToken hkey hnone

/-- **Giving a node leaves each key there once.** -/
theorem node (h : interner.Orderly) {kind : Kind} {shape : Shape} {slots : Array Element}
    {given : Node} (hrun : interner.node kind shape slots supply = .ok (given, after) next) :
    after.Orderly := by
  obtain ⟨hkey, -, ⟨-, -, rfl⟩ | ⟨hslots, hnotes, ⟨hsize, hnone, rfl⟩ | ⟨-, rfl⟩⟩⟩ := node_cases hrun
  · exact h
  · refine h.withNode hkey hnotes ?_ hnone
    rw [Node.arity, hslots]
    exact hsize
  · exact h

end Orderly

/-! ## What is kept for good -/

/-- All that was kept still is. -/
structure Grows (before after : Interner) : Prop where
  tokens : ∀ t ∈ before.tokens, t ∈ after.tokens
  nodes : ∀ n ∈ before.nodes, n ∈ after.nodes

/-- A token is kept, and so is a node, unless it is large. -/
def Keeps (interner : Interner) : Element → Prop
  | .token t => t ∈ interner.tokens
  | .node head slots => slots.size ≤ maxSlots → (⟨head, slots⟩ : Node) ∈ interner.nodes

section

variable {interner after : Interner} {supply next : Nat}

theorem Grows.refl (interner : Interner) : interner.Grows interner :=
  ⟨fun _ h => h, fun _ h => h⟩

theorem Keeps.mono {e : Element} (h : interner.Keeps e) (hgrows : interner.Grows after) :
    after.Keeps e := by
  cases e with
  | token t => exact hgrows.tokens t h
  | node head slots => exact fun hsize => hgrows.nodes _ (h hsize)

theorem keeps_token {leading trailing : Trivia} {kind : Kind} {text : String} {given : Token}
    (h : interner.token leading kind text trailing supply = .ok (given, after) next) :
    after.Keeps (.token given) ∧ interner.Grows after := by
  obtain ⟨-, ⟨hkept, rfl⟩ | ⟨-, rfl⟩⟩ := token_cases h
  · exact ⟨hkept, Grows.refl _⟩
  · exact ⟨Table.mem_insert.2 (.inl rfl), fun _ ht => Table.mem_insert.2 (.inr ht), fun _ => id⟩

theorem keeps_node {kind : Kind} {shape : Shape} {slots : Array Element} {given : Node}
    (h : interner.node kind shape slots supply = .ok (given, after) next) :
    after.Keeps given.toElement ∧ interner.Grows after := by
  obtain ⟨-, -, ⟨-, hkept, rfl⟩ | ⟨hslots, -, ⟨-, -, rfl⟩ | ⟨hlarge, rfl⟩⟩⟩ := node_cases h
  · exact ⟨fun _ => hkept, Grows.refl _⟩
  · exact ⟨fun _ => Table.mem_insert.2 (.inl rfl), fun _ => id,
      fun _ hn => Table.mem_insert.2 (.inr hn)⟩
  · refine ⟨fun hsize => ?_, Grows.refl _⟩
    rw [hslots] at hsize
    exact absurd hsize (Nat.not_le.2 hlarge)

end

end LosslessSyntax.Interner
