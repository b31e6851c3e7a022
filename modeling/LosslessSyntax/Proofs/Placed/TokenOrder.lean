import LosslessSyntax.Placed.TokenOrder
import LosslessSyntax.Proofs.Placed.Parts

/-!
# The row of all tokens

The tokens of a tree stand in one row. A place in the tree, which is a slot of a node, cuts the row
in two: what is before the place and what comes from there on. The searches for tokens give the
tokens next to such a cut.

* `Placed.Node.tokensFrom`, `Placed.Node.tokensBefore`: the tokens of a node on both sides of a slot;
* `Placed.Node.tokensOnward`, `Placed.Node.tokensBack`: those of the whole tree;
* **`Placed.Node.Stands.tokens_cut`**: the two together are all tokens of the tree;
* `Placed.Node.firstToken?_gives`, `Placed.Node.lastToken?_gives`: the outermost tokens;
* **`Placed.Token.Stands.neighbours`**: the tokens beside a token.
-/

namespace LosslessSyntax.Placed

/-- The tokens of an element. -/
def Element.tokens (element : Element) : List Token := element.parts.filterMap Element.token?

namespace Node

/-- The tokens in a slot. -/
def tokensIn (node : Node) (slot : Nat) : List Token := (node.below? slot).elim [] Element.tokens

/-- The tokens in the slots of a node from one on. -/
def tokensFrom (node : Node) (slot : Nat) : List Token :=
  (List.range' slot (node.arity - slot)).flatMap node.tokensIn

/-- The tokens in the slots of a node before one. -/
def tokensBefore (node : Node) (slot : Nat) : List Token := (List.range slot).flatMap node.tokensIn

/-- The tokens of the tree from a slot of a node on. -/
def tokensOnward : Node → Nat → List Token
  | root tree start green, slot => (root tree start green).tokensFrom slot
  | child parent index start address green, slot =>
    (child parent index start address green).tokensFrom slot ++ parent.tokensOnward (index + 1)

/-- The tokens of the tree before a slot of a node. -/
def tokensBack : Node → Nat → List Token
  | root tree start green, slot => (root tree start green).tokensBefore slot
  | child parent index start address green, slot =>
    parent.tokensBack index ++ (child parent index start address green).tokensBefore slot

end Node

section

variable {tree : Tree} {node : Node} {slot : Nat}

theorem Node.tokens_eq (node : Node) :
    node.tokens = (List.range node.arity).flatMap node.tokensIn := by
  rw [tokens, parts_eq, List.filterMap_flatMap]
  refine List.flatMap_congr fun slot _ => ?_
  rw [partsIn, tokensIn]
  cases node.below? slot <;> rfl

theorem Node.tokensFrom_zero (node : Node) : node.tokensFrom 0 = node.tokens := by
  rw [tokensFrom, tokens_eq, Nat.sub_zero, List.range_eq_range']

theorem Node.tokensBefore_arity (node : Node) : node.tokensBefore node.arity = node.tokens :=
  node.tokens_eq.symm

theorem Node.tokensFrom_next (h : slot < node.arity) :
    node.tokensFrom slot = node.tokensIn slot ++ node.tokensFrom (slot + 1) := by
  rw [tokensFrom, tokensFrom, ← List.flatMap_cons, ← List.range'_succ,
    show node.arity - (slot + 1) + 1 = node.arity - slot by omega]

theorem Node.tokensFrom_none (h : node.arity ≤ slot) : node.tokensFrom slot = [] := by
  rw [tokensFrom, Nat.sub_eq_zero_of_le h]
  rfl

theorem Node.tokensBefore_succ (node : Node) (slot : Nat) :
    node.tokensBefore (slot + 1) = node.tokensBefore slot ++ node.tokensIn slot := by
  rw [tokensBefore, tokensBefore, List.range_succ, List.flatMap_append, List.flatMap_singleton]

theorem Node.tokens_split (h : slot ≤ node.arity) :
    node.tokens = node.tokensBefore slot ++ node.tokensFrom slot := by
  induction slot with
  | zero => rw [tokensFrom_zero]; rfl
  | succ slot ih =>
    rw [ih (by omega), tokensFrom_next (by omega), tokensBefore_succ, List.append_assoc]

theorem Node.tokensOnward_next (h : slot < node.arity) :
    node.tokensOnward slot = node.tokensIn slot ++ node.tokensOnward (slot + 1) := by
  cases node with
  | root tree start green => exact tokensFrom_next h
  | child parent index start address green =>
    rw [tokensOnward, tokensOnward, tokensFrom_next h, List.append_assoc]

theorem Node.nodeBelow_tokensOnward (parent : Node) (index slot : Nat) (green : Green.Node) :
    (parent.nodeBelow index green).tokensOnward slot =
      (parent.nodeBelow index green).tokensFrom slot ++ parent.tokensOnward (index + 1) := rfl

theorem Node.nodeBelow_tokensBack (parent : Node) (index slot : Nat) (green : Green.Node) :
    (parent.nodeBelow index green).tokensBack slot =
      parent.tokensBack index ++ (parent.nodeBelow index green).tokensBefore slot := rfl

/-- **A slot of a node cuts the row of all tokens in two.** -/
theorem Node.Stands.tokens_cut (standing : node.Stands tree) (h : slot ≤ node.arity) :
    tree.root.tokens = node.tokensBack slot ++ node.tokensOnward slot := by
  induction standing generalizing slot with
  | root => exact tokens_split h
  | @child parent index head slots standing found ih =>
    have hindex : index < parent.arity := Green.Node.lt_arity_of_slot found
    have hin : parent.tokensIn index = (parent.nodeBelow index ⟨head, slots⟩).tokens := by
      rw [tokensIn, below?_of_node found]
      rfl
    rw [ih (Nat.le_of_lt hindex), tokensOnward_next hindex, hin, tokens_split h,
      nodeBelow_tokensOnward, nodeBelow_tokensBack]
    simp only [List.append_assoc]

end

/-! ## The searches -/

section

variable {tree : Tree} {node : Node}

theorem Node.tokensIn_of_token {slot : Nat} {green : Green.Token}
    (found : node.green.slots[slot]? = some (.token green)) :
    node.tokensIn slot = [node.tokenBelow slot green] := by
  rw [tokensIn, below?_of_token found]
  rfl

theorem Node.tokensIn_of_node {slot : Nat} {head : Green.Head} {slots : Array Green.Element}
    (found : node.green.slots[slot]? = some (.node head slots)) :
    node.tokensIn slot = (node.nodeBelow slot ⟨head, slots⟩).tokens := by
  rw [tokensIn, below?_of_node found]
  rfl

theorem Node.firstTokenFrom?_eq (node : Node) (slot : Nat) : node.firstTokenFrom? slot =
    (match node.green.slots[slot]? with
    | none => return none
    | some (.token green) => return some (← node.tokenAt slot green)
    | some (.node head slots) => do
      let below := (← node.placeNode slot ⟨head, slots⟩).withGreen ⟨head, slots⟩
      match ← firstTokenFrom? below 0 with
      | some token => return some token
      | none => firstTokenFrom? node (slot + 1)) := by
  rw [firstTokenFrom?.eq_def]
  cases node.green.slots[slot]? with
  | none => rfl
  | some e => cases e <;> rfl

/-- **The first token from a slot on.** -/
theorem Node.firstTokenFrom?_gives (standing : node.Stands tree) (fits : tree.Fits) (slot : Nat) :
    Query.Gives tree (node.firstTokenFrom? slot) (.ok (node.tokensFrom slot).head?) := by
  induction node using Node.descend generalizing slot with
  | step node ih =>
    induction hcount : node.arity - slot generalizing slot with
    | zero =>
      have hnone : node.arity ≤ slot := Nat.le_of_sub_eq_zero hcount
      have hfound : node.green.slots[slot]? = none := Array.getElem?_eq_none hnone
      rw [firstTokenFrom?_eq, hfound, tokensFrom_none hnone]
      exact Query.Gives.pure none
    | succ count ihslot =>
      have hslot : slot < node.arity := by omega
      obtain ⟨e, hfound⟩ : ∃ e, node.green.slots[slot]? = some e :=
        ⟨_, Array.getElem?_eq_getElem hslot⟩
      rw [firstTokenFrom?_eq, hfound, tokensFrom_next hslot]
      cases e with
      | token green =>
        rw [tokensIn_of_token hfound]
        exact (tokenAt_gives standing fits hfound).bind_ok (Query.Gives.pure _)
      | node head slots =>
        have hbelow := below?_of_node hfound
        have hfirst := ih slot _ hbelow (standing.below? hbelow) 0
        rw [tokensFrom_zero, ← tokensIn_of_node hfound] at hfirst
        refine (placeNode_gives standing fits hfound).bind_ok (Query.Gives.bind_ok hfirst ?_)
        cases hrow : node.tokensIn slot with
        | cons token rest => exact Query.Gives.pure _
        | nil => exact ihslot (slot + 1) (by omega)

theorem Node.lastTokenBefore?_eq (node : Node) (slot : Nat) : node.lastTokenBefore? (slot + 1) =
    (match node.green.slots[slot]? with
    | none => lastTokenBefore? node slot
    | some (.token green) => return some (← node.tokenAt slot green)
    | some (.node head slots) => do
      let below := (← node.placeNode slot ⟨head, slots⟩).withGreen ⟨head, slots⟩
      match ← lastTokenBefore? below slots.size with
      | some token => return some token
      | none => lastTokenBefore? node slot) := by
  rw [lastTokenBefore?.eq_def]
  dsimp only
  cases node.green.slots[slot]? with
  | none => rfl
  | some e => cases e <;> rfl

/-- **The last token before a slot.** -/
theorem Node.lastTokenBefore?_gives (standing : node.Stands tree) (fits : tree.Fits) {slot : Nat}
    (h : slot ≤ node.arity) :
    Query.Gives tree (node.lastTokenBefore? slot) (.ok (node.tokensBefore slot).getLast?) := by
  induction node using Node.descend generalizing slot with
  | step node ih =>
    induction slot with
    | zero =>
      rw [lastTokenBefore?]
      exact Query.Gives.pure none
    | succ slot ihslot =>
      obtain ⟨e, hfound⟩ : ∃ e, node.green.slots[slot]? = some e :=
        ⟨_, Array.getElem?_eq_getElem h⟩
      rw [lastTokenBefore?_eq, hfound, tokensBefore_succ, List.getLast?_append]
      cases e with
      | token green =>
        rw [tokensIn_of_token hfound]
        exact (tokenAt_gives standing fits hfound).bind_ok (Query.Gives.pure _)
      | node head slots =>
        have hbelow := below?_of_node hfound
        have hlast := ih slot _ hbelow (standing.below? hbelow) (Nat.le_refl _)
        rw [tokensBefore_arity, ← tokensIn_of_node hfound] at hlast
        refine (placeNode_gives standing fits hfound).bind_ok (Query.Gives.bind_ok hlast ?_)
        cases (node.tokensIn slot).getLast? with
        | some token => exact Query.Gives.pure _
        | none => exact ihslot (by omega)

theorem Node.firstToken?_gives (standing : node.Stands tree) (fits : tree.Fits)
    : Query.Gives tree node.firstToken? (.ok node.tokens.head?) := by
  have h := firstTokenFrom?_gives standing fits 0
  rwa [tokensFrom_zero] at h

theorem Node.lastToken?_gives (standing : node.Stands tree) (fits : tree.Fits)
    : Query.Gives tree node.lastToken? (.ok node.tokens.getLast?) := by
  have h := lastTokenBefore?_gives standing fits (Nat.le_refl node.arity)
  rwa [tokensBefore_arity] at h

/-! ## Beyond the node -/

theorem Node.tokenFrom?_gives (standing : node.Stands tree) (fits : tree.Fits) (slot : Nat) :
    Query.Gives tree (node.tokenFrom? slot) (.ok (node.tokensOnward slot).head?) := by
  induction standing generalizing slot with
  | root => exact firstTokenFrom?_gives .root fits slot
  | @child parent index head slots standing found ih =>
    have hfirst := firstTokenFrom?_gives (.child standing found) fits slot
    rw [nodeBelow_tokensOnward, List.head?_append]
    refine Query.Gives.bind_ok hfirst ?_
    cases ((parent.nodeBelow index ⟨head, slots⟩).tokensFrom slot).head? with
    | some token => exact Query.Gives.pure _
    | none => exact ih (index + 1)

theorem Node.tokenBefore?_gives (standing : node.Stands tree) (fits : tree.Fits) {slot : Nat}
    (h : slot ≤ node.arity) :
    Query.Gives tree (node.tokenBefore? slot) (.ok (node.tokensBack slot).getLast?) := by
  induction standing generalizing slot with
  | root => exact lastTokenBefore?_gives .root fits h
  | @child parent index head slots standing found ih =>
    have hlast := lastTokenBefore?_gives (.child standing found) fits h
    rw [nodeBelow_tokensBack, List.getLast?_append]
    refine Query.Gives.bind_ok hlast ?_
    cases ((parent.nodeBelow index ⟨head, slots⟩).tokensBefore slot).getLast? with
    | some token => exact Query.Gives.pure _
    | none => exact ih (Nat.le_of_lt (Green.Node.lt_arity_of_slot found))

/-- **The tokens beside a token are those beside it in the row of all tokens.** -/
theorem Token.Stands.neighbours {token : Token} (standing : token.Stands tree) (fits : tree.Fits)
    : ∃ before after, tree.root.tokens = before ++ token :: after ∧
      Query.Gives tree token.next? (.ok after.head?) ∧
      Query.Gives tree token.previous? (.ok before.getLast?) := by
  cases standing with
  | @child parent slot green standing found =>
    have hslot : slot < parent.arity := Green.Node.lt_arity_of_slot found
    refine ⟨parent.tokensBack slot, parent.tokensOnward (slot + 1), ?_,
      Node.tokenFrom?_gives standing fits (slot + 1),
      Node.tokenBefore?_gives standing fits (Nat.le_of_lt hslot)⟩
    rw [standing.tokens_cut (Nat.le_of_lt hslot), Node.tokensOnward_next hslot,
      Node.tokensIn_of_token found]
    rfl

end

end LosslessSyntax.Placed
