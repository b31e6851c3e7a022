import LosslessSyntax.Placed.Cursor
import LosslessSyntax.Proofs.Placed.Answer

/-!
# What is in the slots of a node

The parts in the slots of a node are known before anything is placed: each is the green part in the
slot, where the texts before it end. The queries for a slot answer with them.

* `Placed.Node.below?`: the part in a slot;
* `Placed.Node.tokenAt_eq`, `Placed.Node.placeNode_answers`: a single token, and a single node;
* **`Placed.Node.slotAt_answers`**, **`Placed.Node.nodeAt_answers`**: what a slot is found to hold, or
  why it is not;
* **`Placed.Node.slotAt_gives`** and its like: it is found but for slot numbers that are too large.
-/

namespace LosslessSyntax.Placed

/-- The part in a slot, if there is one of that number. -/
def Node.below? (node : Node) (slot : Nat) : Option Element :=
  match node.green.slots[slot]? with
  | none => none
  | some (.token green) => some (.token (node.tokenBelow slot green))
  | some (.node head slots) => some (.node (node.nodeBelow slot ⟨head, slots⟩))

section

variable {tree : Tree} {node : Node} {slot : Nat} {element : Element}

theorem Node.below?_of_token {green : Green.Token}
    (found : node.green.slots[slot]? = some (.token green)) :
    node.below? slot = some (.token (node.tokenBelow slot green)) := by
  rw [below?, found]

theorem Node.below?_of_node {head : Green.Head} {slots : Array Green.Element}
    (found : node.green.slots[slot]? = some (.node head slots)) :
    node.below? slot = some (.node (node.nodeBelow slot ⟨head, slots⟩)) := by
  rw [below?, found]

theorem Node.below?_green (h : node.below? slot = some element) :
    node.green.slots[slot]? = some element.green := by
  unfold below? at h
  split at h
  · cases h
  · next green found =>
    cases h
    exact found
  · next head slots found =>
    cases h
    exact found

theorem Node.below?_path (h : node.below? slot = some element) :
    element.path = node.path ++ [slot] := by
  unfold below? at h
  split at h
  · cases h
  · cases h
    rfl
  · cases h
    exact node.nodeBelow_path slot _

theorem Node.below?_parent (h : node.below? slot = some element) :
    element.parent? = some node ∧ element.index = slot := by
  unfold below? at h
  split at h <;> cases h <;> exact ⟨rfl, rfl⟩

theorem Node.below?_start (h : node.below? slot = some element) :
    element.start = node.start + node.green.before slot := by
  unfold below? at h
  split at h <;> cases h <;> rfl

theorem Node.Stands.below? (standing : node.Stands tree) (h : node.below? slot = some element) :
    element.Stands tree := by
  unfold Node.below? at h
  split at h
  · cases h
  · next green found =>
    cases h
    exact Token.Stands.child standing found
  · next head slots found =>
    cases h
    exact Node.Stands.child standing found

theorem Node.below?_isSome : (node.below? slot).isSome = true ↔ slot < node.arity := by
  unfold below?
  rw [show node.arity = node.green.slots.size from rfl]
  split
  · next h => simpa using Array.getElem?_eq_none_iff.1 h
  · next h => simpa using (Array.getElem?_eq_some_iff.1 h).1
  · next h => simpa using (Array.getElem?_eq_some_iff.1 h).1

theorem Node.below?_eq_none_iff : node.below? slot = none ↔ node.arity ≤ slot := by
  rw [← Nat.not_lt, ← Node.below?_isSome, Option.isSome_iff_ne_none, not_not]

theorem Element.Stands.below?_eq (standing : element.Stands tree) {parent : Node}
    (h : element.parent? = some parent) :
    parent.Stands tree ∧ parent.below? element.index = some element := by
  cases element with
  | node n =>
    cases standing with
    | root => cases h
    | child standing found =>
      cases h
      exact ⟨standing, Node.below?_of_node found⟩
  | token t =>
    cases standing with
    | child standing found =>
      cases h
      exact ⟨standing, Node.below?_of_token found⟩

end

/-! ## Queries for a slot -/

section

variable {tree : Tree} {node : Node} {slot : Nat}

theorem Node.tokenAt_eq (standing : node.Stands tree) (fits : tree.Fits) {green : Green.Token}
    (found : node.green.slots[slot]? = some (.token green)) :
    node.tokenAt slot green = (checkSlot slot).map fun _ => node.tokenBelow slot green := by
  have htidy := (standing.wellFormed fits).tidy
  rw [tokenAt, htidy.offsetAt_eq (Green.Node.lt_arity_of_slot found)]
  change (addSize node.start (node.green.before slot)).bind _ = _
  rw [standing.addSize_before fits slot]
  cases checkSlot slot <;> rfl

theorem Node.placeNode_answers (standing : node.Stands tree) (fits : tree.Fits) {head : Green.Head}
    {slots : Array Green.Element} (found : node.green.slots[slot]? = some (.node head slots)) :
    Query.Answers tree (node.placeNode slot ⟨head, slots⟩)
      ((checkSlot slot).map fun _ => node.nodeBelow slot ⟨head, slots⟩) := by
  have h := placeNode_answer standing found
  rw [Node.placing_eq standing fits found] at h
  cases hslot : checkSlot slot with
  | ok _ =>
    rw [hslot] at h
    exact h
  | error violation =>
    rw [hslot] at h
    exact h

/-- **What is in a slot, or why it cannot be placed.** -/
theorem Node.slotAt_answers (standing : node.Stands tree) (fits : tree.Fits) (slot : Nat) :
    Query.Answers tree (node.slotAt slot) (match node.below? slot with
      | none => .error (node.green.noSlot slot)
      | some element => (checkSlot slot).map fun _ => element) := by
  unfold slotAt
  cases hfound : node.green.slots[slot]? with
  | none =>
    rw [below?, Green.Node.slotAt, Green.Node.slot?, hfound]
    exact (Query.Answers.lift _).bind_error
  | some e =>
    rw [Green.Node.slotAt, Green.Node.slot?, hfound]
    refine (Query.Answers.lift (.ok e)).bind_ok ?_
    cases e with
    | token green =>
      dsimp only
      rw [below?_of_token hfound, tokenAt_eq standing fits hfound]
      cases checkSlot slot with
      | ok _ => exact (Query.Answers.lift (.ok _)).bind_ok (Query.Answers.pure _)
      | error violation => exact (Query.Answers.lift _).bind_error
    | node head slots =>
      dsimp only
      have hplace := placeNode_answers standing fits hfound
      rw [below?_of_node hfound]
      cases hslot : checkSlot slot with
      | ok _ =>
        rw [hslot] at hplace
        exact Query.Answers.bind_ok hplace (Query.Answers.pure _)
      | error violation =>
        rw [hslot] at hplace
        exact Query.Answers.bind_error hplace

theorem Node.nodeAt_answers (standing : node.Stands tree) (fits : tree.Fits) (slot : Nat) :
    Query.Answers tree (node.nodeAt slot) (match node.below? slot with
      | none => .error (node.green.noSlot slot)
      | some (.token _) => .ok none
      | some (.node below) => (checkSlot slot).map fun _ => some below) := by
  unfold nodeAt
  cases hfound : node.green.slots[slot]? with
  | none =>
    rw [below?, Green.Node.slotAt, Green.Node.slot?, hfound]
    exact (Query.Answers.lift _).bind_error
  | some e =>
    rw [Green.Node.slotAt, Green.Node.slot?, hfound]
    refine (Query.Answers.lift (.ok e)).bind_ok ?_
    cases e with
    | token green =>
      rw [below?_of_token hfound]
      exact Query.Answers.pure _
    | node head slots =>
      dsimp only
      have hplace := placeNode_answers standing fits hfound
      rw [below?_of_node hfound]
      cases hslot : checkSlot slot with
      | ok _ =>
        rw [hslot] at hplace
        exact Query.Answers.bind_ok hplace (Query.Answers.pure _)
      | error violation =>
        rw [hslot] at hplace
        exact Query.Answers.bind_error hplace

end

/-! ## Slots that hold a part -/

section

variable {tree : Tree} {node : Node} {slot : Nat}

theorem Node.checkSlot_gives (standing : node.Stands tree) (h : slot < node.arity) {α : Type}
    {query : Query α} {value : α}
    (hquery : Query.Answers tree query ((checkSlot slot).map fun _ => value)) :
    Query.Gives tree query (.ok value) := by
  refine ⟨_, hquery, ?_⟩
  by_cases hslot : slot ≤ maxSlot
  · exact .inl (by rw [checkSlot, if_pos hslot]; rfl)
  · refine .inr ⟨by rw [checkSlot, if_neg hslot]; rfl, fun narrow => hslot ?_⟩
    have harity : node.arity ≤ UInt32.size := narrow node.path node.green standing.at?
    have hsize : UInt32.size = maxSlot + 1 := rfl
    omega

/-- **A slot holds its part.** -/
theorem Node.slotAt_gives (standing : node.Stands tree) (fits : tree.Fits) {element : Element}
    (h : node.below? slot = some element) :
    Query.Gives tree (node.slotAt slot) (.ok element) := by
  have hslot : slot < node.arity := Node.below?_isSome.1 (h ▸ rfl)
  have hanswer := node.slotAt_answers standing fits slot
  rw [h] at hanswer
  exact checkSlot_gives standing hslot hanswer

theorem Node.slot?_gives (standing : node.Stands tree) (fits : tree.Fits) (slot : Nat) :
    Query.Gives tree (node.slot? slot) (.ok (node.below? slot)) := by
  unfold slot?
  split_ifs with hslot
  · obtain ⟨element, h⟩ := Option.isSome_iff_exists.1 (Node.below?_isSome.2 hslot)
    rw [h]
    exact (Node.slotAt_gives standing fits h).map some
  · rw [Node.below?_eq_none_iff.2 (Nat.le_of_not_lt hslot)]
    exact Query.Gives.pure none

theorem Node.nodeAt_gives (standing : node.Stands tree) (fits : tree.Fits) {element : Element}
    (h : node.below? slot = some element) :
    Query.Gives tree (node.nodeAt slot) (.ok element.node?) := by
  have hslot : slot < node.arity := Node.below?_isSome.1 (h ▸ rfl)
  have hanswer := node.nodeAt_answers standing fits slot
  rw [h] at hanswer
  cases element with
  | token t => exact hanswer.gives
  | node n => exact checkSlot_gives standing hslot hanswer

theorem Node.tokenAt_gives (standing : node.Stands tree) (fits : tree.Fits) {green : Green.Token}
    (found : node.green.slots[slot]? = some (.token green)) :
    Query.Gives tree (liftM (node.tokenAt slot green)) (.ok (node.tokenBelow slot green)) := by
  refine checkSlot_gives standing (Green.Node.lt_arity_of_slot found) ?_
  rw [tokenAt_eq standing fits found]
  exact Query.Answers.lift _

theorem Node.placeNode_gives (standing : node.Stands tree) (fits : tree.Fits) {head : Green.Head}
    {slots : Array Green.Element} (found : node.green.slots[slot]? = some (.node head slots)) :
    Query.Gives tree (node.placeNode slot ⟨head, slots⟩) (.ok (node.nodeBelow slot ⟨head, slots⟩)) :=
  checkSlot_gives standing (Green.Node.lt_arity_of_slot found) (placeNode_answers standing fits found)

end

end LosslessSyntax.Placed
