import LosslessSyntax.Placed.Memo
import LosslessSyntax.Proofs.Placed.Slot

/-!
# The parts below a node

All parts below a node, in the order of the text and each node before what is in its slots, are a
list that is known before anything is placed. It is made of the lists of its slots.

* `Placed.Node.partsFrom`, `Placed.Element.parts`: the parts in the slots of a node from one on, and
  all parts of an element;
* `Placed.Node.tokens`: the tokens among them;
* `Placed.Node.descend`: induction from the nodes in the slots of a node to the node;
* **`Placed.Node.parts_eq`**: the parts of a node are those of its slots;
* `Placed.Node.Stands.of_mem_parts`, `Placed.Node.Stands.inside`: they stand in the tree, and
  within the stretch of the node.
-/

namespace LosslessSyntax.Placed

/-- The parts in the slots of a node from `slot` on and all below them. -/
def Node.partsFrom (node : Node) (slot : Nat) : List Element :=
  match _found : node.green.slots[slot]? with
  | none => []
  | some (.token green) => .token (node.tokenBelow slot green) :: partsFrom node (slot + 1)
  | some (.node head slots) =>
    .node (node.nodeBelow slot ⟨head, slots⟩) ::
      (partsFrom (node.nodeBelow slot ⟨head, slots⟩) 0 ++ partsFrom node (slot + 1))
termination_by (sizeOf node.green, node.arity - slot)
decreasing_by
  · exact .right _ (Nat.sub_succ_lt_self _ _ (Node.lt_arity_of_slot (by assumption)))
  · exact .left _ _ (Node.sizeOf_lt_of_slot (by assumption))
  · exact .right _ (Nat.sub_succ_lt_self _ _ (Node.lt_arity_of_slot (by assumption)))

/-- The parts below a node. -/
def Node.parts (node : Node) : List Element := node.partsFrom 0

/-- An element and the parts below it. -/
def Element.parts : Element → List Element
  | node n => node n :: n.parts
  | token t => [token t]

/-- The parts in a slot. -/
def Node.partsIn (node : Node) (slot : Nat) : List Element :=
  (node.below? slot).elim [] Element.parts

/-- The tokens below a node. -/
def Node.tokens (node : Node) : List Token := node.parts.filterMap Element.token?

section

variable {tree : Tree} {node : Node}

/-- What holds of a node as soon as it holds of the nodes in its slots holds of all nodes. -/
@[elab_as_elim]
theorem Node.descend {motive : Node → Prop}
    (step : ∀ node, (∀ slot below, node.below? slot = some (.node below) → motive below) →
      motive node) (node : Node) : motive node :=
  step node fun _ below _ => descend step below
termination_by sizeOf node.green
decreasing_by exact Node.sizeOf_lt_of_slot (Node.below?_green (by assumption))

theorem Node.partsFrom_none {slot : Nat} (h : node.arity ≤ slot) : node.partsFrom slot = [] := by
  have hnone : node.green.slots[slot]? = none := Array.getElem?_eq_none h
  unfold partsFrom
  split <;> simp_all

theorem Node.partsFrom_next {slot : Nat} (h : slot < node.arity) :
    node.partsFrom slot = node.partsIn slot ++ node.partsFrom (slot + 1) := by
  rw [partsFrom.eq_def, partsIn]
  split
  · next found => exact absurd h (Nat.not_lt.2 (Array.getElem?_eq_none_iff.1 found))
  · next green found => rw [below?_of_token found]; rfl
  · next head slots found => rw [below?_of_node found]; rfl

theorem Node.partsFrom_eq (node : Node) (slot : Nat) : node.partsFrom slot =
    (List.range' slot (node.arity - slot)).flatMap node.partsIn := by
  induction hcount : node.arity - slot generalizing slot with
  | zero => exact partsFrom_none (Nat.le_of_sub_eq_zero hcount)
  | succ count ih =>
    rw [partsFrom_next (by omega), List.range'_succ, List.flatMap_cons, ih (slot + 1) (by omega)]

/-- **The parts below a node are those in its slots, slot by slot.** -/
theorem Node.parts_eq (node : Node) : node.parts = (List.range node.arity).flatMap node.partsIn := by
  rw [parts, partsFrom_eq, Nat.sub_zero, List.range_eq_range']

/-- A slot cuts the parts of its node in three. -/
theorem Node.parts_split {slot : Nat} (h : slot < node.arity) : node.parts =
    (List.range slot).flatMap node.partsIn ++ (node.partsIn slot ++ node.partsFrom (slot + 1)) := by
  rw [← partsFrom_next h, partsFrom_eq, parts_eq, ← List.flatMap_append, List.range_eq_range',
    List.range_eq_range', show List.range' slot (node.arity - slot) =
      List.range' (0 + slot) (node.arity - slot) by rw [Nat.zero_add], List.range'_append_1,
    Nat.add_sub_cancel' (Nat.le_of_lt h)]

theorem Node.mem_parts {element : Element} : element ∈ node.parts ↔
    ∃ slot below, node.below? slot = some below ∧ element ∈ below.parts := by
  rw [parts_eq, List.mem_flatMap]
  constructor
  · rintro ⟨slot, -, h⟩
    unfold partsIn at h
    cases hbelow : node.below? slot with
    | none =>
      rw [hbelow] at h
      exact absurd h List.not_mem_nil
    | some below =>
      rw [hbelow] at h
      exact ⟨slot, below, hbelow, h⟩
  · rintro ⟨slot, below, hbelow, h⟩
    refine ⟨slot, List.mem_range.2 (below?_isSome.1 (hbelow ▸ rfl)), ?_⟩
    rw [partsIn, hbelow]
    exact h

theorem Node.Stands.of_mem_parts (standing : node.Stands tree) {element : Element}
    (h : element ∈ node.parts) : element.Stands tree := by
  induction node using Node.descend with
  | step node ih =>
    obtain ⟨slot, below, hbelow, h⟩ := Node.mem_parts.1 h
    have hstanding := standing.below? hbelow
    cases below with
    | token t =>
      rw [Element.parts, List.mem_singleton] at h
      exact h ▸ hstanding
    | node n =>
      rcases List.mem_cons.1 h with rfl | h
      · exact hstanding
      · exact ih slot n hbelow hstanding h

/-- The length of the text of an element. -/
def Element.width (element : Element) : Nat := element.green.width

theorem Node.Stands.below?_inside (standing : node.Stands tree) (fits : tree.Fits) {slot : Nat}
    {below : Element} (h : node.below? slot = some below) :
    node.start ≤ below.start ∧ below.start + below.width = node.start + node.green.before (slot + 1) ∧
      below.start + below.width ≤ node.start + node.width := by
  have hsucc := Green.Node.before_succ (Node.below?_green h)
  have hle := node.green.before_le (slot + 1)
  rw [← (standing.wellFormed fits).tidy.width_eq] at hle
  rw [Node.below?_start h, Element.width, hsucc] at *
  change _ ∧ _ ∧ _ ≤ node.start + node.green.width
  omega

/-- **What is below a node lies within the node.** -/
theorem Node.Stands.inside (standing : node.Stands tree) (fits : tree.Fits) {element : Element}
    (h : element ∈ node.parts) :
    node.start ≤ element.start ∧ element.start + element.width ≤ node.start + node.width := by
  induction node using Node.descend with
  | step node ih =>
    obtain ⟨slot, below, hbelow, h⟩ := Node.mem_parts.1 h
    have hstanding := standing.below? hbelow
    obtain ⟨h1, -, h2⟩ := standing.below?_inside fits hbelow
    cases below with
    | token t =>
      rw [Element.parts, List.mem_singleton] at h
      exact h ▸ ⟨h1, h2⟩
    | node n =>
      rcases List.mem_cons.1 h with rfl | h
      · exact ⟨h1, h2⟩
      · obtain ⟨h3, h4⟩ := ih slot n hbelow hstanding h
        have hstart : (Element.node n).start = n.start := rfl
        have hwidth : (Element.node n).width = n.width := rfl
        omega

theorem Element.Stands.inside_parts {element part : Element} (standing : element.Stands tree)
    (fits : tree.Fits) (h : part ∈ element.parts) :
    element.start ≤ part.start ∧ part.start + part.width ≤ element.start + element.width := by
  cases element with
  | token t =>
    rw [Element.parts, List.mem_singleton] at h
    exact h ▸ ⟨Nat.le_refl _, Nat.le_refl _⟩
  | node n =>
    rcases List.mem_cons.1 h with rfl | h
    · exact ⟨Nat.le_refl _, Nat.le_refl _⟩
    · exact Node.Stands.inside standing fits h

theorem Node.Stands.inside_partsIn (standing : node.Stands tree) (fits : tree.Fits) {slot : Nat}
    {element : Element} (h : element ∈ node.partsIn slot) :
    node.start + node.green.before slot ≤ element.start ∧
      element.start + element.width ≤ node.start + node.green.before (slot + 1) := by
  unfold Node.partsIn at h
  cases hbelow : node.below? slot with
  | none =>
    rw [hbelow] at h
    exact absurd h List.not_mem_nil
  | some below =>
    rw [hbelow] at h
    have hstart := Node.below?_start hbelow
    have hstop := (standing.below?_inside fits hbelow).2.1
    have hinside := (standing.below? hbelow).inside_parts fits h
    omega

end

end LosslessSyntax.Placed
