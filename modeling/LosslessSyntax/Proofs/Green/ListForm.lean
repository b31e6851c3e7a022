import LosslessSyntax.Proofs.Green.Layout

/-!
# What is in the slots of a list

In a list that is separated nodes and tokens take turns, and a node comes first; in all other lists
there are only nodes.

* `Green.checkSlots_ok`: what the check of the slots lets pass;
* `Green.Node.Tidy.listShapeOf_ok`: the shape of a list is that of its slots;
* **`Green.Node.Tidy.isNode_slot`**: which slots of a list hold nodes.
-/

namespace LosslessSyntax.Green

theorem checkSlots_ok {separated : Bool} {slot : Nat} {row : List Element}
    (h : checkSlots separated slot row = .ok ()) (i : Nat) {e : Element} (he : row[i]? = some e) :
    (e.isNode = true → separated = false ∨ (slot + i) % 2 = 0) ∧
      (e.isNode = false → separated = true ∧ (slot + i) % 2 = 1) := by
  induction row generalizing slot i with
  | nil => simp at he
  | cons first rest ih =>
    have hfirst : (first.isNode = true → separated = false ∨ slot % 2 = 0) ∧
        (first.isNode = false → separated = true ∧ slot % 2 = 1) ∧
        checkSlots separated (slot + 1) rest = .ok () := by
      cases first with
      | token t =>
        rw [checkSlots] at h
        split_ifs at h with hrefused
        have hodd : separated = true ∧ slot % 2 = 1 := by
          cases separated <;> simp_all
        exact ⟨fun hnode => absurd hnode Bool.false_ne_true, fun _ => hodd, h⟩
      | node head slots =>
        rw [checkSlots] at h
        split_ifs at h with hrefused
        have heven : separated = false ∨ slot % 2 = 0 := by
          cases separated <;> simp_all
        exact ⟨fun _ => heven, fun htoken => absurd htoken.symm Bool.false_ne_true, h⟩
    cases i with
    | zero =>
      cases he
      exact ⟨hfirst.1, hfirst.2.1⟩
    | succ i =>
      rw [show slot + (i + 1) = slot + 1 + i by omega]
      exact ih hfirst.2.2 i he

namespace Node

variable {node : Node} {shape : ListShape}

theorem shape_of_listShape? (hshape : node.listShape? = some shape) : node.shape = .list shape := by
  unfold listShape? at hshape
  split at hshape
  · cases hshape
  · next s hs => rw [hs, Option.some.inj hshape]

theorem shape_of_listShape?_none (hshape : node.listShape? = none) : node.shape = .plain := by
  unfold listShape? at hshape
  split at hshape
  · assumption
  · cases hshape

theorem Tidy.exists_listShape (h : node.Tidy) (isList : node.kind.isList = true) :
    ∃ shape, node.listShape? = some shape := by
  have hshape := h.shape
  rw [HasShape, if_pos isList] at hshape
  obtain ⟨shape, hlist, -⟩ := hshape
  refine ⟨shape, ?_⟩
  rw [listShape?, hlist]

theorem Tidy.listShapeOf_ok (h : node.Tidy) (hshape : node.listShape? = some shape) :
    listShapeOf node.kind node.slots = .ok shape := by
  have hfull := h.shape
  rw [shape_of_listShape? hshape] at hfull
  unfold HasShape at hfull
  split_ifs at hfull
  obtain ⟨s, hs, hlist⟩ := hfull
  cases hs
  exact hlist

theorem Tidy.shape_eq_empty_iff (h : node.Tidy) (hshape : node.listShape? = some shape) :
    shape = .empty ↔ node.arity = 0 := by
  obtain ⟨-, -, hsize⟩ := Green.listShapeOf_ok (h.listShapeOf_ok hshape)
  rw [hsize]
  change _ ↔ node.slots.size = 0
  match node.slots.size with
  | 0 => simp
  | 1 => simp
  | count + 2 => split_ifs <;> simp

/-- **The slots of a list that hold nodes**: all, or every other one if it is separated. -/
theorem Tidy.isNode_slot (h : node.Tidy) (hshape : node.listShape? = some shape) {slot : Nat}
    {e : Element} (he : node.slots[slot]? = some e) :
    e.isNode = true ↔ shape ≠ .separated ∨ slot % 2 = 0 := by
  obtain ⟨-, hcheck, hsize⟩ := Green.listShapeOf_ok (h.listShapeOf_ok hshape)
  have hrow : node.slots.toList[slot]? = some e := by rwa [Array.getElem?_toList]
  have hslot := lt_arity_of_slot he
  obtain ⟨hnode, htoken⟩ := checkSlots_ok hcheck slot hrow
  rw [Nat.zero_add] at hnode htoken
  generalize (node.slots.any fun slot => !slot.isNode) = separated at hsize hnode htoken
  change slot < node.slots.size at hslot
  -- a row of one or no slots is never separated, so its only slot is even
  match hcount : node.slots.size with
  | 0 => omega
  | 1 =>
    have hzero : slot % 2 = 0 := by omega
    refine ⟨fun _ => .inr hzero, fun _ => ?_⟩
    by_contra hfalse
    have hodd := (htoken (Bool.eq_false_iff.2 hfalse)).2
    omega
  | count + 2 =>
    rw [hcount] at hsize
    change shape = if _ then _ else _ at hsize
    constructor
    · intro hisNode
      refine (hnode hisNode).imp_left fun hplain => ?_
      rw [hsize, hplain]
      exact fun hsame => nomatch hsame
    · intro hplace
      by_contra hfalse
      obtain ⟨hseparated, hodd⟩ := htoken (Bool.eq_false_iff.2 hfalse)
      rcases hplace with hplain | heven
      · rw [hsize, hseparated] at hplain
        exact hplain rfl
      · omega

end Node

end LosslessSyntax.Green
