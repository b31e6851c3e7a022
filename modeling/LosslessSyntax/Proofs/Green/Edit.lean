import LosslessSyntax.Proofs.Green.Equality
import LosslessSyntax.Proofs.Green.ListForm
import LosslessSyntax.Proofs.Green.Splice

/-!
# Edits that are taken back

An edit changes one slot of a row, and one more edit changes the row back: a part that was put in is
taken out again, a part that was taken out is put in again where it was. Whatever an edit makes of a
node is of the same kind, so the edit that changes the row back finds the shape that the node had
before; it gives the node again, but for the annotations.

* `Green.Node.Edit`, `Green.Node.Edit.apply`: the three edits of a node;
* `Green.Node.Edit.Changes`: what an edit makes of a row, and the edit that changes it back;
* `Green.Node.Edit.TakesBack`: edits that give a node again;
* **`Green.Node.Edit.Changes.apply_eq`**: an edit rebuilds a node over the changed row;
* **`Green.Node.Edit.Changes.refused`**, **`Green.Node.Edit.Changes.accepted`**: what comes of it.
-/

namespace LosslessSyntax.Green.Node

/-- What is done to a slot of a node. -/
inductive Edit where
  | replace (slot : Nat) (element : Element)
  | insert (slot : Nat) (element : Element)
  | remove (slot : Nat)

namespace Edit

/-- The node after an edit. -/
def apply (node : Node) : Edit → Make Node
  | .replace slot element => node.replaceSlot slot element
  | .insert slot element => node.insertSlot slot element
  | .remove slot => node.removeSlot slot

/-- Whether a node has the slot that is edited; one more element can come after all slots, too. -/
def InRange (node : Node) : Edit → Prop
  | .replace slot _ => slot < node.arity
  | .insert slot _ => slot ≤ node.arity
  | .remove slot => slot < node.arity

/-- An edit makes another row of a row, and a second edit changes it back. -/
inductive Changes : List Element → Edit → List Element → Edit → Prop
  | replace (left : List Element) (old new : Element) (right : List Element) :
      Changes (left ++ old :: right) (.replace left.length new) (left ++ new :: right)
        (.replace left.length old)
  | insert (left : List Element) (new : Element) (right : List Element) :
      Changes (left ++ right) (.insert left.length new) (left ++ new :: right)
        (.remove left.length)
  | remove (left : List Element) (old : Element) (right : List Element) :
      Changes (left ++ old :: right) (.remove left.length) (left ++ right)
        (.insert left.length old)

/-- Whatever identities are free, an edit makes of one node what another one is without its
annotations. -/
def TakesBack (back : Edit) (made node : Node) : Prop :=
  ∀ supply, ∃ again bare, back.apply made supply = .ok again (supply + 1) ∧
    node.annotate [] (supply + 1) = .ok bare (supply + 2) ∧
    again.toElement.equal bare.toElement = true

section

variable {node : Node} {row row' : List Element} {edit back : Edit}

/-! ## Rows -/

theorem insertIdx_length_append {α : Type} (left right : List α) (x : α) :
    (left ++ right).insertIdx left.length x = left ++ x :: right := by
  induction left with
  | nil => rfl
  | cons y left ih =>
    rw [List.cons_append, List.length_cons, List.insertIdx_succ_cons, ih, List.cons_append]

theorem Changes.symm (h : Changes row edit row' back) : Changes row' back row edit := by
  cases h with
  | replace left old new right => exact .replace left new old right
  | insert left new right => exact .remove left new right
  | remove left old right => exact .insert left old right

/-- **The edits in range are those that change the row of the slots.** -/
theorem inRange_iff : edit.InRange node ↔ ∃ row back, Changes node.slots.toList edit row back := by
  constructor
  · intro hrange
    cases edit with
    | replace slot new =>
      obtain ⟨left, right, rfl, hrow, -⟩ := row_around (Array.getElem?_eq_getElem hrange)
      rw [hrow]
      exact ⟨_, _, .replace left _ new right⟩
    | insert slot new =>
      have hlength : (node.slots.toList.take slot).length = slot := List.length_take_of_le hrange
      have hchanges := Changes.insert (node.slots.toList.take slot) new (node.slots.toList.drop slot)
      rw [List.take_append_drop, hlength] at hchanges
      exact ⟨_, _, hchanges⟩
    | remove slot =>
      obtain ⟨left, right, rfl, hrow, -⟩ := row_around (Array.getElem?_eq_getElem hrange)
      rw [hrow]
      exact ⟨_, _, .remove left _ right⟩
  · rintro ⟨row, back, h⟩
    generalize hrow : node.slots.toList = slots at h
    have hcount : node.arity = slots.length := by
      rw [← hrow, Array.length_toList, arity]
    cases h <;> simp [InRange, hcount]

/-- **An edit rebuilds a node over the changed row.** -/
theorem Changes.apply_eq (h : Changes node.slots.toList edit row back) :
    edit.apply node = node.rebuild row.toArray := by
  have hrange := inRange_iff.2 ⟨row, back, h⟩
  generalize hrow : node.slots.toList = slots at h
  cases h with
  | replace left old new right =>
    have hslot : left.length < node.slots.size := hrange
    refine (dif_pos hslot).trans (congrArg node.rebuild ?_)
    rw [← Array.toList_inj, Array.toList_set, hrow]
    simp
  | insert left new right =>
    have hslot : left.length ≤ node.slots.size := hrange
    refine (dif_pos hslot).trans (congrArg node.rebuild ?_)
    rw [← Array.toList_inj, Array.toList_insertIdx, hrow, insertIdx_length_append]
  | remove left old right =>
    have hslot : left.length < node.slots.size := hrange
    refine (dif_pos hslot).trans (congrArg node.rebuild ?_)
    rw [← Array.toList_inj, Array.toList_eraseIdx, hrow,
      List.eraseIdx_append_of_length_le (Nat.le_refl _), Nat.sub_self, List.eraseIdx_cons_zero]

/-! ## What comes of an edit -/

theorem Changes.refused (h : Changes node.slots.toList edit row back) {shape : ListShape}
    (hlist : node.listShape? = some shape) {error : BuildError}
    (hrow : listShapeOf node.kind row.toArray = .error error) (supply : Nat) :
    edit.apply node supply = .error (.rejected error) supply := by
  rw [h.apply_eq, rebuild, shape_of_listShape? hlist]
  dsimp only
  rw [ofListSlots, hrow]
  rfl

/-- What computes the node without its annotations gives it, whatever identities are free. -/
theorem takesBack_of_eq (tidy : node.Tidy) {made : Node}
    (same : back.apply made = node.annotate []) : TakesBack back made node := by
  intro supply
  have fits := tidy.width_le
  rw [tidy.width_eq, widths] at fits
  rw [same, annotate, make_run, make_run]
  dsimp only
  rw [if_pos fits, if_pos fits]
  exact ⟨_, _, rfl, rfl, Element.Alike.equal (alike_of_rows rfl rfl rfl rfl rfl)⟩

/-- **An edit that gives a row with a shape gives a node, and is taken back.** -/
theorem Changes.accepted (h : Changes node.slots.toList edit row back) (tidy : node.Tidy)
    {shape : Shape} (hshape : HasShape node.kind row.toArray shape)
    (fits : (row.map Element.width).sum ≤ maxSize) (supply : Nat) :
    ∃ made, edit.apply node supply = .ok made (supply + 1) ∧ made.slots.toList = row ∧
      TakesBack back made node := by
  rw [h.apply_eq, tidy.rebuild_eq hshape, make_run]
  dsimp only
  rw [if_pos fits]
  have noNotes : (none : Option (List Annotation)) ≠ some [] := nofun
  have hmade := tidy_of_make hshape noNotes fits supply
  refine ⟨_, rfl, rfl, takesBack_of_eq tidy ?_⟩
  -- the node that was made has the same kind, so the old row demands the old shape of it
  rw [Changes.apply_eq h.symm, Array.toArray_toList]
  exact hmade.rebuild_eq tidy.shape

/-- **What comes of an edit in range**: a list over a row that makes none is refused, and all else
is made and can be taken back. -/
theorem Changes.outcome (h : Changes node.slots.toList edit row back) (tidy : node.Tidy)
    (fits : (row.map Element.width).sum ≤ maxSize) (supply : Nat) :
    match node.listShape?, listShapeOf node.kind row.toArray with
    | some _, .error error => edit.apply node supply = .error (.rejected error) supply
    | _, _ => ∃ made, edit.apply node supply = .ok made (supply + 1) ∧ made.slots.toList = row ∧
        TakesBack back made node := by
  cases hlist : node.listShape? with
  | none =>
    have hshape := tidy.shape
    rw [shape_of_listShape?_none hlist] at hshape
    exact h.accepted tidy (hshape.plain row.toArray) fits supply
  | some shape =>
    cases hrow : listShapeOf node.kind row.toArray with
    | error error => exact h.refused hlist hrow supply
    | ok shape' => exact h.accepted tidy (hasShape_of_listShapeOf hrow) fits supply

end

end Edit

end LosslessSyntax.Green.Node
