import LosslessSyntax.Proofs.Green.Equality
import LosslessSyntax.Proofs.Green.ListForm

/-!
# Lists by their rows

A list is made from the row of its elements and the row of its separators. The slots of the list tell
both rows again, and every list without annotations is made from its two rows.

* `Green.nodesOf`, `Green.tokensOf`: the nodes and the tokens of a row of slots;
* `Green.nodesOf_interleave`, `Green.tokensOf_interleave`: the rows that slots are made from;
* **`Green.Node.separated_ok`**, **`Green.Node.separated_refused`**, **`Green.Node.list_ok`**: which
  rows make a list, and which list;
* **`Green.Node.Tidy.rows_of_list`**: the slots of a list are made from their two rows;
* **`Green.Node.Tidy.list_again`**: a list is equal to the one that is made from its rows.
-/

namespace LosslessSyntax.Green

/-- The nodes of a row of slots. -/
def nodesOf (row : List Element) : List Node := row.filterMap Element.node?

/-- The tokens of a row of slots. -/
def tokensOf (row : List Element) : List Token := row.filterMap Element.token?

/-! ## From rows to slots -/

theorem interleave_nil (elements : List Node) :
    interleave elements [] = elements.map Node.toElement := by
  induction elements with
  | nil => rfl
  | cons n elements ih => rw [interleave, ih, List.map_cons]

theorem nodesOf_interleave (elements : List Node) (separators : List Token) :
    nodesOf (interleave elements separators) = elements := by
  induction elements generalizing separators with
  | nil => rfl
  | cons n elements ih =>
    cases separators with
    | nil => exact congrArg (n :: ·) (ih [])
    | cons t separators => exact congrArg (n :: ·) (ih separators)

theorem tokensOf_interleave {elements : List Node} {separators : List Token}
    (few : separators.length ≤ elements.length) :
    tokensOf (interleave elements separators) = separators := by
  induction elements generalizing separators with
  | nil =>
    cases List.eq_nil_of_length_eq_zero (Nat.le_zero.1 few)
    rfl
  | cons n elements ih =>
    cases separators with
    | nil => exact ih (Nat.zero_le _)
    | cons t separators => exact congrArg (t :: ·) (ih (Nat.le_of_succ_le_succ few))

theorem width_interleave {elements : List Node} {separators : List Token}
    (few : separators.length ≤ elements.length) :
    ((interleave elements separators).map Element.width).sum =
      (elements.map Node.width).sum + (separators.map Token.width).sum := by
  induction elements generalizing separators with
  | nil =>
    cases List.eq_nil_of_length_eq_zero (Nat.le_zero.1 few)
    rfl
  | cons n elements ih =>
    cases separators with
    | nil =>
      have hrest := @ih [] (Nat.zero_le _)
      simp only [interleave, List.map_cons, List.sum_cons, Node.toElement_width, hrest]
      omega
    | cons t separators =>
      have hrest := ih (Nat.le_of_succ_le_succ few)
      have htoken : (Element.token t).width = t.width := rfl
      simp only [interleave, List.map_cons, List.sum_cons, Node.toElement_width, htoken, hrest]
      omega

theorem width_elements (elements : List Node) :
    ((interleave elements []).map Element.width).sum = (elements.map Node.width).sum :=
  width_interleave (Nat.zero_le _)

/-! ## What passes the check -/

theorem checkSlots_elements (slot : Nat) (elements : List Node) :
    checkSlots false slot (elements.map Node.toElement) = .ok () := by
  induction elements generalizing slot with
  | nil => rfl
  | cons n elements ih =>
    rw [List.map_cons, Node.toElement, checkSlots, if_neg (by simp), ih]

theorem checkSlots_interleave {elements : List Node} {separators : List Token} {slot : Nat}
    (even : slot % 2 = 0) (enough : elements.length ≤ separators.length + 1) :
    checkSlots true slot (interleave elements separators) = .ok () := by
  induction elements generalizing separators slot with
  | nil => rfl
  | cons n elements ih =>
    have hnode : ¬ (true && slot % 2 == 1) = true := by simp [even]
    cases separators with
    | nil =>
      cases List.eq_nil_of_length_eq_zero (Nat.le_zero.1 (Nat.le_of_succ_le_succ enough))
      rw [interleave, Node.toElement, checkSlots, if_neg hnode]
      rfl
    | cons t separators =>
      have htoken : ¬ (!true || (slot + 1) % 2 == 0) = true := by
        simp only [Bool.not_true, Bool.false_or, beq_iff_eq]
        omega
      rw [interleave, Node.toElement, checkSlots, if_neg hnode, checkSlots, if_neg htoken]
      exact ih (by omega) (Nat.le_of_succ_le_succ enough)

theorem any_interleave {elements : List Node} {separators : List Token}
    (few : separators.length ≤ elements.length) :
    (interleave elements separators).any (fun slot => !slot.isNode) = !separators.isEmpty := by
  cases separators with
  | nil =>
    rw [interleave_nil, List.any_map, List.any_eq_false.2 fun n _ => ?_]
    · rfl
    · exact Bool.false_ne_true
  | cons t separators =>
    cases elements with
    | nil => exact absurd few (Nat.not_succ_le_zero _)
    | cons n elements => rfl

theorem listShapeOf_of_checkSlots {kind : Kind} {slots : Array Element} (list : kind.isList = true)
    (h : checkSlots (slots.any fun slot => !slot.isNode) 0 slots.toList = .ok ()) :
    ∃ shape, listShapeOf kind slots = .ok shape := by
  rw [listShapeOf_list list, h]
  exact ⟨_, rfl⟩

/-- Separators fit elements if there are as many or one fewer, or none at all. -/
theorem listShapeOf_interleave {kind : Kind} (list : kind.isList = true) {elements : List Node}
    {separators : List Token} (few : separators.length ≤ elements.length)
    (enough : separators = [] ∨ elements.length ≤ separators.length + 1) :
    ∃ shape, listShapeOf kind (interleave elements separators).toArray = .ok shape := by
  refine listShapeOf_of_checkSlots list ?_
  rw [List.any_toArray, any_interleave few]
  cases separators with
  | nil =>
    rw [interleave_nil]
    exact checkSlots_elements 0 elements
  | cons t separators =>
    exact checkSlots_interleave rfl (enough.resolve_left (List.cons_ne_nil _ _))

/-! ## Made lists -/

namespace Node

/-- A list that is made over a row of slots. -/
structure ListOver (kind : Kind) (row : List Element) (made : Node) : Prop where
  kind_eq : made.kind = kind
  slots_eq : made.slots = row.toArray
  shape_eq : ∃ shape, listShapeOf kind row.toArray = .ok shape ∧ made.shape = .list shape
  width_eq : made.width = (row.map Element.width).sum
  notes_eq : made.head.notes = none

theorem ofListSlots_ok {kind : Kind} {row : List Element} {shape : ListShape}
    (h : listShapeOf kind row.toArray = .ok shape) (fits : (row.map Element.width).sum ≤ maxSize)
    (supply : Nat) :
    ∃ made, ofListSlots kind row.toArray supply = .ok made (supply + 1) ∧
      ListOver kind row made := by
  have hrun : ofListSlots kind row.toArray supply =
      make kind (.list shape) none row.toArray supply := by
    unfold ofListSlots
    rw [h]
    rfl
  rw [hrun, make_run]
  dsimp only
  rw [if_pos fits]
  exact ⟨_, rfl, rfl, rfl, ⟨shape, h, rfl⟩, rfl, rfl⟩

section

variable {kind : Kind} {elements : List Node} {separators : List Token}

/-- **Separators that fit make a list.** -/
theorem separated_ok (list : kind.isList = true)
    (fit : separators.length = elements.length ∨ separators.length + 1 = elements.length)
    (fits : (elements.map width).sum + (separators.map Token.width).sum ≤ maxSize) (supply : Nat) :
    ∃ made, separated kind elements separators supply = .ok made (supply + 1) ∧
      ListOver kind (interleave elements separators) made := by
  have few : separators.length ≤ elements.length := by omega
  obtain ⟨shape, hshape⟩ := listShapeOf_interleave list few (.inr (by omega))
  rw [separated_eq, if_neg (by simp; omega)]
  exact ofListSlots_ok hshape (width_interleave few ▸ fits) supply

/-- **Separators that do not fit make none.** -/
theorem separated_refused
    (misfit : ¬ (separators.length = elements.length ∨ separators.length + 1 = elements.length))
    (supply : Nat) : separated kind elements separators supply =
      .error (.rejected (.separatorsDoNotFit elements.length separators.length)) supply := by
  rw [separated_eq, if_pos (by simp; omega)]
  rfl

/-- **Elements without separators make a list.** -/
theorem list_ok (isList : kind.isList = true) (fits : (elements.map width).sum ≤ maxSize)
    (supply : Nat) : ∃ made, list kind elements supply = .ok made (supply + 1) ∧
      ListOver kind (interleave elements []) made := by
  have few : ([] : List Token).length ≤ elements.length := Nat.zero_le _
  obtain ⟨shape, hshape⟩ := listShapeOf_interleave isList few (.inl rfl)
  unfold list
  rw [← interleave_nil]
  exact ofListSlots_ok hshape ((width_elements elements).symm ▸ fits) supply

end

end Node

/-! ## From slots to rows -/

/-- A row that passes the check of separated lists is made from its nodes and its tokens. -/
theorem rows_of_checkSlots {slot : Nat} (even : slot % 2 = 0) :
    ∀ row : List Element, checkSlots true slot row = .ok () →
      interleave (nodesOf row) (tokensOf row) = row ∧
        ((tokensOf row).length = (nodesOf row).length ∨
          (tokensOf row).length + 1 = (nodesOf row).length)
  | [], _ => ⟨rfl, .inl rfl⟩
  | .token t :: rest, h => by
    rw [checkSlots, if_pos (by simp [even])] at h
    cases h
  | [.node head slots], _ => ⟨rfl, .inr rfl⟩
  | .node head slots :: .node head' slots' :: rest, h => by
    rw [checkSlots, if_neg (by simp [even]), checkSlots, if_pos (by simp; omega)] at h
    cases h
  | .node head slots :: .token t :: rest, h => by
    rw [checkSlots, if_neg (by simp [even]), checkSlots, if_neg (by simp; omega)] at h
    obtain ⟨hrow, hcount⟩ := rows_of_checkSlots (show (slot + 1 + 1) % 2 = 0 by omega) rest h
    refine ⟨?_, ?_⟩
    · change .node head slots :: .token t :: interleave (nodesOf rest) (tokensOf rest) = _
      rw [hrow]
    · change (tokensOf rest).length + 1 = (nodesOf rest).length + 1 ∨
        (tokensOf rest).length + 1 + 1 = (nodesOf rest).length + 1
      omega

theorem nodes_of_any {slots : Array Element}
    (h : (slots.any fun slot => !slot.isNode) = false) : ∀ e ∈ slots.toList, e.isNode = true := by
  intro e he
  simpa using Array.any_eq_false'.1 h e (Array.mem_toList_iff.1 he)

theorem rows_of_nodes {row : List Element} (h : ∀ e ∈ row, e.isNode = true) :
    (nodesOf row).map Node.toElement = row ∧ tokensOf row = [] := by
  induction row with
  | nil => exact ⟨rfl, rfl⟩
  | cons e row ih =>
    obtain ⟨he, hrow⟩ := List.forall_mem_cons.1 h
    obtain ⟨hnodes, htokens⟩ := ih hrow
    cases e with
    | token t => cases he
    | node head slots => exact ⟨congrArg (Element.node head slots :: ·) hnodes, htokens⟩

namespace Node

variable {node : Node} {shape : ListShape}

/-- **The slots of a list are made from its elements and its separators**, and only lists of many
elements without separators have more elements than separators need. -/
theorem Tidy.rows_of_list (h : node.Tidy) (hshape : node.listShape? = some shape) :
    interleave (nodesOf node.slots.toList) (tokensOf node.slots.toList) = node.slots.toList ∧
      if shape = .many then tokensOf node.slots.toList = []
      else (tokensOf node.slots.toList).length = (nodesOf node.slots.toList).length ∨
        (tokensOf node.slots.toList).length + 1 = (nodesOf node.slots.toList).length := by
  obtain ⟨-, hcheck, hsize⟩ := Green.listShapeOf_ok (h.listShapeOf_ok hshape)
  cases hany : node.slots.any fun slot => !slot.isNode with
  | true =>
    rw [hany] at hcheck hsize
    obtain ⟨hrow, hcount⟩ := rows_of_checkSlots rfl _ hcheck
    have hnotMany : shape ≠ .many := by
      rw [hsize]
      split <;> simp
    rw [if_neg hnotMany]
    exact ⟨hrow, hcount⟩
  | false =>
    obtain ⟨hrow, htokens⟩ := rows_of_nodes (nodes_of_any hany)
    rw [htokens, interleave_nil]
    refine ⟨hrow, ?_⟩
    split_ifs with hmany
    · rfl
    · have hlength : (nodesOf node.slots.toList).length = node.slots.size := by
        rw [← Array.length_toList, ← congrArg List.length hrow, List.length_map]
      rw [hany] at hsize
      rw [hlength, List.length_nil]
      match hcount : node.slots.size with
      | 0 => exact .inl rfl
      | 1 => exact .inr rfl
      | count + 2 =>
        rw [hcount] at hsize
        exact absurd hsize hmany

theorem ListOver.equal {made : Node} (h : ListOver node.kind node.slots.toList made)
    (tidy : node.Tidy) (hshape : node.listShape? = some shape) (bare : node.annotations = []) :
    made.toElement.equal node.toElement = true := by
  obtain ⟨made', hmade, hlist⟩ := h.shape_eq
  rw [Array.toArray_toList, tidy.listShapeOf_ok hshape, Except.ok.injEq] at hmade
  subst hmade
  have hnode := shape_of_listShape? hshape
  refine (alike_of_rows h.kind_eq (hlist.trans hnode.symm) ?_ ?_ ?_).equal
  · rw [h.width_eq, tidy.width_eq]
    rfl
  · rw [h.notes_eq, tidy.notes_iff.2 bare]
  · rw [h.slots_eq]
    exact rfl

/-- **A list without annotations is equal to the one that is made from its elements and its
separators.** -/
theorem Tidy.list_again (tidy : node.Tidy) (hshape : node.listShape? = some shape)
    (bare : node.annotations = []) (supply : Nat) :
    ∃ made, (if shape = .many then list node.kind (nodesOf node.slots.toList)
        else separated node.kind (nodesOf node.slots.toList) (tokensOf node.slots.toList)) supply =
          .ok made (supply + 1) ∧
      made.toElement.equal node.toElement = true := by
  have hkind := (Green.listShapeOf_ok (tidy.listShapeOf_ok hshape)).1
  obtain ⟨hrow, hcount⟩ := tidy.rows_of_list hshape
  have hle := tidy.width_le
  rw [tidy.width_eq, widths] at hle
  split_ifs at hcount ⊢ with hmany
  · rw [hcount] at hrow
    have hfits : ((nodesOf node.slots.toList).map width).sum ≤ maxSize := by
      rw [← width_elements, hrow]
      exact hle
    obtain ⟨made, hrun, hover⟩ := list_ok hkind hfits supply
    rw [hrow] at hover
    exact ⟨made, hrun, hover.equal tidy hshape bare⟩
  · have hfits : ((nodesOf node.slots.toList).map width).sum +
        ((tokensOf node.slots.toList).map Token.width).sum ≤ maxSize := by
      rw [← width_interleave (by omega), hrow]
      exact hle
    obtain ⟨made, hrun, hover⟩ := separated_ok hkind hcount hfits supply
    rw [hrow] at hover
    exact ⟨made, hrun, hover.equal tidy hshape bare⟩

end Node

end LosslessSyntax.Green
