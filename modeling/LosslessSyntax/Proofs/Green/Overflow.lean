import LosslessSyntax.Green.Basic
import LosslessSyntax.Proofs.Builder.Event
import LosslessSyntax.Proofs.Green.Edit

/-!
# Widths that add up

A node is as wide as its slots together, and a slot begins where the widths before it end. The width
is added up with checks, and the offsets are added up once more. A node over a row of slots is refused
exactly if the whole sum is out of bounds; else its width and its offsets are the exact sums.

* `offsetsOfChecked`, `Green.Node.makeChecked`: the second sum, with checks as well;
* **`Green.Node.makeChecked_eq`**: these checks never fail where the first sum is in bounds;
* `Green.Node.AddsUp`: what the sum over a row of slots has to come to;
* `Green.Node.Accepted`: the requests for a node, with the rows that they passed their checks with;
* **`Green.Node.Accepted.addsUp`**, **`Builder.Event.close_addsUp`**: they come to that;
* `Green.Node.Edit.widthAfter`: the width of an edited node;
* **`Green.Node.Tidy.overflow`**: an edit that overflows makes a node that is too wide.
-/

namespace LosslessSyntax

/-! ## Offsets with checks -/

/-- One more offset: the sum so far; the sum that the next one would begin at is checked. -/
def pushOffset (state : Array Nat × Nat) (size : Nat) : Except Violation (Array Nat × Nat) := do
  return (state.1.push state.2, ← addSize state.2 size)

/-- The offsets of parts of the given lengths; the sum after the last part is checked, too. -/
def offsetsOfChecked (sizes : List Nat) : Except Violation (Array Nat) := do
  return (← sizes.foldlM pushOffset (#[], 0)).1

theorem foldlM_pushOffset (sizes : List Nat) (offsets : Array Nat) {sum : Nat} (h : sum ≤ maxSize) :
    sizes.foldlM pushOffset (offsets, sum) =
      if sum + sizes.sum ≤ maxSize then
        .ok (sizes.foldl (fun (offsets, sum) size => (offsets.push sum, sum + size)) (offsets, sum))
      else .error .sizeOverflow := by
  induction sizes generalizing offsets sum with
  | nil => exact (if_pos h).symm
  | cons size sizes ih =>
    rw [List.foldlM_cons, List.foldl_cons, List.sum_cons, ← Nat.add_assoc, pushOffset]
    dsimp only
    rw [addSize]
    split_ifs with hnext hall hall
    · exact (ih _ hnext).trans (if_pos hall)
    · exact (ih _ hnext).trans (if_neg hall)
    · omega
    · rfl

/-- **The second sum goes wrong exactly where the first one does.** -/
theorem offsetsOfChecked_eq (sizes : List Nat) : offsetsOfChecked sizes =
    if sizes.sum ≤ maxSize then .ok (offsetsOf sizes) else .error .sizeOverflow := by
  have h := foldlM_pushOffset sizes #[] (Nat.zero_le maxSize)
  rw [Nat.zero_add] at h
  rw [offsetsOfChecked, h]
  split_ifs <;> rfl

namespace Green

/-- What a computation comes to, with the given identity as the next free one. -/
def Make.outcome {α : Type} (computation : Make α) (supply : Nat) : Except Failure α :=
  match computation supply with
  | .ok made _ => .ok made
  | .error failure _ => .error failure

/-- The length of the text in a row of slots. -/
def rowWidth (slots : Array Element) : Nat := (slots.toList.map Element.width).sum

namespace Node

/-- A node over a row of slots, its offsets added up with checks. -/
def makeChecked (kind : Kind) (shape : Shape) (notes : Option (List Annotation))
    (slots : Array Element) : Make Node := do
  let widths := slots.toList.map Element.width
  let width ← sumSizes widths
  let offsets ← offsetsOfChecked widths
  let id ← Make.fresh
  return ⟨⟨id, kind, shape, width, offsets, notes⟩, slots⟩

/-- **The offsets need no checks**: a node is made, or refused, with or without them. -/
theorem makeChecked_eq : makeChecked = make := by
  funext kind shape notes slots supply
  rw [make_run]
  unfold makeChecked
  rw [sumSizes_eq, offsetsOfChecked_eq]
  dsimp only
  split_ifs <;> rfl

/-! ## Rows that add up -/

/-- What comes of a row of slots: a node over it, whose width and offsets are the exact sums; or, if
the exact sum is out of bounds, the refusal of a sum that is too large. -/
def AddsUp (slots : Array Element) : Except Failure Node → Prop
  | .ok node => rowWidth slots ≤ maxSize ∧ node.slots = slots ∧ node.width = rowWidth slots ∧
      ∀ slot < slots.size,
        node.offsetAt slot = .ok ((slots.toList.map Element.width).take slot).sum
  | .error failure => maxSize < rowWidth slots ∧ failure = .violated .sizeOverflow

section

variable {kind : Kind} {shape : Shape} {notes : Option (List Annotation)} {slots : Array Element}
  {node : Node}

theorem make_addsUp (kind : Kind) (shape : Shape) (notes : Option (List Annotation))
    (slots : Array Element) (supply : Nat) :
    AddsUp slots (Make.outcome (make kind shape notes slots) supply) := by
  unfold Make.outcome
  rw [make_run]
  dsimp only
  split_ifs with hwidth
  · refine ⟨hwidth, rfl, rfl, fun slot hslot => ?_⟩
    unfold offsetAt
    dsimp only
    rw [offsetsOf_getElem?, if_pos (by simpa using hslot)]
  · exact ⟨Nat.lt_of_not_le hwidth, rfl⟩

theorem AddsUp.ok {outcome : Except Failure Node} (h : AddsUp slots outcome)
    (fits : rowWidth slots ≤ maxSize) : ∃ made, outcome = .ok made ∧ AddsUp slots (.ok made) := by
  cases outcome with
  | ok made => exact ⟨made, rfl, h⟩
  | error failure => exact absurd fits (Nat.not_le.2 h.1)

/-! ## Requests -/

/-- Requests for a node over a row of slots whose kind and shape were found to be right. -/
inductive Accepted : Make Node → Array Element → Prop
  | plain {kind : Kind} (notList : kind.isList = false) (slots : Array Element) :
      Accepted (Node.plain kind slots) slots
  | list {kind : Kind} {elements : List Node} {shape : ListShape}
      (right : listShapeOf kind (elements.map toElement).toArray = .ok shape) :
      Accepted (Node.list kind elements) (elements.map toElement).toArray
  | separated {kind : Kind} {elements : List Node} {separators : List Token} {shape : ListShape}
      (few : separators.length ≤ elements.length) (many : elements.length ≤ separators.length + 1)
      (right : listShapeOf kind (interleave elements separators).toArray = .ok shape) :
      Accepted (Node.separated kind elements separators) (interleave elements separators).toArray
  | edit {node : Node} {edit back : Edit} {row : List Element}
      (changes : Edit.Changes node.slots.toList edit row back)
      (right : node.shape = .plain ∨ ∃ shape, listShapeOf node.kind row.toArray = .ok shape) :
      Accepted (edit.apply node) row.toArray
  | annotate (node : Node) (notes : List Annotation) : Accepted (node.annotate notes) node.slots

theorem ofListSlots_eq {shape : ListShape} (right : listShapeOf kind slots = .ok shape) :
    ofListSlots kind slots = make kind (.list shape) none slots := by
  unfold ofListSlots
  rw [right]
  rfl

/-- Once a request has passed its checks, all that is left is to make the node. -/
theorem Accepted.eq_make {request : Make Node} (h : Accepted request slots) :
    ∃ kind shape notes, request = make kind shape notes slots := by
  cases h with
  | @plain kind notList =>
    rw [plain_eq, notList]
    exact ⟨kind, _, _, rfl⟩
  | list right => exact ⟨_, _, _, ofListSlots_eq right⟩
  | separated few many right =>
    rw [separated_eq, if_neg (by simp; omega)]
    exact ⟨_, _, _, ofListSlots_eq right⟩
  | @edit node edit back row changes right =>
    rw [changes.apply_eq, rebuild]
    cases hshape : node.shape with
    | plain => exact ⟨_, _, _, rfl⟩
    | list old =>
      rcases right with hplain | ⟨shape, hlist⟩
      · rw [hshape] at hplain
        cases hplain
      · exact ⟨_, _, _, ofListSlots_eq hlist⟩
  | annotate node notes => exact ⟨_, _, _, rfl⟩

/-- **A request that passed its checks overflows exactly if the exact sum is out of bounds**, and else
gives a node with exact sums. -/
theorem Accepted.addsUp {request : Make Node} (h : Accepted request slots) (supply : Nat) :
    AddsUp slots (Make.outcome request supply) := by
  obtain ⟨kind, shape, notes, rfl⟩ := h.eq_make
  exact make_addsUp kind shape notes slots supply

/-! ## Edits -/

/-- The width of a node after an edit. -/
def Edit.widthAfter (node : Node) : Edit → Nat
  | .replace slot element => node.width - node.widthOf slot + element.width
  | .insert _ element => node.width + element.width
  | .remove slot => node.width - node.widthOf slot

theorem Edit.Changes.rowWidth_eq {edit back : Edit} {row : List Element}
    (changes : Edit.Changes node.slots.toList edit row back) (tidy : node.Tidy) :
    rowWidth row.toArray = edit.widthAfter node := by
  have hwidth : node.width = (node.slots.toList.map Element.width).sum := tidy.width_eq
  have hslot : ∀ slot, node.slots[slot]? = node.slots.toList[slot]? := fun slot =>
    Array.getElem?_toList.symm
  unfold widthAfter widthOf rowWidth
  simp only [hwidth, hslot]
  generalize node.slots.toList = slots at changes
  cases changes with
  | replace left old new right => simp; omega
  | insert left new right => simp; omega
  | remove left old right => simp; omega

theorem Edit.outcome_overflow {edit : Edit} {supply : Nat}
    (overflow : Make.outcome (edit.apply node) supply = .error (.violated .sizeOverflow)) :
    ∃ row back, Edit.Changes node.slots.toList edit row back ∧
      AddsUp row.toArray (.error (.violated .sizeOverflow)) := by
  by_cases hrange : edit.InRange node
  · obtain ⟨row, back, changes⟩ := inRange_iff.1 hrange
    refine ⟨row, back, changes, ?_⟩
    by_cases right : node.shape = .plain ∨ ∃ shape, listShapeOf node.kind row.toArray = .ok shape
    · exact overflow ▸ (Accepted.edit changes right).addsUp supply
    · exfalso
      obtain ⟨hshape, hrow⟩ := not_or.1 right
      cases hlist : node.listShape? with
      | none => exact hshape (shape_of_listShape?_none hlist)
      | some shape =>
        cases hrow' : listShapeOf node.kind row.toArray with
        | ok shape' => exact hrow ⟨shape', hrow'⟩
        | error error =>
          rw [Make.outcome, changes.refused hlist hrow' supply] at overflow
          cases overflow
  · exfalso
    cases edit <;> rw [Make.outcome, apply] at overflow <;> unfold InRange at hrange
    · rw [replaceSlot, dif_neg hrange] at overflow
      cases overflow
    · rw [insertSlot, dif_neg hrange] at overflow
      cases overflow
    · rw [removeSlot, dif_neg hrange] at overflow
      cases overflow

/-- **An edit overflows only if the edited node would be too wide.** -/
theorem Tidy.overflow (tidy : node.Tidy) {edit : Edit} {supply : Nat}
    (overflow : Make.outcome (edit.apply node) supply = .error (.violated .sizeOverflow)) :
    maxSize < edit.widthAfter node := by
  obtain ⟨row, back, changes, hwide, -⟩ := Edit.outcome_overflow overflow
  exact changes.rowWidth_eq tidy ▸ hwide

end

end Node

end Green

open Green

/-! ## Builders -/

/-- No node that is kept has the contents asked for, or the row is too long to be kept. -/
def Interner.Misses (interner : Interner) (kind : Kind) (shape : Shape) (slots : Array Element) :
    Prop :=
  maxSlots < slots.size ∨ ∀ kept ∈ interner.nodes, nodeMatches kind shape slots kept = false

theorem Interner.Misses.node_eq {interner : Interner} {kind : Kind} {shape : Shape}
    {slots : Array Element} (h : interner.Misses kind shape slots) (supply : Nat) :
    match Node.make kind shape none slots supply with
    | .ok made next => ∃ after, interner.node kind shape slots supply = .ok (made, after) next
    | .error failure next => interner.node kind shape slots supply = .error failure next := by
  have hrun : ∃ after : Node → Interner, interner.node kind shape slots =
      Node.make kind shape none slots >>= fun made => pure (made, after made) := by
    rcases Nat.lt_or_ge maxSlots slots.size with hlarge | hsize
    · exact ⟨_, node_of_large hlarge⟩
    · have hnone : ∀ kept ∈ interner.nodes, nodeMatches kind shape slots kept = false :=
        h.resolve_left (Nat.not_lt.2 hsize)
      exact ⟨_, node_of_miss hsize (Table.find?_eq_none hnone)⟩
  obtain ⟨after, hrun⟩ := hrun
  rw [hrun]
  change match Node.make kind shape none slots supply with
    | .ok made next => ∃ after', EStateM.bind _ _ supply = _
    | .error failure next => EStateM.bind _ _ supply = _
  unfold EStateM.bind
  cases Node.make kind shape none slots supply with
  | ok made next => exact ⟨_, rfl⟩
  | error failure next => rfl

/-- **Closing an entry whose children have a shape** overflows exactly if their exact sum is out of
bounds; else the node with exact sums stands in their place. -/
theorem Builder.Event.close_addsUp {builder : Builder} {entry : Entry} {opened : List Entry}
    {shape : Shape} (innermost : builder.opened = entry :: opened)
    (right : entry.layout.shapeOf entry.kind
      (builder.children.extract entry.first builder.children.size) = .ok shape)
    (misses : builder.interner.Misses entry.kind shape
      (builder.children.extract entry.first builder.children.size)) : ∃ made,
    Node.AddsUp (builder.children.extract entry.first builder.children.size) made ∧
      (entry.layout.close.step builder).1 = made.map (fun _ => none) ∧
      ∀ node, made = .ok node → (entry.layout.close.step builder).2.children =
        (builder.children.take entry.first).push node.toElement := by
  have hclose : entry.layout.close.step builder = wrapped builder opened entry shape := by
    rw [step_close, innermost]
    dsimp only
    rw [if_pos rfl, right]
  have hnode := misses.node_eq builder.supply
  refine ⟨_, Node.make_addsUp entry.kind shape none _ builder.supply, ?_⟩
  rw [hclose, wrapped, Make.outcome]
  cases hmake : Node.make entry.kind shape none
    (builder.children.extract entry.first builder.children.size) builder.supply with
  | ok made next =>
    rw [hmake] at hnode
    obtain ⟨after, hrun⟩ := hnode
    rw [hrun]
    refine ⟨rfl, fun node hsame => ?_⟩
    cases hsame
    rfl
  | error failure next =>
    rw [hmake] at hnode
    rw [show builder.interner.node entry.kind shape _ builder.supply = _ from hnode]
    refine ⟨rfl, fun node hsame => ?_⟩
    cases hsame

end LosslessSyntax
