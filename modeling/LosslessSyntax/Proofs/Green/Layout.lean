import LosslessSyntax.Green.Make
import Mathlib.Algebra.GroupWithZero.Nat
import Mathlib.Data.List.Basic

/-!
# The layout of green nodes

What a node keeps of itself is no news: its width and its offsets are sums of the widths in its
slots, its shape is the one of its slots, and its annotations are absent if there are none.

* `sumSizes_eq`, `offsetsOf_getElem?`: checked sums and offsets as plain sums;
* `Green.Node.before`: the length of the text before a slot;
* `Green.Node.Tidy`: a node whose head agrees with its slots;
* `Green.Element.WellFormed`: all nodes of an element are tidy;
* `Green.Element.at?`, `Green.Element.AllNodes`: the part at a path of slots, and what is so for all
  nodes of an element;
* `Green.Node.make_run`: what making a node gives;
* **`Green.Element.WellFormed.text_bytes`**: the width of an element is the length of its text.
-/

namespace LosslessSyntax

/-! ## Sums of sizes -/

theorem foldlM_addSize (sizes : List Nat) {start : Nat} (hstart : start ≤ maxSize) :
    sizes.foldlM addSize start =
      if start + sizes.sum ≤ maxSize then .ok (start + sizes.sum) else .error .sizeOverflow := by
  induction sizes generalizing start with
  | nil => simp [hstart, pure, Except.pure]
  | cons size sizes ih =>
    rw [List.foldlM_cons, List.sum_cons, addSize, ← Nat.add_assoc]
    split_ifs with h1 h2 h2
    · exact (ih h1).trans (if_pos h2)
    · exact (ih h1).trans (if_neg h2)
    · omega
    · rfl

theorem sumSizes_eq (sizes : List Nat) :
    sumSizes sizes = if sizes.sum ≤ maxSize then .ok sizes.sum else .error .sizeOverflow := by
  have h := foldlM_addSize sizes (Nat.zero_le maxSize)
  rwa [Nat.zero_add] at h

theorem foldl_offsets (sizes : List Nat) (offsets : Array Nat) (sum : Nat) (i : Nat) :
    (sizes.foldl (fun (offsets, sum) size => (offsets.push sum, sum + size)) (offsets, sum)).1[i]? =
      if i < offsets.size then offsets[i]?
      else if i < offsets.size + sizes.length then some (sum + (sizes.take (i - offsets.size)).sum)
      else none := by
  induction sizes generalizing offsets sum with
  | nil =>
    simp only [List.foldl_nil, List.length_nil, Nat.add_zero]
    split_ifs with h
    · rfl
    · exact Array.getElem?_eq_none (Nat.le_of_not_lt h)
  | cons size sizes ih =>
    rw [List.foldl_cons, ih, Array.size_push, List.length_cons]
    by_cases h1 : i < offsets.size
    · rw [if_pos (by omega), if_pos h1, Array.getElem?_push_lt h1, Array.getElem?_eq_getElem h1]
    rw [if_neg h1]
    by_cases h2 : i = offsets.size
    · subst h2
      rw [if_pos (by omega), if_pos (by omega), Array.getElem?_push_size, Nat.sub_self]
      rfl
    rw [if_neg (by omega)]
    by_cases h3 : i < offsets.size + 1 + sizes.length
    · rw [if_pos h3, if_pos (by omega), show i - offsets.size = i - (offsets.size + 1) + 1 by omega,
        List.take_succ_cons, List.sum_cons, Nat.add_assoc]
    · rw [if_neg h3, if_neg (by omega)]

theorem offsetsOf_getElem? (sizes : List Nat) (i : Nat) :
    (offsetsOf sizes)[i]? = if i < sizes.length then some (sizes.take i).sum else none := by
  have h := foldl_offsets sizes #[] 0 i
  simpa [offsetsOf] using h

namespace Green

/-! ## Induction over elements -/

namespace Element

/-- Induction over the tree of an element. -/
@[elab_as_elim, induction_eliminator]
theorem induct {motive : Element → Prop} (token : ∀ t, motive (.token t))
    (node : ∀ head slots, (∀ e ∈ slots, motive e) → motive (.node head slots)) :
    ∀ e, motive e
  | .token t => token t
  | .node head slots => node head slots fun e _ => induct token node e
termination_by e => sizeOf e
decreasing_by
  have := Array.sizeOf_lt_of_mem ‹_›
  simp only [Element.node.sizeOf_spec]
  omega

/-- The part at a path of slots, from the outside in. -/
def at? : Element → List Nat → Option Element
  | e, [] => some e
  | .token _, _ :: _ => none
  | .node _ slots, slot :: path => slots[slot]?.bind (·.at? path)
termination_by _ path => path.length

@[simp] theorem at?_nil (e : Element) : e.at? [] = some e := by rw [at?]

@[simp] theorem at?_token_cons (t : Token) (slot : Nat) (path : List Nat) :
    (token t).at? (slot :: path) = none := by rw [at?]

theorem at?_node_cons (head : Head) (slots : Array Element) (slot : Nat) (path : List Nat) :
    (node head slots).at? (slot :: path) = slots[slot]?.bind (·.at? path) := by rw [at?]

theorem at?_append (e : Element) (path rest : List Nat) :
    e.at? (path ++ rest) = (e.at? path).bind (·.at? rest) := by
  induction path generalizing e with
  | nil => simp
  | cons slot path ih =>
    cases e with
    | token t => simp
    | node head slots =>
      rw [List.cons_append, at?_node_cons, at?_node_cons, Option.bind_assoc]
      exact Option.bind_congr fun below _ => ih below

/-- All nodes of an element have a property, the element itself among them. -/
def AllNodes (property : Node → Prop) (e : Element) : Prop :=
  ∀ path (node : Node), e.at? path = some node.toElement → property node

section

variable {property : Node → Prop} {node : Node}

theorem AllNodes.root (h : node.toElement.AllNodes property) : property node :=
  h [] node (at?_nil _)

theorem AllNodes.slot (h : node.toElement.AllNodes property) {e : Element} (he : e ∈ node.slots) :
    e.AllNodes property := by
  intro path part hpart
  obtain ⟨slot, hslot, rfl⟩ := Array.getElem_of_mem he
  refine h (slot :: path) part ?_
  rw [Node.toElement, at?_node_cons, Array.getElem?_eq_getElem hslot, Option.bind_some, hpart]

theorem allNodes_token (t : Token) : (token t).AllNodes property := by
  intro path part hpart
  cases path <;> simp [Node.toElement] at hpart

theorem allNodes_of_slots (h : property node) (below : ∀ e ∈ node.slots, e.AllNodes property) :
    node.toElement.AllNodes property := by
  intro path part hpart
  cases path with
  | nil =>
    rw [at?_nil, Option.some_inj] at hpart
    cases node
    cases part
    cases hpart
    exact h
  | cons slot path =>
    rw [Node.toElement, at?_node_cons, Option.bind_eq_some_iff] at hpart
    obtain ⟨e, he, hpart⟩ := hpart
    exact below e (Array.mem_of_getElem? he) path part hpart

theorem allNodes_of_tokens (tokens : ∀ e ∈ node.slots, e.isNode = false) (h : property node) :
    node.toElement.AllNodes property := by
  refine allNodes_of_slots h fun e he => ?_
  have htoken := tokens e he
  cases e with
  | node head slots => cases htoken
  | token t => exact allNodes_token t

end

theorem same_iff {a b : Element} : a.same b = true ↔ a.isNode = b.isNode ∧ a.id = b.id := by
  cases a <;> cases b <;> simp [same, isNode, node?, id]

end Element

/-! ## Shapes of lists -/

theorem listShapeOf_notList {kind : Kind} (hkind : kind.isList = false) (slots : Array Element) :
    listShapeOf kind slots = .error (.notListKind kind) := by
  unfold listShapeOf
  rw [hkind]
  rfl

theorem listShapeOf_list {kind : Kind} (hkind : kind.isList = true) (slots : Array Element) :
    listShapeOf kind slots =
      (checkSlots (slots.any fun slot => !slot.isNode) 0 slots.toList).map fun _ =>
        match slots.size with
        | 0 => .empty
        | 1 => .single
        | _ => if slots.any fun slot => !slot.isNode then .separated else .many := by
  unfold listShapeOf
  rw [hkind]
  rfl

/-- What is known of a row of slots that makes a list. -/
theorem listShapeOf_ok {kind : Kind} {slots : Array Element} {s : ListShape}
    (h : listShapeOf kind slots = .ok s) :
    kind.isList = true ∧
    checkSlots (slots.any fun slot => !slot.isNode) 0 slots.toList = .ok () ∧
    s = match slots.size with
      | 0 => .empty
      | 1 => .single
      | _ => if slots.any fun slot => !slot.isNode then .separated else .many := by
  cases hkind : kind.isList with
  | false =>
    rw [listShapeOf_notList hkind] at h
    cases h
  | true =>
    rw [listShapeOf_list hkind] at h
    cases hcheck : checkSlots (slots.any fun slot => !slot.isNode) 0 slots.toList with
    | error error =>
      rw [hcheck] at h
      cases h
    | ok _ =>
      rw [hcheck] at h
      exact ⟨rfl, rfl, (Except.ok.inj h).symm⟩

/-! ## Tidy nodes -/

namespace Node

@[simp] theorem toElement_width (node : Node) : node.toElement.width = node.width := rfl
@[simp] theorem toElement_id (node : Node) : node.toElement.id = node.head.id := rfl
@[simp] theorem toElement_kind (node : Node) : node.toElement.kind = node.kind := rfl

/-- The lengths of the texts in the slots. -/
def widths (node : Node) : List Nat := node.slots.toList.map Element.width

@[simp] theorem widths_length (node : Node) : node.widths.length = node.arity := by
  simp [widths, arity]

/-- The length of the text before a slot. -/
def before (node : Node) (slot : Nat) : Nat := (node.widths.take slot).sum

@[simp] theorem before_zero (node : Node) : node.before 0 = 0 := rfl

theorem before_arity (node : Node) : node.before node.arity = node.widths.sum := by
  rw [before, ← node.widths_length, List.take_length]

theorem before_succ {node : Node} {slot : Nat} {e : Element} (h : node.slots[slot]? = some e) :
    node.before (slot + 1) = node.before slot + e.width := by
  have hw : node.widths[slot]? = some e.width := by
    rw [widths, List.getElem?_map, Array.getElem?_toList, h]
    rfl
  rw [before, before, List.take_add_one, hw, List.sum_append]
  simp

theorem before_mono (node : Node) {i j : Nat} (h : i ≤ j) : node.before i ≤ node.before j := by
  rw [before, before, ← Nat.add_sub_cancel' h, List.take_add, List.sum_append]
  exact Nat.le_add_right _ _

theorem before_le (node : Node) (slot : Nat) : node.before slot ≤ node.widths.sum := by
  conv_rhs => rw [← List.take_append_drop slot node.widths, List.sum_append]
  exact Nat.le_add_right _ _

/-- The shape of a node is the one that its kind and its slots demand. -/
def HasShape (kind : Kind) (slots : Array Element) (shape : Shape) : Prop :=
  if kind.isList then ∃ s, shape = .list s ∧ listShapeOf kind slots = .ok s else shape = .plain

theorem HasShape.plain {kind : Kind} {slots : Array Element} (h : HasShape kind slots .plain)
    (slots' : Array Element) : HasShape kind slots' .plain := by
  unfold HasShape at h ⊢
  split_ifs at h ⊢
  · obtain ⟨s, hs, -⟩ := h
    cases hs
  · rfl

/-- What a node keeps of itself agrees with what is in its slots. -/
structure Tidy (node : Node) : Prop where
  width_eq : node.width = node.widths.sum
  width_le : node.width ≤ maxSize
  offset_eq : ∀ slot, node.head.offsets[slot]? =
    if slot < node.arity then some (node.before slot) else none
  shape : HasShape node.kind node.slots node.shape
  notes : node.head.notes ≠ some []

end Node

theorem Node.lt_arity_of_slot {node : Node} {slot : Nat} {e : Element}
    (h : node.slots[slot]? = some e) : slot < node.arity := (Array.getElem?_eq_some_iff.1 h).1

theorem Node.Tidy.offsetAt_eq {node : Node} (h : node.Tidy) {slot : Nat} (hslot : slot < node.arity) :
    node.offsetAt slot = .ok (node.before slot) := by
  rw [Node.offsetAt, h.offset_eq, if_pos hslot]

theorem Node.Tidy.notes_iff {node : Node} (h : node.Tidy) :
    node.head.notes = none ↔ node.annotations = [] := by
  have hnotes := h.notes
  unfold Node.annotations
  constructor
  · intro hnone
    rw [hnone]
    rfl
  · intro hempty
    cases hn : node.head.notes with
    | none => rfl
    | some notes =>
      rw [hn] at hempty hnotes
      exact absurd (congrArg some hempty) hnotes

/-- All nodes of an element are tidy. -/
inductive Element.WellFormed : Element → Prop
  | token (t : Token) : WellFormed (.token t)
  | node {head : Head} {slots : Array Element} (tidy : Node.Tidy ⟨head, slots⟩)
      (below : ∀ e ∈ slots, WellFormed e) : WellFormed (.node head slots)

/-- All nodes of a node are tidy. -/
abbrev Node.WellFormed (node : Node) : Prop := node.toElement.WellFormed

theorem Node.WellFormed.tidy {node : Node} (h : node.WellFormed) : node.Tidy := by
  cases h with
  | node tidy _ => exact tidy

theorem Node.WellFormed.slot {node : Node} (h : node.WellFormed) {slot : Nat} {e : Element}
    (he : node.slots[slot]? = some e) : e.WellFormed := by
  cases h with
  | node _ below => exact below e (Array.mem_of_getElem? he)

theorem Element.WellFormed.at? {e : Element} (h : e.WellFormed) {path : List Nat} {below : Element}
    (hb : e.at? path = some below) : below.WellFormed := by
  induction path generalizing e with
  | nil =>
    rw [Element.at?_nil, Option.some_inj] at hb
    exact hb ▸ h
  | cons slot path ih =>
    cases h with
    | token t => simp at hb
    | node tidy hslots =>
      rw [Element.at?_node_cons, Option.bind_eq_some_iff] at hb
      obtain ⟨child, hc, hb⟩ := hb
      exact ih (hslots child (Array.mem_of_getElem? hc)) hb

/-! ## Text -/

namespace Element

theorem textAfter_bytes {e : Element} (h : e.WellFormed) (text : String) :
    (textAfter text e).utf8ByteSize = text.utf8ByteSize + e.width := by
  induction e generalizing text with
  | token t => rw [textAfter, String.utf8ByteSize_append]; rfl
  | node head slots ih =>
    obtain ⟨row⟩ := slots
    have hrow : ∀ (row : List Element), (∀ e ∈ row, e.WellFormed ∧ ∀ text,
        (textAfter text e).utf8ByteSize = text.utf8ByteSize + e.width) → ∀ text : String,
        (textsAfter text row).utf8ByteSize = text.utf8ByteSize + (row.map width).sum := by
      intro row
      induction row with
      | nil => intro _ text; simp [textsAfter]
      | cons e rest ih =>
        intro he text
        rw [textsAfter, ih fun x hx => he x (List.mem_cons_of_mem _ hx),
          (he e List.mem_cons_self).2, List.map_cons, List.sum_cons, Nat.add_assoc]
    cases h with
    | node tidy below =>
      rw [textAfter, hrow row fun e he => ⟨below e (List.mem_toArray.2 he),
        fun text => ih e (List.mem_toArray.2 he) (below e (List.mem_toArray.2 he)) text⟩]
      exact congrArg _ tidy.width_eq.symm

/-- **The width of an element is the number of bytes of its text.** -/
theorem WellFormed.text_bytes {e : Element} (h : e.WellFormed) : e.text.utf8ByteSize = e.width := by
  rw [text, textAfter_bytes h, String.utf8ByteSize_empty, Nat.zero_add]

end Element

/-! ## Making nodes -/

/-- **What making a node gives**: the node takes the next identity, unless it is too wide. -/
theorem Node.make_run (kind : Kind) (shape : Shape) (notes : Option (List Annotation))
    (slots : Array Element) (supply : Nat) :
    Node.make kind shape notes slots supply =
      let widths := slots.toList.map Element.width
      if widths.sum ≤ maxSize then
        .ok ⟨⟨supply, kind, shape, widths.sum, offsetsOf widths, notes⟩, slots⟩ (supply + 1)
      else .error (.violated .sizeOverflow) supply := by
  unfold Node.make
  rw [sumSizes_eq]
  dsimp only
  split_ifs with h <;> rfl

theorem Node.tidy_of_make {kind : Kind} {shape : Shape} {notes : Option (List Annotation)}
    {slots : Array Element} (hshape : HasShape kind slots shape) (hnotes : notes ≠ some [])
    (hwidth : (slots.toList.map Element.width).sum ≤ maxSize) (id : Nat) :
    Node.Tidy ⟨⟨id, kind, shape, (slots.toList.map Element.width).sum,
      offsetsOf (slots.toList.map Element.width), notes⟩, slots⟩ where
  width_eq := rfl
  width_le := hwidth
  offset_eq slot := by
    rw [offsetsOf_getElem?, List.length_map, Array.length_toList]
    rfl
  shape := hshape
  notes := hnotes

end Green

end LosslessSyntax
