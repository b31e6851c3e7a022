import LosslessSyntax.Green.Make
import LosslessSyntax.Proofs.Placed.Tree

/-!
# One part in the place of another

A tree is spliced by copying the nodes on the way from the root to a part, so that another part comes
to stand in its place. A node always makes room for a node in the place of a node, and for a token in
the place of a token, since what a list demands of its slots is only which of them hold nodes. In the
text, the text of the one part is replaced by that of the other.

* `Green.Element.Spliced`: a tree with another part at a path;
* `Green.TextSpliced`: a text with another one in the place of some of its bytes;
* `Green.Element.text_node`: the text of a node is that of its slots, one after the other;
* **`Green.Element.WellFormed.text_around`**: where the text of a part is in the text of the whole;
* **`Green.Element.Spliced.text_spliced`**: the text of a spliced tree is spliced;
* `Green.listShapeOf_set`: a list stays one if a part of the same sort comes into a slot;
* **`Green.Node.Tidy.replaceSlot_run`**: what replacing what is in a slot gives.
-/

namespace LosslessSyntax.Green

open Placed (startAt_nil startAt_cons)

/-- One tree is another one with `new` in the place of the part at a path: the nodes above it are
copied without their annotations, and all their other slots hold what they held. -/
inductive Element.Spliced (new : Element) : List Nat → Element → Element → Prop
  | here (old : Element) : Spliced new [] old new
  | inSlot {head head' : Head} {slots : Array Element} {slot : Nat} {path : List Nat}
      {e e' : Element} (kind : head'.kind = head.kind) (shape : head'.shape = head.shape)
      (notes : head'.notes = none) (found : slots[slot]? = some e) (spliced : Spliced new path e e') :
      Spliced new (slot :: path) (.node head slots) (.node head' (slots.setIfInBounds slot e'))

/-- One text is another one with `new` in the place of the bytes from `start` to `stop`. -/
def TextSpliced (new : String) (start stop : Nat) (text result : String) : Prop :=
  ∃ left old right, text = left ++ old ++ right ∧ result = left ++ new ++ right ∧
    left.utf8ByteSize = start ∧ start + old.utf8ByteSize = stop

theorem slot_set {slots : Array Element} {slot : Nat} {old : Element}
    (h : slots[slot]? = some old) (new : Element) :
    (slots.setIfInBounds slot new)[slot]? = some new :=
  Array.getElem?_setIfInBounds_self_of_lt (Array.getElem?_eq_some_iff.1 h).1

/-- The row of a node around one of its slots, and the row with something else there. -/
theorem row_around {slots : Array Element} {slot : Nat} {old : Element}
    (h : slots[slot]? = some old) : ∃ left right, left.length = slot ∧
      slots.toList = left ++ old :: right ∧
      ∀ new, (slots.setIfInBounds slot new).toList = left ++ new :: right := by
  rw [← Array.getElem?_toList] at h
  obtain ⟨hslot, hold⟩ := List.getElem?_eq_some_iff.1 h
  refine ⟨slots.toList.take slot, slots.toList.drop (slot + 1), ?_, ?_, fun new => ?_⟩
  · exact List.length_take_of_le (Nat.le_of_lt hslot)
  · rw [← hold, ← List.drop_eq_getElem_cons hslot, List.take_append_drop]
  · rw [Array.toList_setIfInBounds, List.set_eq_take_cons_drop new hslot]

/-! ## Spliced trees -/

namespace Element

variable {root result new mid mid' e : Element} {path rest : List Nat}

/-- A part of the tree is spliced first, and then the tree with that part. -/
theorem Spliced.trans (h : Spliced mid' path root result) (hmid : root.at? path = some mid)
    (hrest : Spliced new rest mid mid') : Spliced new (path ++ rest) root result := by
  induction h with
  | here old =>
    rw [at?_nil, Option.some_inj] at hmid
    exact hmid ▸ hrest
  | inSlot kind shape notes found _ ih =>
    rw [at?_node_cons, found, Option.bind_some] at hmid
    exact .inSlot kind shape notes found (ih hmid)

theorem Spliced.at? (h : Spliced new path root result) : result.at? path = some new := by
  induction h with
  | here old => exact at?_nil _
  | inSlot _ _ _ found _ ih =>
    rw [at?_node_cons, slot_set found, Option.bind_some, ih]

/-! ## Text -/

theorem textsAfter_eq (before : String) (row : List Element)
    (h : ∀ e ∈ row, ∀ before, textAfter before e = before ++ e.text) :
    textsAfter before row = before ++ String.join (row.map text) := by
  induction row generalizing before with
  | nil => simp [textsAfter]
  | cons e rest ih =>
    obtain ⟨he, hrest⟩ := List.forall_mem_cons.1 h
    rw [textsAfter, he, ih _ hrest, List.map_cons, String.join_cons, String.append_assoc]

theorem textAfter_eq (before : String) (e : Element) : textAfter before e = before ++ e.text := by
  induction e generalizing before with
  | token t => rw [text, textAfter, textAfter, String.empty_append]
  | node head slots ih =>
    obtain ⟨row⟩ := slots
    have hrow : ∀ e ∈ row, ∀ before, textAfter before e = before ++ e.text :=
      fun e he before => ih e (List.mem_toArray.2 he) before
    rw [text, textAfter, textAfter, textsAfter_eq before row hrow, textsAfter_eq "" row hrow,
      String.empty_append]

theorem text_node (head : Head) (slots : Array Element) :
    (node head slots).text = String.join (slots.toList.map text) := by
  obtain ⟨row⟩ := slots
  rw [text, textAfter, textsAfter_eq "" row fun e _ before => textAfter_eq before e,
    String.empty_append]

theorem join_bytes {row : List Element} (h : ∀ e ∈ row, e.WellFormed) :
    (String.join (row.map text)).utf8ByteSize = (row.map width).sum := by
  induction row with
  | nil => rfl
  | cons e rest ih =>
    obtain ⟨he, hrest⟩ := List.forall_mem_cons.1 h
    rw [List.map_cons, String.join_cons, String.utf8ByteSize_append, he.text_bytes, ih hrest,
      List.map_cons, List.sum_cons]

theorem join_before {head : Head} {slots : Array Element} (h : ∀ e ∈ slots, e.WellFormed)
    {slot : Nat} {left right : List Element} {e : Element}
    (hrow : slots.toList = left ++ e :: right) (hlength : left.length = slot) :
    (String.join (left.map text)).utf8ByteSize = Node.before ⟨head, slots⟩ slot := by
  have hleft : ∀ x ∈ left, x.WellFormed :=
    fun x hx => h x (Array.mem_toList_iff.1 (by simp [hrow, hx]))
  rw [join_bytes hleft, Node.before, Node.widths, hrow, List.map_append,
    List.take_left' (by rw [List.length_map, hlength])]

/-- **The text of a part is a stretch of the text of the whole**, and it begins where the texts before
the path end. -/
theorem WellFormed.text_around (h : root.WellFormed) (he : root.at? path = some e) :
    ∃ left right, root.text = left ++ e.text ++ right ∧ left.utf8ByteSize = root.startAt path := by
  induction path generalizing root with
  | nil =>
    rw [at?_nil, Option.some_inj] at he
    subst he
    exact ⟨"", "", by simp, by rw [startAt_nil]; rfl⟩
  | cons slot path ih =>
    cases h with
    | token t => simp at he
    | @node head slots tidy hslots =>
      rw [at?_node_cons, Option.bind_eq_some_iff] at he
      obtain ⟨child, hchild, he⟩ := he
      obtain ⟨left, right, hlength, hrow, -⟩ := row_around hchild
      obtain ⟨inner, outer, htext, hstart⟩ := ih (hslots child (Array.mem_of_getElem? hchild)) he
      refine ⟨String.join (left.map Element.text) ++ inner,
        outer ++ String.join (right.map Element.text), ?_, ?_⟩
      · rw [text_node, hrow, List.map_append, List.map_cons, String.join_append, String.join_cons,
          htext]
        simp only [String.append_assoc]
      · have hbefore : (String.join (left.map Element.text)).utf8ByteSize =
            Node.before ⟨head, slots⟩ slot := join_before hslots hrow hlength
        rw [String.utf8ByteSize_append, hbefore, hstart, startAt_cons hchild]

/-- **The text of a spliced tree**: before the part and after it nothing changes. -/
theorem Spliced.text_spliced (h : Spliced new path root result) (hwell : root.WellFormed)
    {old : Element} (hold : root.at? path = some old) :
    TextSpliced new.text (root.startAt path) (root.startAt path + old.width) root.text
      result.text := by
  induction h with
  | here whole =>
    rw [at?_nil, Option.some_inj] at hold
    subst hold
    rw [startAt_nil]
    exact ⟨"", whole.text, "", by simp, by simp, rfl, by rw [hwell.text_bytes]⟩
  | @inSlot head head' slots slot path e e' _ _ _ found _ ih =>
    rw [at?_node_cons, found, Option.bind_some] at hold
    obtain ⟨left, right, hlength, hrow, hset⟩ := row_around found
    have hslots : ∀ x ∈ slots, x.WellFormed := by
      cases hwell with
      | node tidy hslots => exact hslots
    obtain ⟨inner, part, outer, hroot, hresult, hstart, hstop⟩ :=
      ih (hslots e (Array.mem_of_getElem? found)) hold
    have hbefore : (String.join (left.map Element.text)).utf8ByteSize =
        Node.before ⟨head, slots⟩ slot := join_before hslots hrow hlength
    refine ⟨String.join (left.map Element.text) ++ inner, part,
      outer ++ String.join (right.map Element.text), ?_, ?_, ?_, by omega⟩
    · rw [text_node, hrow, List.map_append, List.map_cons, String.join_append, String.join_cons, hroot]
      simp only [String.append_assoc]
    · rw [text_node, hset, List.map_append, List.map_cons, String.join_append, String.join_cons,
        hresult]
      simp only [String.append_assoc]
    · rw [String.utf8ByteSize_append, hbefore, hstart, startAt_cons found]

end Element

/-! ## Parts of the same sort -/

section

variable {kind : Kind} {shape : ListShape} {slots : Array Element} {slot : Nat} {old new : Element}

theorem checkSlots_around {separated : Bool} {left right : List Element}
    (hsort : old.isNode = new.isNode)
    (h : checkSlots separated slot (left ++ old :: right) = .ok ()) :
    checkSlots separated slot (left ++ new :: right) = .ok () := by
  induction left generalizing slot with
  | nil =>
    rw [List.nil_append] at h ⊢
    cases old with
    | token t =>
      cases new with
      | token t' =>
        rw [checkSlots] at h ⊢
        split_ifs at h ⊢
        exact h
      | node head slots => cases hsort
    | node head slots =>
      cases new with
      | token t' => cases hsort
      | node head' slots' =>
        rw [checkSlots] at h ⊢
        split_ifs at h ⊢
        exact h
  | cons e left ih =>
    rw [List.cons_append] at h ⊢
    cases e with
    | token t =>
      rw [checkSlots] at h ⊢
      split_ifs at h ⊢
      exact ih h
    | node head slots =>
      rw [checkSlots] at h ⊢
      split_ifs at h ⊢
      exact ih h

theorem listShapeOf_set (h : listShapeOf kind slots = .ok shape) (hold : slots[slot]? = some old)
    (hsort : old.isNode = new.isNode) :
    listShapeOf kind (slots.setIfInBounds slot new) = .ok shape := by
  obtain ⟨hkind, hcheck, hshape⟩ := listShapeOf_ok h
  obtain ⟨left, right, -, hrow, hset⟩ := row_around hold
  have hany : ((slots.setIfInBounds slot new).any fun e => !e.isNode) =
      slots.any fun e => !e.isNode := by
    rw [← Array.any_toList, ← Array.any_toList, hset, hrow]
    simp [hsort]
  have hchecked : checkSlots ((slots.setIfInBounds slot new).any fun e => !e.isNode) 0
      (slots.setIfInBounds slot new).toList = .ok () := by
    rw [hany, hset]
    exact checkSlots_around hsort (hrow ▸ hcheck)
  unfold listShapeOf
  dsimp only
  rw [hchecked, hkind, hany, Array.size_setIfInBounds, hshape]
  rfl

end

/-! ## Replacing what is in a slot -/

namespace Node

variable {node : Node} {slot : Nat} {old new : Element}

theorem Tidy.slot_width_le (h : node.Tidy) (hold : node.slots[slot]? = some old) :
    old.width ≤ node.width := by
  have hstop := before_succ hold
  have hle := node.before_le (slot + 1)
  rw [← h.width_eq] at hle
  omega

theorem Tidy.width_set (h : node.Tidy) (hold : node.slots[slot]? = some old) :
    ((node.slots.setIfInBounds slot new).toList.map Element.width).sum =
      node.width - old.width + new.width := by
  obtain ⟨left, right, -, hrow, hset⟩ := row_around hold
  rw [h.width_eq, widths, hrow, hset]
  simp only [List.map_append, List.map_cons, List.sum_append, List.sum_cons]
  omega

theorem HasShape.set {kind : Kind} {slots : Array Element} {shape : Shape}
    (h : HasShape kind slots shape) (hold : slots[slot]? = some old)
    (hsort : old.isNode = new.isNode) : HasShape kind (slots.setIfInBounds slot new) shape := by
  unfold HasShape at h ⊢
  split_ifs at h ⊢
  · obtain ⟨s, hs, hlist⟩ := h
    exact ⟨s, hs, listShapeOf_set hlist hold hsort⟩
  · exact h

/-- Over slots that demand a shape a node is rebuilt in that shape. -/
theorem Tidy.rebuild_eq (h : node.Tidy) {slots : Array Element} {shape : Shape}
    (hshape : HasShape node.kind slots shape) :
    node.rebuild slots = make node.kind shape none slots := by
  have hold := h.shape
  unfold HasShape at hold hshape
  unfold rebuild
  split_ifs at hold hshape
  · obtain ⟨s, hs, -⟩ := hold
    obtain ⟨s', hs', hlist⟩ := hshape
    rw [hs, hs']
    dsimp only
    rw [ofListSlots, hlist]
    rfl
  · rw [hold, hshape]

theorem Tidy.replaceSlot_eq (h : node.Tidy) (hold : node.slots[slot]? = some old)
    (hsort : old.isNode = new.isNode) :
    node.replaceSlot slot new =
      make node.kind node.shape none (node.slots.setIfInBounds slot new) := by
  have hset : node.slots.set slot new (lt_arity_of_slot hold) =
      node.slots.setIfInBounds slot new := (dif_pos (lt_arity_of_slot hold)).symm
  rw [replaceSlot, dif_pos (lt_arity_of_slot hold), hset,
    h.rebuild_eq (h.shape.set hold hsort)]

/-- **What replacing what is in a slot gives**: the node with another part of the same sort there,
unless that is too wide. -/
theorem Tidy.replaceSlot_run (h : node.Tidy) (hold : node.slots[slot]? = some old)
    (hsort : old.isNode = new.isNode) (supply : Nat) :
    match node.replaceSlot slot new supply with
    | .ok made _ => Element.Spliced new [slot] node.toElement made.toElement ∧
      made.width = node.width - old.width + new.width
    | .error failure _ => failure = .violated .sizeOverflow ∧
      maxSize < node.width - old.width + new.width := by
  rw [h.replaceSlot_eq hold hsort, make_run]
  dsimp only
  rw [h.width_set hold]
  split_ifs with hwidth
  · exact ⟨.inSlot rfl rfl rfl hold (.here old), rfl⟩
  · exact ⟨rfl, Nat.lt_of_not_le hwidth⟩

theorem WellFormed.replaceSlot (h : node.WellFormed) (hold : node.slots[slot]? = some old)
    (hsort : old.isNode = new.isNode) (hnew : new.WellFormed) {supply next : Nat} {made : Node}
    (run : node.replaceSlot slot new supply = .ok made next) : made.WellFormed := by
  rw [h.tidy.replaceSlot_eq hold hsort, make_run] at run
  dsimp only at run
  split_ifs at run with hwidth
  cases run
  refine .node (tidy_of_make (h.tidy.shape.set hold hsort) (by simp) hwidth supply) fun e he => ?_
  rcases Array.mem_or_eq_of_mem_setIfInBounds he with he | rfl
  · obtain ⟨i, hi, rfl⟩ := Array.getElem_of_mem he
    exact h.slot (Array.getElem?_eq_getElem hi)
  · exact hnew

end Node

theorem Element.WellFormed.width_le {e part : Element} (h : e.WellFormed) {path : List Nat}
    (hpart : e.at? path = some part) : part.width ≤ e.width := by
  induction path generalizing e with
  | nil =>
    rw [at?_nil, Option.some_inj] at hpart
    exact Nat.le_of_eq (congrArg width hpart.symm)
  | cons slot path ih =>
    cases h with
    | token t => simp at hpart
    | node tidy hslots =>
      rw [at?_node_cons, Option.bind_eq_some_iff] at hpart
      obtain ⟨child, hchild, hpart⟩ := hpart
      have hbelow := ih (hslots child (Array.mem_of_getElem? hchild)) hpart
      exact Nat.le_trans hbelow (tidy.slot_width_le hchild)

end LosslessSyntax.Green
