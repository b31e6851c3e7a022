import LosslessSyntax.Placed.ListView
import LosslessSyntax.Proofs.Green.ListForm
import LosslessSyntax.Proofs.Placed.Paths

/-!
# The rows of a list

The elements of a list are the nodes in its slots, and its separators are the tokens. What a list
view finds by counting are the members of these two rows.

* `Placed.ListView.Valid`, `Placed.ListView.Laid`: a view of a list of the tree, and of a tidy one;
* `Placed.ListView.placeOf`: the slot of an element;
* **`Placed.ListView.Laid.nodes_eq`**, **`Placed.ListView.Laid.slotTokens_eq`**: the two rows;
* **`Placed.ListView.Laid.endsInSeparator_iff`**: what the last slot holds;
* **`Placed.ListView.Valid.get?_settles`**, **`Placed.ListView.Valid.separator?_gives`**: their
  members;
* `Placed.ListView.Cursor.left`: the elements that are left.
-/

namespace LosslessSyntax.Placed

/-! ## Rows by numbers -/

section

variable {α : Type} {f : Nat → Option α} {count : Nat}

/-- In a row that has a member for each number, the member of a number stands in its place. -/
theorem getElem?_filterMap_range (h : ∀ i < count, (f i).isSome) :
    ((List.range count).filterMap f).length = count ∧
      ∀ i, ((List.range count).filterMap f)[i]? = if i < count then f i else none := by
  induction count with
  | zero => exact ⟨rfl, fun i => rfl⟩
  | succ count ih =>
    obtain ⟨hlength, hget⟩ := ih fun i hi => h i (Nat.lt_succ_of_lt hi)
    obtain ⟨last, hlast⟩ := Option.isSome_iff_exists.1 (h count (Nat.lt_succ_self _))
    have hrow : (List.range (count + 1)).filterMap f = (List.range count).filterMap f ++ [last] := by
      rw [List.range_succ, List.filterMap_append, List.filterMap_cons, hlast]
      rfl
    refine ⟨by rw [hrow, List.length_append, hlength]; rfl, fun i => ?_⟩
    rw [hrow]
    rcases Nat.lt_trichotomy i count with hi | rfl | hi
    · rw [List.getElem?_append_left (by omega), hget, if_pos hi, if_pos (by omega)]
    · rw [List.getElem?_append_right (by omega), hlength, Nat.sub_self, if_pos (by omega), hlast]
      rfl
    · rw [if_neg (by omega)]
      exact List.getElem?_eq_none (by rw [List.length_append, hlength]; exact hi)

/-- A row that has members only for every other number can be counted by twos. -/
theorem filterMap_range_half {rest : Nat} (hrest : rest < 2)
    (h : ∀ i < count, i % 2 ≠ rest → f i = none) : (List.range count).filterMap f =
      (List.range ((count + 1 - rest) / 2)).filterMap fun i => f (2 * i + rest) := by
  induction count with
  | zero =>
    rw [show (0 + 1 - rest) / 2 = 0 by omega]
    rfl
  | succ count ih =>
    have hrow := ih fun i hi => h i (Nat.lt_succ_of_lt hi)
    rw [List.range_succ, List.filterMap_append, hrow]
    by_cases hparity : count % 2 = rest
    · rw [show (count + 1 + 1 - rest) / 2 = (count + 1 - rest) / 2 + 1 by omega, List.range_succ,
        List.filterMap_append, List.filterMap_cons, List.filterMap_cons,
        show 2 * ((count + 1 - rest) / 2) + rest = count by omega]
      rfl
    · rw [show (count + 1 + 1 - rest) / 2 = (count + 1 - rest) / 2 by omega, List.filterMap_cons,
        h count (Nat.lt_succ_self _) hparity]
      exact List.append_nil _

end

/-- The token in a slot, if it holds one. -/
def Node.tokenBelow? (node : Node) (slot : Nat) : Option Token :=
  (node.below? slot).bind Element.token?

theorem Node.below?_of_nodeBelow? {node n : Node} {slot : Nat} (h : node.nodeBelow? slot = some n) :
    node.below? slot = some (.node n) := by
  obtain ⟨element, hbelow, hnode⟩ := Option.bind_eq_some_iff.1 h
  cases element with
  | token t => cases hnode
  | node m =>
    cases hnode
    exact hbelow

theorem Node.below?_of_tokenBelow? {node : Node} {slot : Nat} {t : Token}
    (h : node.tokenBelow? slot = some t) : node.below? slot = some (.token t) := by
  obtain ⟨element, hbelow, htoken⟩ := Option.bind_eq_some_iff.1 h
  cases element with
  | node n => cases htoken
  | token t' =>
    cases htoken
    exact hbelow

theorem Node.children_getLast? (node : Node) :
    node.children.getLast? = node.below? (node.arity - 1) := by
  by_cases hempty : node.arity = 0
  · rw [children, hempty, below?_eq_none_iff.2 (by omega)]
    rfl
  · have hlast : node.arity - 1 < node.arity := Nat.sub_one_lt hempty
    rw [children, ← getLast?_partsAt_range hlast, Nat.sub_one_add_one hempty]

theorem Node.slotTokens_eq (node : Node) :
    node.slotTokens = (List.range node.arity).filterMap node.tokenBelow? := by
  rw [slotTokens, children, partsAt, List.filterMap_filterMap]
  rfl

namespace ListView

/-- A view of a list of the tree. -/
structure Valid (tree : Tree) (list : ListView) : Prop where
  standing : list.node.Stands tree
  shape : list.node.green.listShape? = some list.shape

/-- A view with the shape of its list, which is tidy. -/
structure Laid (list : ListView) : Prop where
  tidy : list.node.green.Tidy
  shape : list.node.green.listShape? = some list.shape

/-- The slot of an element. -/
def placeOf (list : ListView) (element : Nat) : Nat :=
  if list.shape = .separated then 2 * element else element

variable {tree : Tree} {list : ListView}

theorem length_eq (list : ListView) :
    list.length = if list.shape = .separated then (list.node.arity + 1) / 2 else list.node.arity := by
  unfold length
  cases list.shape <;> rfl

theorem slotOf_eq (list : ListView) (index : Nat) : list.slotOf index =
    if list.shape = .separated then
      if index * 2 < slotBound then .ok (index * 2) else .error .slotOverflow
    else .ok index := by
  unfold slotOf
  cases list.shape <;> rfl

theorem slotOf_total (list : ListView) (i : Nat) : list.slotOf i = .ok (list.placeOf i) ∨
    list.slotOf i = .error .slotOverflow ∧ slotBound ≤ list.placeOf i := by
  rw [slotOf_eq]
  unfold placeOf
  split_ifs with hseparated hbound
  · exact .inl (congrArg _ (Nat.mul_comm i 2))
  · exact .inr ⟨rfl, by omega⟩
  · exact .inl rfl

theorem slotOf_of_lt {i : Nat} (h : list.placeOf i < slotBound) :
    list.slotOf i = .ok (list.placeOf i) :=
  (list.slotOf_total i).resolve_right fun hlarge => Nat.not_le.2 h hlarge.2

theorem elementOf?_eq (list : ListView) (slot : Nat) : list.elementOf? slot =
    if list.shape = .separated then if slot % 2 = 0 then some (slot / 2) else none
    else some slot := by
  unfold elementOf?
  cases list.shape with
  | separated => by_cases h : slot % 2 = 0 <;> simp [h]
  | empty | single | many => rfl

theorem elementOf?_eq_some_iff {i slot : Nat} :
    list.elementOf? slot = some i ↔ slot = list.placeOf i := by
  rw [elementOf?_eq]
  unfold placeOf
  split_ifs
  · rw [Option.some_inj]
    omega
  · exact iff_of_false nofun (by omega)
  · rw [Option.some_inj]

theorem placeOf_lt_arity_iff {i : Nat} : list.placeOf i < list.node.arity ↔ i < list.length := by
  rw [length_eq]
  unfold placeOf
  split_ifs
  · omega
  · rfl

namespace Laid

theorem below?_cases (h : list.Laid) {slot : Nat} (hslot : slot < list.node.arity) :
    ((list.shape ≠ .separated ∨ slot % 2 = 0) ∧ (∃ n, list.node.nodeBelow? slot = some n) ∧
      list.node.tokenBelow? slot = none) ∨
    ((list.shape = .separated ∧ slot % 2 = 1) ∧ list.node.nodeBelow? slot = none ∧
      ∃ t, list.node.tokenBelow? slot = some t) := by
  obtain ⟨element, hbelow⟩ := Option.isSome_iff_exists.1 (Node.below?_isSome.2 hslot)
  have hplace := h.tidy.isNode_slot h.shape (Node.below?_green hbelow)
  rw [Node.nodeBelow?, Node.tokenBelow?, hbelow]
  cases element with
  | node n => exact .inl ⟨hplace.1 rfl, ⟨n, rfl⟩, rfl⟩
  | token t =>
    refine .inr ⟨?_, rfl, t, rfl⟩
    have hnot : ¬ (list.shape ≠ .separated ∨ slot % 2 = 0) :=
      fun hnode => Bool.false_ne_true (hplace.2 hnode)
    rw [not_or, not_not] at hnot
    exact ⟨hnot.1, Nat.mod_two_ne_zero.1 hnot.2⟩

/-- **The elements of a list are the nodes in its slots.** -/
theorem nodes_eq (h : list.Laid) : list.node.nodes =
    (List.range list.length).filterMap fun i => list.node.nodeBelow? (list.placeOf i) := by
  rw [Node.nodes, Node.nodesAt, length_eq]
  unfold placeOf
  split_ifs with hseparated
  · refine filterMap_range_half (Nat.zero_lt_two) fun i hi hparity => ?_
    rcases h.below?_cases hi with ⟨hplace, -, -⟩ | ⟨-, hnone, -⟩
    · exact absurd hplace (by simp [hseparated, hparity])
    · exact hnone
  · rfl

theorem nodeBelow?_placeOf (h : list.Laid) {i : Nat}
    (hi : i < list.length) : list.placeOf i < list.node.arity ∧
      (list.node.nodeBelow? (list.placeOf i)).isSome := by
  have hslot := placeOf_lt_arity_iff.2 hi
  refine ⟨hslot, ?_⟩
  rcases h.below?_cases hslot with ⟨-, hsome, -⟩ | ⟨⟨hseparated, hodd⟩, -, -⟩
  · exact Option.isSome_iff_exists.2 hsome
  · rw [placeOf, if_pos hseparated] at hodd
    omega

theorem nodes_get (h : list.Laid) :
    list.node.nodes.length = list.length ∧ ∀ i, list.node.nodes[i]? =
      if i < list.length then list.node.nodeBelow? (list.placeOf i) else none := by
  rw [h.nodes_eq]
  exact getElem?_filterMap_range fun i hi => (h.nodeBelow?_placeOf hi).2

/-- **The separators of a list are the tokens in its slots.** -/
theorem slotTokens_eq (h : list.Laid) : list.node.slotTokens =
    (List.range list.separatorCount).filterMap fun i => list.node.tokenBelow? (2 * i + 1) := by
  rw [Node.slotTokens_eq, separatorCount, length_eq]
  split_ifs with hseparated
  · rw [filterMap_range_half Nat.one_lt_two fun i hi hparity => ?_]
    · congr 2
      omega
    · rcases h.below?_cases hi with ⟨-, -, hnone⟩ | ⟨hplace, -, -⟩
      · exact hnone
      · exact absurd hplace.2 hparity
  · rw [Nat.sub_self, List.filterMap_eq_nil_iff.2 fun slot hslot => ?_]
    · rfl
    · rcases h.below?_cases (List.mem_range.1 hslot) with ⟨-, -, hnone⟩ | ⟨hplace, -, -⟩
      · exact hnone
      · exact absurd hplace.1 hseparated

theorem slotTokens_get (h : list.Laid) :
    list.node.slotTokens.length = list.separatorCount ∧ ∀ i, list.node.slotTokens[i]? =
      if i < list.separatorCount then list.node.tokenBelow? (2 * i + 1) else none := by
  rw [h.slotTokens_eq]
  refine getElem?_filterMap_range fun i hi => ?_
  rw [separatorCount, length_eq] at hi
  split_ifs at hi with hseparated
  · rcases h.below?_cases (show 2 * i + 1 < list.node.arity by omega) with
      ⟨hplace, -, -⟩ | ⟨-, -, hsome⟩
    · rcases hplace with hplain | heven
      · exact absurd hseparated hplain
      · omega
    · exact Option.isSome_iff_exists.2 hsome
  · omega

theorem isEmpty_iff (h : list.Laid) : list.isEmpty = true ↔ list.length = 0 := by
  rw [isEmpty, beq_iff_eq, h.tidy.shape_eq_empty_iff h.shape, length_eq]
  change list.node.arity = 0 ↔ _
  split_ifs
  · omega
  · rfl

/-- **A list ends in a separator exactly if its last slot holds a token.** -/
theorem endsInSeparator_iff (h : list.Laid) : list.endsInSeparator = true ↔
    ∃ token, list.node.below? (list.node.arity - 1) = some (.token token) := by
  rw [endsInSeparator, Bool.and_eq_true, beq_iff_eq, beq_iff_eq]
  constructor
  · rintro ⟨hshape, heven⟩
    have hpos : list.node.arity ≠ 0 := fun hzero => by
      have hempty := (h.tidy.shape_eq_empty_iff h.shape).2 hzero
      cases hshape.symm.trans hempty
    rcases h.below?_cases (Nat.sub_one_lt hpos) with ⟨hplace, -, -⟩ | ⟨-, -, t, ht⟩
    · rcases hplace with hplain | hodd
      · exact absurd hshape hplain
      · omega
    · exact ⟨t, Node.below?_of_tokenBelow? ht⟩
  · rintro ⟨token, hbelow⟩
    have hlast : list.node.arity - 1 < list.node.arity := Node.below?_isSome.1 (hbelow ▸ rfl)
    rcases h.below?_cases hlast with ⟨-, ⟨n, hnode⟩, -⟩ | ⟨⟨hshape, hodd⟩, -, -⟩
    · cases hbelow.symm.trans (Node.below?_of_nodeBelow? hnode)
    · exact ⟨hshape, by omega⟩

end Laid

namespace Valid

theorem laid (h : Valid tree list) (fits : tree.Fits) : list.Laid :=
  ⟨(h.standing.wellFormed fits).tidy, h.shape⟩

/-! ## Members of the rows -/

theorem length_slotTokens (h : Valid tree list) (fits : tree.Fits) :
    list.node.slotTokens.length = list.separatorCount := (h.laid fits).slotTokens_get.1

theorem slotOf_cases (h : Valid tree list) {i : Nat} (hi : list.placeOf i < list.node.arity) :
    list.slotOf i = .ok (list.placeOf i) ∨
      (∃ violation, list.slotOf i = .error violation) ∧ ¬ tree.Narrow := by
  refine (list.slotOf_total i).imp_right fun ⟨hfails, hlarge⟩ => ⟨⟨_, hfails⟩, fun narrow => ?_⟩
  have harity : list.node.arity ≤ UInt32.size :=
    narrow list.node.path list.node.green h.standing.at?
  have hsize : UInt32.size ≤ slotBound := by decide
  omega

theorem slotOf_settles (h : Valid tree list) {i : Nat} (hi : list.placeOf i < list.node.arity) :
    Query.Settles tree (liftM (list.slotOf i)) (.ok (list.placeOf i)) :=
  ⟨list.slotOf i, Query.Answers.lift _, h.slotOf_cases hi⟩

theorem elementNode_settles (h : Valid tree list) (fits : tree.Fits) {i : Nat} {n : Node}
    (hnode : list.node.nodes[i]? = some n) : i < list.length ∧
      Query.Settles tree (liftM (list.slotOf i)) (.ok (list.placeOf i)) ∧
      Query.Settles tree (list.elementNode (list.placeOf i)) (.ok n) := by
  rw [(h.laid fits).nodes_get.2] at hnode
  split_ifs at hnode with hi
  refine ⟨hi, h.slotOf_settles ((h.laid fits).nodeBelow?_placeOf hi).1, ?_⟩
  have hbelow := Node.below?_of_nodeBelow? hnode
  exact (Node.slotAt_gives h.standing fits hbelow).settles.bind_ok (Query.Settles.pure _)

/-- **An element of the list is a node of the row**, and there are no others. -/
theorem get?_settles (h : Valid tree list) (fits : tree.Fits) (i : Nat) :
    Query.Settles tree (list.get? i) (.ok list.node.nodes[i]?) := by
  unfold ListView.get?
  cases hnode : list.node.nodes[i]? with
  | some n =>
    obtain ⟨hi, hslot, helement⟩ := h.elementNode_settles fits hnode
    rw [if_pos hi]
    exact hslot.bind_ok (helement.bind_ok (Query.Settles.pure _))
  | none =>
    rw [List.getElem?_eq_none_iff, (h.laid fits).nodes_get.1] at hnode
    rw [if_neg (Nat.not_lt.2 hnode)]
    exact Query.Settles.pure none

theorem element_settles (h : Valid tree list) (fits : tree.Fits) (i : Nat) :
    Query.Settles tree (list.element i) (match list.node.nodes[i]? with
      | some n => .ok n
      | none => .error (.noSuchElement i list.length)) := by
  unfold ListView.element
  cases hnode : list.node.nodes[i]? with
  | some n =>
    obtain ⟨hi, hslot, helement⟩ := h.elementNode_settles fits hnode
    rw [if_pos hi]
    exact hslot.bind_ok helement
  | none =>
    rw [List.getElem?_eq_none_iff, (h.laid fits).nodes_get.1] at hnode
    rw [if_neg (Nat.not_lt.2 hnode)]
    exact (Query.Gives.throw _).settles

/-- **A separator of the list is a token of the row.** In a separated list its slot has to be a slot
number. -/
theorem separator?_gives (h : Valid tree list) (fits : tree.Fits) (i : Nat) :
    Query.Gives tree (list.separator? i)
      (if list.shape = .separated ∧ slotBound ≤ i * 2 then .error .slotOverflow
      else .ok list.node.slotTokens[i]?) := by
  rw [(h.laid fits).slotTokens_get.2, separatorCount, length_eq]
  unfold separator?
  cases hshape : list.shape with
  | separated =>
    dsimp only
    rw [if_pos rfl]
    by_cases hbound : slotBound ≤ i * 2
    · have htwice : twice i = .error .slotOverflow := if_neg (Nat.not_lt.2 hbound)
      rw [if_pos ⟨rfl, hbound⟩, htwice]
      exact (Query.Gives.lift _).bind_error
    · have htwice : twice i = .ok (i * 2) := if_pos (Nat.not_le.1 hbound)
      rw [if_neg (fun hboth => hbound hboth.2), htwice]
      refine (Query.Gives.lift (.ok _)).bind_ok ((Node.slot?_gives h.standing fits _).bind_ok ?_)
      have htoken : (if i < list.node.arity - (list.node.arity + 1) / 2 then
          list.node.tokenBelow? (2 * i + 1) else none) = list.node.tokenBelow? (i * 2 + 1) := by
        split_ifs with hi
        · rw [Nat.mul_comm]
        · rw [Node.tokenBelow?, Node.below?_eq_none_iff.2 (by omega)]
          rfl
      rw [htoken]
      exact Query.Gives.pure _
  | empty | single | many =>
    dsimp only
    rw [if_neg (by simp), if_neg (by simp)]
    exact Query.Gives.pure none

theorem separators_settles (h : Valid tree list) (fits : tree.Fits) :
    Query.Settles tree list.separators (.ok list.node.slotTokens) := by
  have hone : ∀ i ∈ List.range list.separatorCount,
      Query.Settles tree (list.separator? i) (.ok (list.node.tokenBelow? (2 * i + 1))) := by
    intro i hi
    have hlt := List.mem_range.1 hi
    obtain ⟨given, hgiven, hsame | ⟨hfails, hwide⟩⟩ := h.separator?_gives fits i
    · rw [(h.laid fits).slotTokens_get.2, if_pos hlt] at hsame
      refine ⟨given, hgiven, ?_⟩
      split_ifs at hsame with hbound
      · refine .inr ⟨⟨_, hsame⟩, fun narrow => ?_⟩
        have harity : list.node.arity ≤ UInt32.size :=
          narrow list.node.path list.node.green h.standing.at?
        have hsize : UInt32.size ≤ slotBound := by decide
        rw [separatorCount, length_eq, if_pos hbound.1] at hlt
        omega
      · exact .inl hsame
    · exact ⟨given, hgiven, .inr ⟨⟨_, hfails⟩, hwide⟩⟩
  have hrow : ((List.range list.separatorCount).map fun i =>
      list.node.tokenBelow? (2 * i + 1)).filterMap id = list.node.slotTokens := by
    rw [List.filterMap_map, (h.laid fits).slotTokens_eq]
    rfl
  rw [← hrow]
  exact (Query.Settles.mapM hone).bind_ok (Query.Settles.pure _)

end Valid

/-! ## Elements one by one -/

namespace Cursor

/-- A cursor that was made for a list of the tree. -/
structure Valid (tree : Tree) (cursor : Cursor) : Prop where
  list : cursor.list.Valid tree
  front_le : cursor.front ≤ cursor.back
  back_le : cursor.back ≤ cursor.list.length

/-- The elements that are left. -/
def left (cursor : Cursor) : List Node := (cursor.list.node.nodes.drop cursor.front).take cursor.length

variable {cursor : Cursor}

theorem valid_cursor (h : list.Valid tree) : Valid tree list.cursor :=
  ⟨h, Nat.zero_le _, Nat.le_refl _⟩

theorem cursor_left (h : list.Valid tree) (fits : tree.Fits) : list.cursor.left = list.node.nodes :=
  List.take_of_length_le (Nat.le_of_eq (h.laid fits).nodes_get.1)

namespace Valid

theorem of_mem_left (h : Valid tree cursor) {n : Node} (hmem : n ∈ cursor.left) :
    n.Stands tree := by
  have hnode : n ∈ cursor.list.node.nodes := List.mem_of_mem_drop (List.mem_of_mem_take hmem)
  obtain ⟨slot, -, hbelow⟩ := List.mem_filterMap.1 hnode
  exact h.list.standing.nodeBelow? hbelow

theorem length_left (h : Valid tree cursor) (fits : tree.Fits) :
    cursor.left.length = cursor.length := by
  have hback := h.back_le
  have hnodes := (h.list.laid fits).nodes_get.1
  rw [left, List.length_take, List.length_drop, hnodes, length]
  omega

theorem element_at (h : Valid tree cursor) (fits : tree.Fits) {i : Nat} (hi : i < cursor.back) :
    ∃ hlt : i < cursor.list.node.nodes.length,
      Query.Settles tree (cursor.list.element i) (.ok cursor.list.node.nodes[i]) := by
  have hback := h.back_le
  have hlt : i < cursor.list.node.nodes.length := by
    rw [(h.list.laid fits).nodes_get.1]
    omega
  have helement := h.list.element_settles fits i
  rw [List.getElem?_eq_getElem hlt] at helement
  exact ⟨hlt, helement⟩

theorem left_nil (hend : cursor.front = cursor.back) : cursor.left = [] := by
  rw [left, length, hend, Nat.sub_self, List.take_zero]

/-- **The next element is the first of those that are left.** -/
theorem next_settles (h : Valid tree cursor) (fits : tree.Fits) :
    ∃ rest : Cursor, rest.Valid tree ∧ rest.left = cursor.left.tail ∧
      Query.Settles tree cursor.next (.ok (cursor.left.head?, rest)) := by
  unfold ListView.Cursor.next
  by_cases hend : cursor.front = cursor.back
  · rw [if_pos (beq_iff_eq.2 hend), left_nil hend]
    exact ⟨cursor, h, left_nil hend, Query.Settles.pure _⟩
  · have hlt : cursor.front < cursor.back := Nat.lt_of_le_of_ne h.front_le hend
    obtain ⟨hnode, helement⟩ := h.element_at fits hlt
    have hleft : cursor.left = cursor.list.node.nodes[cursor.front] ::
        left { cursor with front := cursor.front + 1 } := by
      rw [left, left, List.drop_eq_getElem_cons hnode, length, length,
        show cursor.back - cursor.front = cursor.back - (cursor.front + 1) + 1 by omega,
        List.take_succ_cons]
    rw [if_neg (by simpa using hend), hleft]
    exact ⟨{ cursor with front := cursor.front + 1 }, ⟨h.list, hlt, h.back_le⟩, rfl,
      helement.bind_ok (Query.Settles.pure _)⟩

/-- **The next element from the back is the last of those that are left.** -/
theorem nextBack_settles (h : Valid tree cursor) (fits : tree.Fits) :
    ∃ rest : Cursor, rest.Valid tree ∧ rest.left = cursor.left.dropLast ∧
      Query.Settles tree cursor.nextBack (.ok (cursor.left.getLast?, rest)) := by
  unfold ListView.Cursor.nextBack
  by_cases hend : cursor.front = cursor.back
  · rw [if_pos (beq_iff_eq.2 hend), left_nil hend]
    exact ⟨cursor, h, left_nil hend, Query.Settles.pure _⟩
  · have hlt : cursor.front < cursor.back := Nat.lt_of_le_of_ne h.front_le hend
    have hback := h.back_le
    obtain ⟨hnode, helement⟩ := h.element_at fits (show cursor.back - 1 < cursor.back by omega)
    have hleft : cursor.left = left { cursor with back := cursor.back - 1 } ++
        [cursor.list.node.nodes[cursor.back - 1]] := by
      have hplace : cursor.back - 1 - cursor.front <
          (cursor.list.node.nodes.drop cursor.front).length := by
        rw [List.length_drop]
        omega
      have hlast : (cursor.list.node.nodes.drop cursor.front)[cursor.back - 1 - cursor.front] =
          cursor.list.node.nodes[cursor.back - 1] := by
        rw [List.getElem_drop]
        congr 1
        omega
      rw [left, left, length, length, ← hlast, List.take_append_getElem hplace,
        show cursor.back - cursor.front = cursor.back - 1 - cursor.front + 1 by omega]
    rw [if_neg (by simpa using hend), hleft, List.getLast?_concat]
    refine ⟨{ cursor with back := cursor.back - 1 }, ⟨h.list, Nat.le_sub_one_of_lt hlt, ?_⟩,
      List.dropLast_concat.symm, helement.bind_ok (Query.Settles.pure _)⟩
    change cursor.back - 1 ≤ cursor.list.length
    omega

end Valid

end Cursor

end ListView

end LosslessSyntax.Placed
