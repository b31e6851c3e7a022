import LosslessSyntax.Proofs.Separators

/-!
# Elements by their numbers

A list view works with the shape and with the number of slots, and never looks into the slots. The
slots that it counts for the elements are nevertheless those that hold nodes, in order, and all others
hold the separators: that is what the shape of a tidy list stands for.

* `Placed.ListView.Numbered`: elements that are counted by the slots that hold nodes;
* `Placed.ListView.Separates`: separators that follow the elements;
* `Placed.ListView.Finds`: what comes of asking for an element, in three ways;
* **`Placed.ListView.Laid.numbered`**: what is counted;
* **`Placed.ListView.Lives.separates`**, **`Placed.ListView.Lives.finds_at`**: what is answered;
* **`Session.elements_by_number`**: so it is with all lists that a caller holds.
-/

namespace LosslessSyntax

namespace Placed

/-- Queries that leave the memo as it is do so one after the other, too: if none of them is refused
their answers are given, else all is refused. -/
theorem Query.mapM_still {α β : Type} {query : α → Query β} {f : α → β} {fits : α → Prop}
    {memo : Memo} {row : List α} (given : ∀ x ∈ row, fits x → query x memo = .ok (f x) memo)
    (refused : ∀ x ∈ row, ¬ fits x → ∃ violation, query x memo = .error violation memo) :
    ((∀ x ∈ row, fits x) → row.mapM query memo = .ok (row.map f) memo) ∧
    ((∃ x ∈ row, ¬ fits x) → ∃ violation, row.mapM query memo = .error violation memo) := by
  induction row with
  | nil =>
    refine ⟨fun _ => rfl, ?_⟩
    rintro ⟨x, hx, -⟩
    exact absurd hx List.not_mem_nil
  | cons x row ih =>
    obtain ⟨hgiven, hrefused⟩ := ih (fun y hy => given y (List.mem_cons_of_mem _ hy))
      (fun y hy => refused y (List.mem_cons_of_mem _ hy))
    have hrun : (x :: row).mapM query memo =
        EStateM.bind (query x) (fun first => EStateM.map (first :: ·) (row.mapM query)) memo := by
      rw [List.mapM_cons]
      rfl
    rw [hrun, EStateM.bind]
    by_cases hx : fits x
    · rw [given x List.mem_cons_self hx]
      dsimp only
      rw [EStateM.map]
      constructor
      · intro hall
        rw [hgiven fun y hy => hall y (List.mem_cons_of_mem _ hy)]
        rfl
      · rintro ⟨y, hy, hnot⟩
        have hlater := (List.mem_cons.1 hy).resolve_left fun hsame => hnot (hsame ▸ hx)
        obtain ⟨violation, hfails⟩ := hrefused ⟨y, hlater, hnot⟩
        rw [hfails]
        exact ⟨violation, rfl⟩
    · obtain ⟨violation, hfails⟩ := refused x List.mem_cons_self hx
      rw [hfails]
      exact ⟨fun hall => absurd (hall x List.mem_cons_self) hx, fun _ => ⟨violation, rfl⟩⟩

namespace ListView

/-- The elements of a list are counted by the slots that hold nodes, in order, and the two ways to
count them are inverse to each other. -/
structure Numbered (list : ListView) : Prop where
  slotOf_ok : ∀ i < list.length, ∃ slot, list.slotOf i = .ok slot
  increasing : ∀ i j slot slot', i < j → j < list.length → list.slotOf i = .ok slot →
    list.slotOf j = .ok slot' → slot < slot'
  onto : ∀ slot, (∃ n, list.node.below? slot = some (.node n)) ↔
    ∃ i < list.length, list.slotOf i = .ok slot
  inverse : ∀ slot < list.node.arity, ∀ i,
    list.elementOf? slot = some i ↔ i < list.length ∧ list.slotOf i = .ok slot

/-- The separators of a list are the tokens in its slots, in order, each in the slot after its
element; they are given unless one of them is out of bounds. -/
structure Separates (list : ListView) (memo : Memo) : Prop where
  count : list.node.slotTokens.length = list.separatorCount
  follows : ∀ i < list.separatorCount, ∃ slot token, list.slotOf i = .ok slot ∧
    list.node.below? (slot + 1) = some (.token token) ∧
    list.node.slotTokens[i]? = some token ∧
    (token.start ≤ maxSize → token.slot ≤ maxSlot →
      list.separator? i memo = .ok (some token) memo)
  all : if ∀ token ∈ list.node.slotTokens, token.start ≤ maxSize ∧ token.slot ≤ maxSlot then
      list.separators memo = .ok list.node.slotTokens memo
    else ∃ violation, list.separators memo = .error violation memo

/-- All three ways to ask for an element lead to the node in its slot. It is placed and given unless
it is out of bounds, and a look finds it if it was placed before; but no way leads to a token. -/
def Finds (list : ListView) (memo : Memo) (i : Nat) : Prop :=
  ∃ slot n, list.slotOf i = .ok slot ∧ list.node.below? slot = some (.node n) ∧
    (if n.start ≤ maxSize ∧ slot ≤ maxSlot then
      ∃ memo' : Memo, n.address ∈ memo' ∧ list.element i memo = .ok n memo' ∧
        list.get? i memo = .ok (some n) memo'
    else ∃ violation, (violation = .sizeOverflow ∨ violation = .slotTooLarge) ∧
      list.element i memo = .error violation memo ∧
      list.get? i memo = .error violation memo) ∧
    list.placed? i memo = .ok (if n.address ∈ memo then some n else none) memo

variable {tree : Tree} {memo : Memo} {list : ListView} {i slot : Nat}

/-! ## Counting -/

theorem placeOf_lt {j : Nat} (hlt : i < j) : list.placeOf i < list.placeOf j := by
  unfold placeOf
  split_ifs
  · omega
  · exact hlt

theorem slotOf_ok_iff (counted : list.node.arity ≤ slotBound) (hi : i < list.length) :
    list.slotOf i = .ok slot ↔ slot = list.placeOf i := by
  have hplace := placeOf_lt_arity_iff.2 hi
  rw [slotOf_of_lt (Nat.lt_of_lt_of_le hplace counted), Except.ok.injEq, eq_comm]

namespace Laid

theorem below?_iff (h : list.Laid) : (∃ n, list.node.below? slot = some (.node n)) ↔
    ∃ i < list.length, slot = list.placeOf i := by
  constructor
  · rintro ⟨n, hbelow⟩
    have hslot : slot < list.node.arity := Node.below?_isSome.1 (by rw [hbelow]; rfl)
    have hplace := (h.tidy.isNode_slot h.shape (Node.below?_green hbelow)).1 rfl
    have helement : slot = list.placeOf (if list.shape = .separated then slot / 2 else slot) := by
      unfold placeOf
      split_ifs with hshape
      · have heven := hplace.resolve_left (not_not.2 hshape)
        omega
      · rfl
    exact ⟨_, placeOf_lt_arity_iff.1 (helement ▸ hslot), helement⟩
  · rintro ⟨i, hi, rfl⟩
    obtain ⟨n, hnode⟩ := Option.isSome_iff_exists.1 (h.nodeBelow?_placeOf hi).2
    exact ⟨n, Node.below?_of_nodeBelow? hnode⟩

/-- **What a view counts are the slots that hold nodes.** -/
theorem numbered (h : list.Laid) (counted : list.node.arity ≤ slotBound) : list.Numbered where
  slotOf_ok i hi := ⟨_, (slotOf_ok_iff counted hi).2 rfl⟩
  increasing i j slot slot' hlt hj hslot hslot' := by
    rw [(slotOf_ok_iff counted (Nat.lt_trans hlt hj)).1 hslot, (slotOf_ok_iff counted hj).1 hslot']
    exact placeOf_lt hlt
  onto slot := by
    rw [h.below?_iff]
    exact exists_congr fun i => and_congr_right fun hi => (slotOf_ok_iff counted hi).symm
  inverse slot hslot i := by
    rw [elementOf?_eq_some_iff]
    constructor
    · rintro rfl
      have hi := placeOf_lt_arity_iff.1 hslot
      exact ⟨hi, (slotOf_ok_iff counted hi).2 rfl⟩
    · rintro ⟨hi, hplace⟩
      exact (slotOf_ok_iff counted hi).1 hplace

end Laid

/-! ## Elements -/

theorem fill_error {node : Node} {green : Green.Node} {violation : Violation}
    (h : node.fill slot green memo = .error violation) :
    violation = .sizeOverflow ∨ violation = .slotTooLarge := by
  unfold Node.fill at h
  split_ifs at h
  rw [Node.offsetBelow_eq] at h
  split_ifs at h <;> cases h
  · exact .inr rfl
  · exact .inl rfl

theorem Lives.elementNode_run (h : list.Lives tree memo) (sound : tree.Sound memo) {n : Node}
    (hbelow : list.node.below? slot = some (.node n)) :
    list.elementNode slot memo = match list.node.fill slot n.green memo with
      | .ok memo' => .ok n memo'
      | .error violation => .error violation memo := by
  unfold elementNode
  change EStateM.bind (list.node.slotAt slot) _ memo = _
  rw [EStateM.bind, Node.slotAt_run sound h.node.standing, hbelow]
  dsimp only
  cases list.node.fill slot n.green memo <;> rfl

/-- **Whoever asks for an element comes to the node in its slot**, if that has a number. -/
theorem Lives.finds_at (h : list.Lives tree memo) (sound : tree.Sound memo) (hi : i < list.length)
    (hslot : list.slotOf i = .ok (list.placeOf i)) : list.Finds memo i := by
  obtain ⟨n, hbelow⟩ := (h.laid sound).below?_iff.2 ⟨i, hi, rfl⟩
  have hrun := h.elementNode_run sound hbelow
  have hstart : n.start = list.node.start + list.node.green.before (list.placeOf i) :=
    Node.below?_start hbelow
  have hfill := Node.fill_ok_iff sound h.node.standing (Node.below?_green hbelow) n.green
  have helement : list.element i memo = list.elementNode (list.placeOf i) memo := by
    unfold element
    rw [if_pos hi, hslot]
    rfl
  have hget : list.get? i memo = EStateM.map some (list.elementNode (list.placeOf i)) memo := by
    unfold get?
    rw [if_pos hi, hslot]
    rfl
  refine ⟨_, n, hslot, hbelow, ?_, ?_⟩
  · rw [helement, hget, EStateM.map, hrun, hstart]
    split_ifs with hbounds
    · obtain ⟨memo', hmemo⟩ := hfill.2 hbounds
      rw [hmemo]
      refine ⟨memo', ?_, rfl, rfl⟩
      rw [Node.below?_address hbelow]
      exact (Node.getElem?_fill hmemo).1
    · cases hmemo : list.node.fill (list.placeOf i) n.green memo with
      | ok memo' => exact absurd (hfill.1 ⟨memo', hmemo⟩) hbounds
      | error violation => exact ⟨violation, fill_error hmemo, rfl, rfl⟩
  · unfold placed?
    rw [if_pos hi, hslot]
    change list.node.placedAt? (list.placeOf i) memo = _
    rw [Node.placedAt?_eq sound h.node.standing, hbelow]

theorem Lives.finds (h : list.Lives tree memo) (sound : tree.Sound memo)
    (counted : list.node.arity ≤ slotBound) (hi : i < list.length) : list.Finds memo i :=
  h.finds_at sound hi ((slotOf_ok_iff counted hi).2 rfl)

/-! ## Separators -/

theorem Lives.separator_at (h : list.Lives tree memo) (sound : tree.Sound memo)
    (counted : list.node.arity ≤ slotBound) (hi : i < list.separatorCount) :
    ∃ token, list.slotOf i = .ok (2 * i) ∧
      list.node.below? (2 * i + 1) = some (.token token) ∧
      list.node.tokenBelow? (2 * i + 1) = some token ∧ token.slot = 2 * i + 1 ∧
      if token.start ≤ maxSize ∧ token.slot ≤ maxSlot then
        list.separator? i memo = .ok (some token) memo
      else ∃ violation, list.separator? i memo = .error violation memo := by
  obtain ⟨token, hbelow, hgiven⟩ := h.separator?_given sound hi
  obtain ⟨hshape, hlt⟩ := lt_separatorCount_iff.1 hi
  rw [Nat.mul_comm] at hbelow hgiven hlt
  have hslot : token.slot = 2 * i + 1 := (Node.below?_parent hbelow).2
  have hplace : 2 * i = list.placeOf i := (if_pos hshape).symm
  have hi' : i < list.length := placeOf_lt_arity_iff.1 (by omega)
  refine ⟨token, (slotOf_ok_iff counted hi').2 hplace, hbelow, ?_, hslot, ?_⟩
  · rw [Node.tokenBelow?, hbelow]
    rfl
  · rwa [hslot]

theorem Lives.separators_run (h : list.Lives tree memo) (sound : tree.Sound memo)
    (counted : list.node.arity ≤ slotBound) :
    if ∀ token ∈ list.node.slotTokens, token.start ≤ maxSize ∧ token.slot ≤ maxSlot then
      list.separators memo = .ok list.node.slotTokens memo
    else ∃ violation, list.separators memo = .error violation memo := by
  let fits (i : Nat) : Prop := ∀ token, list.node.tokenBelow? (2 * i + 1) = some token →
    token.start ≤ maxSize ∧ token.slot ≤ maxSlot
  have given : ∀ i ∈ List.range list.separatorCount, fits i →
      list.separator? i memo = .ok (list.node.tokenBelow? (2 * i + 1)) memo := fun i hi hfits => by
    obtain ⟨token, -, -, htoken, -, hif⟩ := h.separator_at sound counted (List.mem_range.1 hi)
    rwa [if_pos (hfits token htoken), ← htoken] at hif
  have refused : ∀ i ∈ List.range list.separatorCount, ¬ fits i →
      ∃ violation, list.separator? i memo = .error violation memo := fun i hi hnot => by
    obtain ⟨token, -, -, htoken, -, hif⟩ := h.separator_at sound counted (List.mem_range.1 hi)
    refine (if_neg fun hbounds => hnot fun token' htoken' => ?_).mp hif
    cases htoken.symm.trans htoken'
    exact hbounds
  obtain ⟨hgiven, hrefused⟩ := Query.mapM_still given refused
  have hrun : list.separators memo =
      EStateM.map (List.filterMap id) ((List.range list.separatorCount).mapM list.separator?)
        memo := rfl
  rw [hrun, EStateM.map, (h.laid sound).slotTokens_eq]
  simp only [List.forall_mem_filterMap]
  split_ifs with hbounds
  · rw [hgiven hbounds]
    dsimp only
    rw [List.filterMap_map]
    rfl
  · have hnot : ∃ i ∈ List.range list.separatorCount, ¬ fits i := by
      by_contra hall
      push Not at hall
      exact hbounds hall
    obtain ⟨violation, hfails⟩ := hrefused hnot
    rw [hfails]
    exact ⟨violation, rfl⟩

/-- **The separators of a list are given in order, each after its element.** -/
theorem Lives.separates (h : list.Lives tree memo) (sound : tree.Sound memo)
    (counted : list.node.arity ≤ slotBound) : list.Separates memo where
  count := (h.laid sound).slotTokens_get.1
  follows i hi := by
    obtain ⟨token, hplace, hbelow, htoken, hslot, hgiven⟩ := h.separator_at sound counted hi
    refine ⟨2 * i, token, hplace, hbelow, ?_, fun hstart hbound => ?_⟩
    · rw [(h.laid sound).slotTokens_get.2, if_pos hi, htoken]
    · rwa [if_pos ⟨hstart, hbound⟩] at hgiven
  all := h.separators_run sound counted

end ListView

end Placed

namespace Session

open Placed

/-- **Elements by their numbers**, in all lists that a caller holds, wherever a series of moves leads;
the slots of a node have slot numbers. The elements are counted by the slots that hold nodes, and each
of them is found there, and nothing else. The separators are the tokens in all other slots, each after
its element; the last slot holds one exactly if the list is told to end in a separator. -/
theorem elements_by_number {s : Session} (reached : s.Reachable) {moves : List Grove.Move}
    (planted : s.Plants moves) {list : ListView}
    (held : ⟨.list, list⟩ ∈ (Grove.empty.after moves).handles)
    (counted : list.node.arity ≤ UInt64.size) :
    let memo := (Grove.empty.after moves).memo
    list.Numbered ∧ list.Separates memo ∧ (∀ i < list.length, list.Finds memo i) ∧
    (list.endsInSeparator = true ↔ 0 < list.length ∧
      ∃ token, list.node.below? (list.node.arity - 1) = some (.token token)) ∧
    (list.isEmpty = true ↔ list.length = 0) := by
  intro memo
  have h := Grove.sound_empty.after (planted.wellFormed reached)
  obtain ⟨tree, has, (lives : list.Lives tree memo)⟩ := h.handles _ held
  have sound := h.trees tree has
  have laid := lives.laid sound
  refine ⟨laid.numbered counted, lives.separates sound counted,
    fun i hi => lives.finds sound counted hi, ?_, laid.isEmpty_iff⟩
  rw [laid.endsInSeparator_iff, iff_and_self]
  rintro ⟨token, hbelow⟩
  have hlast : list.node.arity - 1 < list.node.arity := Node.below?_isSome.1 (hbelow ▸ rfl)
  refine Nat.pos_of_ne_zero fun hzero => ?_
  rw [ListView.length_eq] at hzero
  split_ifs at hzero <;> omega

/-- The second argument stands in the third slot, and the comma before it is the only separator. -/
theorem elements_by_number_arguments : ∃ s : Session, s.Reachable ∧
    arguments.toElement ∈ s.parts ∧
    (∃ (n : Node) (memo : Memo), argumentView.slotOf 1 = .ok 2 ∧ argumentView.elementOf? 2 = some 1 ∧
      n.green = argument ∧ argumentView.element 1 ∅ = .ok n memo ∧
      argumentView.get? 1 ∅ = .ok (some n) memo ∧ argumentView.placed? 1 ∅ = .ok none ∅) ∧
    ∃ separator : Token, separator.green = comma ∧
      argumentView.separators ∅ = .ok [separator] ∅ := by
  obtain ⟨s, reached, parts, moves, planted, held, hmemo⟩ := argumentView_held
  obtain ⟨-, hseparates, hfinds, -, -⟩ := elements_by_number reached planted held (by decide)
  rw [hmemo] at hseparates hfinds
  refine ⟨s, reached, parts, ?_, argumentView.node.tokenBelow 1 comma, rfl, ?_⟩
  · obtain ⟨slot, n, hslot, hbelow, helement, hplaced⟩ := hfinds 1 (by decide)
    cases hslot
    obtain rfl : n = argumentView.node.nodeBelow 2 argument := by
      cases hbelow
      rfl
    rw [if_pos ⟨by decide, by decide⟩] at helement
    rw [if_neg (Memo.not_mem_empty _)] at hplaced
    obtain ⟨memo, -, hgiven, hgot⟩ := helement
    exact ⟨_, memo, rfl, rfl, rfl, hgiven, hgot, hplaced⟩
  · have hall := hseparates.all
    have hrow : argumentView.node.slotTokens = [argumentView.node.tokenBelow 1 comma] := rfl
    rw [hrow, if_pos] at hall
    · exact hall
    · intro token htoken
      rw [List.mem_singleton.1 htoken]
      exact ⟨by decide, by decide⟩

end Session

end LosslessSyntax
