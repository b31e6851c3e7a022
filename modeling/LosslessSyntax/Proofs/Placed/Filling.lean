import LosslessSyntax.Proofs.Placed.Slot

/-!
# What a memo may have of a tree

A memo is filled from the top: a node gets into it only when the node above it is there, as it is
placed anew, and it stays there as it is; so no slot is filled twice. The tree need not fit: what is
out of bounds is not placed.

* `Placed.Node.Filled`, `Placed.Node.Lives`: nodes that were placed, and those of a tree;
* `Placed.Tree.Entry`, `Placed.Tree.Sound`: what a tree may have in a memo, and memos with no more;
* **`Placed.Tree.Sound.getElem?_address`**: a node that was placed is in its slot;
* `Placed.Tree.Extends`: a memo that has grown by nodes of a tree;
* `Placed.Node.fill`: the memo with what is in a slot;
* **`Placed.Node.slotAt_run`**, **`Placed.Node.placedAt?_eq`**: what a slot and a look at it come to,
  and what they leave.
-/

namespace LosslessSyntax.Placed

/-! ## Filled places -/

/-- A node was placed if it is a root or the memo has its address. -/
def Node.Filled (memo : Memo) (node : Node) : Prop :=
  node.parent? = none ∨ node.address ∈ memo

/-- A node of a tree that was placed. -/
structure Node.Lives (tree : Tree) (memo : Memo) (node : Node) : Prop where
  standing : node.Stands tree
  filled : node.Filled memo

/-- What a tree may have in a memo: the node in a slot of a node that was placed, at the offset that
placing it anew gives, and as the first one that was made for the slot. -/
def Tree.Entry (tree : Tree) (memo : Memo) (address : Address) (kept : Node) : Prop :=
  ∃ (parent : Node) (slot : Nat) (head : Green.Head) (slots : Array Green.Element),
    parent.Lives tree memo ∧ parent.green.slots[slot]? = some (.node head slots) ∧
    parent.address.child slot = address ∧ parent.placing slot = .ok kept.start ∧
    kept = parent.nodeBelow slot ⟨head, slots⟩

/-- A memo has nothing else of a tree, whose green root is tidy at every depth, and fills no slot
twice. -/
structure Tree.Sound (tree : Tree) (memo : Memo) : Prop where
  wellFormed : tree.green.WellFormed
  fresh : memo.Fresh
  entries : ∀ address kept, memo[address]? = some kept → address.tree = tree.number →
    tree.Entry memo address kept

/-- A memo has grown, and by nothing but nodes of a tree, each of which fills a slot for the first
time. -/
structure Tree.Extends (tree : Tree) (memo memo' : Memo) : Prop where
  grows : memo.Grows memo'
  fresh : memo.Fresh → memo'.Fresh
  added : ∀ address kept, memo'[address]? = some kept → memo[address]? = none →
    tree.Entry memo' address kept

section

variable {tree : Tree} {memo memo' memo'' : Memo} {node kept : Node} {address : Address}

theorem Memo.Grows.mem (h : Memo.Grows memo memo') (hmem : address ∈ memo) : address ∈ memo' := by
  obtain ⟨kept, hkept⟩ := Memo.mem_iff.1 hmem
  exact Memo.mem_iff.2 ⟨kept, h address kept hkept⟩

theorem Node.Filled.mono (h : node.Filled memo) (hgrows : Memo.Grows memo memo') :
    node.Filled memo' := h.imp_right hgrows.mem

theorem Node.Lives.mono (h : node.Lives tree memo) (hgrows : Memo.Grows memo memo') :
    node.Lives tree memo' := ⟨h.standing, h.filled.mono hgrows⟩

theorem Node.lives_root (tree : Tree) (memo : Memo) : tree.root.Lives tree memo := ⟨.root, .inl rfl⟩

theorem Node.Stands.address_tree (standing : node.Stands tree) : node.address.tree = tree.number := by
  induction standing with
  | root => rfl
  | child standing found ih => exact ih

namespace Tree

theorem Entry.mono (h : tree.Entry memo address kept) (hgrows : Memo.Grows memo memo') :
    tree.Entry memo' address kept := by
  obtain ⟨parent, slot, head, slots, hparent, h⟩ := h
  exact ⟨parent, slot, head, slots, hparent.mono hgrows, h⟩

theorem Entry.tree_eq (h : tree.Entry memo address kept) : address.tree = tree.number := by
  obtain ⟨parent, slot, head, slots, hparent, -, rfl, -⟩ := h
  exact hparent.standing.address_tree

/-- What is in a slot of the memo is the node that belongs there, and the node above it was placed. -/
theorem Entry.stands (h : tree.Entry memo address kept) : kept.Stands tree ∧ kept.address = address ∧
    ∃ parent, kept.parent? = some parent ∧ parent.Lives tree memo := by
  obtain ⟨parent, slot, head, slots, hparent, hfound, rfl, -, rfl⟩ := h
  exact ⟨.child hparent.standing hfound, rfl, parent, rfl, hparent⟩

theorem sound_of_none (wellFormed : tree.green.WellFormed) (fresh : memo.Fresh)
    (h : ∀ address : Address, address.tree = tree.number → memo[address]? = none) :
    tree.Sound memo := by
  refine ⟨wellFormed, fresh, fun address kept hkept htree => ?_⟩
  rw [h address htree] at hkept
  cases hkept

theorem Sound.keeps (h : tree.Sound memo) : tree.Keeps memo := by
  refine ⟨h.fresh, fun parent standing slot kept hkept => ?_⟩
  obtain ⟨parent', slot', head, slots, hparent, hfound, haddress, hplacing, rfl⟩ :=
    h.entries _ kept hkept standing.address_tree
  obtain ⟨habove, rfl⟩ := Address.child_inj haddress
  obtain rfl := hparent.standing.eq_of_path standing
    ((hparent.standing.address_eq_iff standing).1 habove)
  exact ⟨_, head, slots, hfound, hplacing, rfl⟩

/-- **A node that was placed is in its slot.** -/
theorem Sound.getElem?_address (h : tree.Sound memo) (standing : node.Stands tree)
    (hmem : node.address ∈ memo) : memo[node.address]? = some node := by
  obtain ⟨kept, hkept⟩ := Memo.mem_iff.1 hmem
  obtain ⟨hstands, haddress, -⟩ := (h.entries _ kept hkept standing.address_tree).stands
  rw [hkept, hstands.eq_of_path standing ((hstands.address_eq_iff standing).1 haddress)]

theorem Extends.refl (tree : Tree) (memo : Memo) : tree.Extends memo memo := by
  refine ⟨Memo.Grows.refl memo, id, fun address kept hkept hnone => ?_⟩
  rw [hnone] at hkept
  cases hkept

theorem Extends.trans (h : tree.Extends memo memo') (h' : tree.Extends memo' memo'') :
    tree.Extends memo memo'' := by
  refine ⟨h.grows.trans h'.grows, h'.fresh ∘ h.fresh, fun address kept hkept hnone => ?_⟩
  cases hbetween : memo'[address]? with
  | none => exact h'.added address kept hkept hbetween
  | some kept' =>
    have hsame := h'.grows address kept' hbetween
    rw [hkept, Option.some_inj] at hsame
    subst hsame
    exact (h.added address kept hbetween hnone).mono h'.grows

theorem Sound.extend (h : tree.Sound memo) (hext : tree.Extends memo memo') : tree.Sound memo' := by
  refine ⟨h.wellFormed, hext.fresh h.fresh, fun address kept hkept htree => ?_⟩
  cases hbefore : memo[address]? with
  | none => exact hext.added address kept hkept hbefore
  | some kept' =>
    have hsame := hext.grows address kept' hbefore
    rw [hkept, Option.some_inj] at hsame
    subst hsame
    exact (h.entries address kept hbefore htree).mono hext.grows

theorem Extends.other (h : tree.Extends memo memo') (hother : address.tree ≠ tree.number) :
    memo'[address]? = memo[address]? := by
  cases hkept : memo'[address]? with
  | none =>
    cases hbefore : memo[address]? with
    | none => rfl
    | some kept =>
      rw [h.grows address kept hbefore] at hkept
      cases hkept
  | some kept =>
    cases hbefore : memo[address]? with
    | none => exact absurd (h.added address kept hkept hbefore).tree_eq hother
    | some kept' =>
      rw [h.grows address kept' hbefore] at hkept
      exact hkept.symm

theorem Extends.sound_other {other : Tree} (h : tree.Extends memo memo')
    (hother : other.number ≠ tree.number) (sound : other.Sound memo) : other.Sound memo' := by
  refine ⟨sound.wellFormed, h.fresh sound.fresh, fun address kept hkept htree => ?_⟩
  rw [h.other (htree ▸ hother)] at hkept
  exact (sound.entries address kept hkept htree).mono h.grows

end Tree

theorem Node.Lives.parent (h : node.Lives tree memo) (sound : tree.Sound memo) {parent : Node}
    (hparent : node.parent? = some parent) : parent.Lives tree memo := by
  rcases h.filled with hroot | hmem
  · rw [hroot] at hparent
    cases hparent
  · have hkept := sound.getElem?_address h.standing hmem
    obtain ⟨-, -, above, habove, hlives⟩ :=
      (sound.entries _ node hkept h.standing.address_tree).stands
    rw [habove, Option.some_inj] at hparent
    exact hparent ▸ hlives

theorem Node.Lives.of_mem_ancestors (h : node.Lives tree memo) (sound : tree.Sound memo)
    {above : Node} (hmem : above ∈ node.ancestors) : above.Lives tree memo := by
  induction node with
  | root number start green =>
    rw [ancestors, List.mem_singleton] at hmem
    exact hmem ▸ h
  | child parent slot start address green ih =>
    rcases List.mem_cons.1 hmem with rfl | hmem
    · exact h
    · exact ih (h.parent sound rfl) hmem

/-! ## Offsets -/

theorem Node.Stands.wellFormed_of_sound (standing : node.Stands tree) (sound : tree.Sound memo) :
    node.green.WellFormed := sound.wellFormed.at? standing.at?

variable {slot start : Nat}

theorem Node.checkRoom_of_slot (wellFormed : node.green.WellFormed) {e : Green.Element}
    (found : node.green.slots[slot]? = some e) : node.checkRoom slot = .ok () := by
  unfold checkRoom
  dsimp only
  rw [Rooms.size_ofGreen wellFormed.tidy]
  exact if_pos (Green.Node.lt_arity_of_slot found)

/-- The offset of what is in a slot, if it and the slot are in bounds. -/
def Node.offsetBelow (node : Node) (slot : Nat) : Except Violation Nat := do
  let start ← addSize node.start (node.green.before slot)
  checkSlot slot
  return start

theorem Node.offsetBelow_eq (node : Node) (slot : Nat) : node.offsetBelow slot =
    if node.start + node.green.before slot ≤ maxSize then
      if slot ≤ maxSlot then .ok (node.start + node.green.before slot) else .error .slotTooLarge
    else .error .sizeOverflow := by
  unfold offsetBelow addSize checkSlot
  split_ifs <;> rfl

theorem Node.offsetBelow_eq_ok_iff : node.offsetBelow slot = .ok start ↔
    start = node.start + node.green.before slot ∧ start ≤ maxSize ∧ slot ≤ maxSlot := by
  rw [offsetBelow_eq]
  split_ifs with hstart hslot
  · rw [Except.ok.injEq]
    exact ⟨fun h => ⟨h.symm, h ▸ hstart, hslot⟩, fun h => h.1.symm⟩
  · exact ⟨nofun, fun h => absurd h.2.2 hslot⟩
  · exact ⟨nofun, fun h => absurd (h.1 ▸ h.2.1) hstart⟩

theorem Node.placing_eq_offsetBelow (wellFormed : node.green.WellFormed) {e : Green.Element}
    (found : node.green.slots[slot]? = some e) : node.placing slot = node.offsetBelow slot := by
  rw [placing, checkRoom_of_slot wellFormed found,
    wellFormed.tidy.offsetAt_eq (Green.Node.lt_arity_of_slot found)]
  rfl

theorem Node.tokenAt_eq_offsetBelow (wellFormed : node.green.WellFormed) {green : Green.Token}
    (found : node.green.slots[slot]? = some (.token green)) :
    node.tokenAt slot green = (node.offsetBelow slot).map fun _ => node.tokenBelow slot green := by
  rw [tokenAt, wellFormed.tidy.offsetAt_eq (Green.Node.lt_arity_of_slot found), offsetBelow_eq]
  change (addSize node.start (node.green.before slot)).bind _ = _
  unfold addSize checkSlot
  split_ifs <;> rfl

theorem Node.below?_address {below : Node} (h : node.below? slot = some (.node below)) :
    below.address = node.address.child slot := by
  unfold below? at h
  split at h <;> cases h
  rfl

end

/-! ## What a slot comes to -/

/-- The memo after the node in a slot was asked for: it is there from then on, unless its offset or
its slot is out of bounds. -/
def Node.fill (node : Node) (slot : Nat) (green : Green.Node) (memo : Memo) : Except Violation Memo :=
  if node.address.child slot ∈ memo then .ok memo
  else (node.offsetBelow slot).map fun _ =>
    memo.keep (node.address.child slot) (node.nodeBelow slot green)

section

variable {tree : Tree} {memo memo' : Memo} {node : Node} {slot : Nat} {green : Green.Node}

theorem Node.fill_of_mem (h : node.address.child slot ∈ memo) :
    node.fill slot green memo = .ok memo := if_pos h

theorem Node.fill_of_not_mem (h : node.address.child slot ∉ memo) : node.fill slot green memo =
    (node.offsetBelow slot).map fun _ =>
      memo.keep (node.address.child slot) (node.nodeBelow slot green) := if_neg h

/-- **Just the slot is filled.** -/
theorem Node.getElem?_fill (h : node.fill slot green memo = .ok memo') :
    node.address.child slot ∈ memo' ∧
      ∀ address : Address, address ≠ node.address.child slot → memo'[address]? = memo[address]? := by
  by_cases hmem : node.address.child slot ∈ memo
  · rw [fill_of_mem hmem] at h
    cases h
    exact ⟨hmem, fun _ _ => rfl⟩
  · rw [fill_of_not_mem hmem] at h
    cases hoffset : node.offsetBelow slot with
    | error violation =>
      rw [hoffset] at h
      cases h
    | ok start =>
      rw [hoffset] at h
      cases h
      exact ⟨Memo.mem_iff.2 ⟨_, Memo.getElem?_keep_self _ _ _⟩, fun address hne =>
        Memo.getElem?_keep_of_ne hne⟩

theorem Node.getElem?_of_slot (sound : tree.Sound memo) (standing : node.Stands tree)
    {head : Green.Head} {slots : Array Green.Element}
    (found : node.green.slots[slot]? = some (.node head slots))
    (hmem : node.address.child slot ∈ memo) :
    memo[node.address.child slot]? = some (node.nodeBelow slot ⟨head, slots⟩) ∧
      node.offsetBelow slot = .ok (node.start + node.green.before slot) := by
  have hkept := sound.getElem?_address (Stands.child standing found) hmem
  refine ⟨hkept, ?_⟩
  obtain ⟨start, head', slots', -, hplacing, hsame⟩ := sound.keeps.placed node standing slot _ hkept
  rw [← placing_eq_offsetBelow (standing.wellFormed_of_sound sound) found, hplacing]
  exact congrArg Except.ok (congrArg Node.start hsame).symm

theorem Node.getElem?_fill_self (sound : tree.Sound memo) (standing : node.Stands tree) {below : Node}
    (hbelow : node.below? slot = some (.node below))
    (hfill : node.fill slot below.green memo = .ok memo') :
    memo'[node.address.child slot]? = some below := by
  have hfound : node.green.slots[slot]? = some (.node below.green.head below.green.slots) :=
    below?_green hbelow
  have hsame : node.nodeBelow slot below.green = below := by
    rw [below?_of_node hfound, Option.some_inj, Element.node.injEq] at hbelow
    exact hbelow
  by_cases hmem : node.address.child slot ∈ memo
  · rw [fill_of_mem hmem] at hfill
    cases hfill
    exact (getElem?_of_slot sound standing hfound hmem).1.trans (congrArg some hsame)
  · rw [fill_of_not_mem hmem] at hfill
    cases hoffset : node.offsetBelow slot with
    | error violation =>
      rw [hoffset] at hfill
      cases hfill
    | ok start =>
      rw [hoffset] at hfill
      cases hfill
      exact (Memo.getElem?_keep_self _ _ _).trans (congrArg some hsame)

/-- A slot can be filled, or is filled already, just if it is in bounds. -/
theorem Node.fill_ok_iff (sound : tree.Sound memo) (standing : node.Stands tree)
    {head : Green.Head} {slots : Array Green.Element}
    (found : node.green.slots[slot]? = some (.node head slots)) (green : Green.Node) :
    (∃ memo', node.fill slot green memo = .ok memo') ↔
      node.start + node.green.before slot ≤ maxSize ∧ slot ≤ maxSlot := by
  have hbounds : (∃ start, node.offsetBelow slot = .ok start) ↔
      node.start + node.green.before slot ≤ maxSize ∧ slot ≤ maxSlot := by
    simp only [offsetBelow_eq_ok_iff, exists_eq_left]
  rw [← hbounds]
  by_cases hmem : node.address.child slot ∈ memo
  · exact iff_of_true ⟨memo, fill_of_mem hmem⟩ ⟨_, (getElem?_of_slot sound standing found hmem).2⟩
  · rw [fill_of_not_mem hmem]
    cases node.offsetBelow slot with
    | ok start => exact iff_of_true ⟨_, rfl⟩ ⟨start, rfl⟩
    | error violation =>
      refine iff_of_false ?_ ?_
      · rintro ⟨_, ⟨⟩⟩
      · rintro ⟨_, ⟨⟩⟩

theorem Node.placeNode_eq (sound : tree.Sound memo) (standing : node.Stands tree)
    {head : Green.Head} {slots : Array Green.Element}
    (found : node.green.slots[slot]? = some (.node head slots)) :
    node.placeNode slot ⟨head, slots⟩ memo = match node.fill slot ⟨head, slots⟩ memo with
      | .ok memo' => .ok (node.nodeBelow slot ⟨head, slots⟩) memo'
      | .error violation => .error violation memo := by
  have wellFormed := standing.wellFormed_of_sound sound
  rw [Node.placeNode_run, checkRoom_of_slot wellFormed found, placing_eq_offsetBelow wellFormed found]
  by_cases hmem : node.address.child slot ∈ memo
  · rw [fill_of_mem hmem, (getElem?_of_slot sound standing found hmem).1]
  · rw [fill_of_not_mem hmem, Memo.getElem?_eq_none hmem]
    cases hoffset : node.offsetBelow slot with
    | ok start =>
      dsimp only
      rw [made_of_fresh sound.fresh (Memo.getElem?_eq_none hmem), (offsetBelow_eq_ok_iff.1 hoffset).1]
      rfl
    | error violation => rfl

theorem Node.slotAt_of_token {green : Green.Token}
    (found : node.green.slots[slot]? = some (.token green)) (memo : Memo) :
    node.slotAt slot memo = match node.tokenAt slot green with
      | .ok token => .ok (.token token) memo
      | .error violation => .error violation memo := by
  unfold slotAt
  rw [Green.Node.slotAt, Green.Node.slot?, found]
  change EStateM.bind (liftM (node.tokenAt slot green)) _ memo = _
  cases node.tokenAt slot green <;> rfl

theorem Node.slotAt_of_node {head : Green.Head} {slots : Array Green.Element}
    (found : node.green.slots[slot]? = some (.node head slots)) (memo : Memo) :
    node.slotAt slot memo = match node.placeNode slot ⟨head, slots⟩ memo with
      | .ok below memo' => .ok (.node below) memo'
      | .error violation memo' => .error violation memo' := by
  unfold slotAt
  rw [Green.Node.slotAt, Green.Node.slot?, found]
  change EStateM.bind (node.placeNode slot ⟨head, slots⟩) _ memo = _
  rw [EStateM.bind]
  cases node.placeNode slot ⟨head, slots⟩ memo <;> rfl

/-- **What a slot comes to**: if it holds a node the slot is filled, and that is all; a token leaves
the memo as it is, and so does a violation. -/
theorem Node.slotAt_run (sound : tree.Sound memo) (standing : node.Stands tree) (slot : Nat) :
    node.slotAt slot memo = match node.below? slot with
      | none => .error (node.green.noSlot slot) memo
      | some (.token token) =>
        match node.offsetBelow slot with
        | .ok _ => .ok (.token token) memo
        | .error violation => .error violation memo
      | some (.node below) =>
        match node.fill slot below.green memo with
        | .ok memo' => .ok (.node below) memo'
        | .error violation => .error violation memo := by
  have wellFormed := standing.wellFormed_of_sound sound
  cases hfound : node.green.slots[slot]? with
  | none =>
    unfold slotAt
    rw [below?, Green.Node.slotAt, Green.Node.slot?, hfound]
    rfl
  | some e =>
    cases e with
    | token green =>
      rw [below?_of_token hfound, slotAt_of_token hfound, tokenAt_eq_offsetBelow wellFormed hfound]
      cases node.offsetBelow slot <;> rfl
    | node head slots =>
      rw [below?_of_node hfound, slotAt_of_node hfound, placeNode_eq sound standing hfound]
      dsimp only
      rw [nodeBelow_green]
      cases node.fill slot ⟨head, slots⟩ memo <;> rfl

/-- **What a look into a slot comes to**: a node in it, if it was placed before. -/
theorem Node.placedAt?_eq (sound : tree.Sound memo) (standing : node.Stands tree) (slot : Nat) :
    node.placedAt? slot memo = match node.below? slot with
      | none => .error (node.green.noSlot slot) memo
      | some (.token _) => .ok none memo
      | some (.node below) => .ok (if below.address ∈ memo then some below else none) memo := by
  have wellFormed := standing.wellFormed_of_sound sound
  cases hfound : node.green.slots[slot]? with
  | none =>
    rw [placedAt?_of_none hfound, below?, hfound]
  | some e =>
    rw [placedAt?_of_room (checkRoom_of_slot wellFormed hfound) hfound]
    cases e with
    | token green =>
      rw [below?_of_token hfound]
      -- what the memo had there would be a node of the tree
      have hnone : memo[node.address.child slot]? = none := by
        rw [Option.eq_none_iff_forall_ne_some]
        intro kept hkept
        obtain ⟨_, _, _, hnode, -⟩ := sound.keeps.placed node standing slot kept hkept
        rw [hfound] at hnode
        cases hnode
      rw [hnone]
    | node head slots =>
      rw [below?_of_node hfound]
      apply congrArg (EStateM.Result.ok · memo)
      by_cases hmem : node.address.child slot ∈ memo
      · rw [(getElem?_of_slot sound standing hfound hmem).1]
        exact (if_pos hmem).symm
      · rw [Memo.getElem?_eq_none hmem]
        exact (if_neg hmem).symm

end

end LosslessSyntax.Placed
