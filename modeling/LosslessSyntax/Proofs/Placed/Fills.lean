import LosslessSyntax.Proofs.Placed.Filling
import LosslessSyntax.Proofs.Placed.TokenOrder

/-!
# What queries add to the memo

Whatever a query comes to, and be it a violation, it leaves a memo that has grown by nodes of its
own tree, each below a node that is there; and the parts that it gives are there as well.

* `Placed.Query.Fills`: a query that leaves such a memo, and what is known of its answer;
* `Placed.Query.Fills.bind`: queries one after the other;
* **`Placed.Node.placeNode_fills`**: placing a node;
* `Placed.Node.slotAt_fills` and its like: slots, neighbours, and the order of tokens.
-/

namespace LosslessSyntax

theorem Green.Node.getElem?_of_slotAt {green : Green.Node} {slot : Nat} {e : Green.Element}
    (h : green.slotAt slot = .ok e) : green.slots[slot]? = some e := by
  rw [Green.Node.slotAt, Green.Node.slot?] at h
  cases hfound : green.slots[slot]? with
  | none =>
    rw [hfound] at h
    cases h
  | some e' =>
    rw [hfound] at h
    exact congrArg some (Except.ok.inj h)

namespace Placed

theorem forall_mem_none {α : Type} {P : α → Prop} : ∀ x ∈ (none : Option α), P x :=
  fun x hx => absurd hx (Option.not_mem_none x)

/-! ## Filling -/

namespace Query

variable {tree : Tree} {memo : Memo} {α β : Type}

/-- From a memo of the tree the query gets to one that has grown by nodes of the tree, also when it
fails; what is claimed of its answer holds there. -/
def Fills (tree : Tree) (memo : Memo) (query : Query α) (claim : Memo → α → Prop) : Prop :=
  tree.Sound memo → match query memo with
    | .ok value memo' => tree.Extends memo memo' ∧ claim memo' value
    | .error _ memo' => tree.Extends memo memo'

/-- The memo that a query leaves. -/
def leaves (query : Query α) (memo : Memo) : Memo :=
  match query memo with
  | .ok _ memo' => memo'
  | .error _ memo' => memo'

theorem leaves_lift (answer : Except Violation α) : leaves (liftM answer) memo = memo := by
  cases answer <;> rfl

theorem leaves_bind (query : Query α) (next : α → Query β) : leaves (query >>= next) memo =
    match query memo with
    | .ok value memo' => (next value).leaves memo'
    | .error _ memo' => memo' := by
  change leaves (EStateM.bind query next) memo = _
  unfold leaves EStateM.bind
  cases query memo <;> rfl

@[simp] theorem leaves_map (f : α → β) (query : Query α) :
    leaves (f <$> query) memo = leaves query memo := by
  change leaves (EStateM.map f query) memo = _
  unfold leaves EStateM.map
  cases query memo <;> rfl

@[simp] theorem leaves_bind_pure (f : α → β) (query : Query α) :
    leaves (query >>= fun value => pure (f value)) memo = leaves query memo := by
  rw [leaves_bind, leaves]
  cases query memo <;> rfl

theorem leaves_lift_bind (answer : Except Violation α) (next : α → Query β) :
    leaves (liftM answer >>= next) memo = match answer with
      | .ok value => (next value).leaves memo
      | .error _ => memo := by
  cases answer <;> rfl

namespace Fills

variable {query : Query α} {claim claim' : Memo → α → Prop}

theorem pure {value : α} (h : claim memo value) : Fills tree memo (Pure.pure value) claim :=
  fun _ => ⟨Tree.Extends.refl tree memo, h⟩

theorem throw (violation : Violation) : Fills tree memo (MonadExcept.throw violation) claim :=
  fun _ => Tree.Extends.refl tree memo

theorem lift {answer : Except Violation α} (h : ∀ value, answer = .ok value → claim memo value) :
    Fills tree memo (liftM answer) claim := by
  cases answer with
  | ok value => exact pure (h value rfl)
  | error violation => exact throw violation

/-- **Queries one after the other**: the second starts from what the first has left. -/
theorem bind {next : α → Query β} {last : Memo → β → Prop} (h : Fills tree memo query claim)
    (hnext : ∀ value memo', tree.Extends memo memo' → claim memo' value →
      Fills tree memo' (next value) last) : Fills tree memo (query >>= next) last := by
  intro sound
  have hquery := h sound
  change match EStateM.bind query next memo with
    | .ok value memo' => tree.Extends memo memo' ∧ last memo' value
    | .error _ memo' => tree.Extends memo memo'
  unfold EStateM.bind
  cases hrun : query memo with
  | error violation memo' =>
    rw [hrun] at hquery
    exact hquery
  | ok value memo' =>
    rw [hrun] at hquery
    obtain ⟨hext, hclaim⟩ := hquery
    have hlast := hnext value memo' hext hclaim (sound.extend hext)
    dsimp only
    cases hrun' : next value memo' with
    | ok value' memo'' =>
      rw [hrun'] at hlast
      exact ⟨hext.trans hlast.1, hlast.2⟩
    | error violation memo'' =>
      rw [hrun'] at hlast
      exact hext.trans hlast

theorem lift_bind {answer : Except Violation α} {next : α → Query β} {last : Memo → β → Prop}
    (hnext : ∀ value, answer = .ok value → Fills tree memo (next value) last) :
    Fills tree memo (liftM answer >>= next) last := by
  cases answer with
  | ok value => exact hnext value rfl
  | error violation => exact throw violation

theorem extends_leaves (h : Fills tree memo query claim) (sound : tree.Sound memo) :
    tree.Extends memo (query.leaves memo) := by
  have hquery := h sound
  unfold leaves
  cases hrun : query memo with
  | ok value memo' =>
    rw [hrun] at hquery
    exact hquery.1
  | error violation memo' =>
    rw [hrun] at hquery
    exact hquery

theorem imp (h : Fills tree memo query claim)
    (himp : ∀ memo' value, tree.Extends memo memo' → claim memo' value → claim' memo' value) :
    Fills tree memo query claim' := by
  intro sound
  have hquery := h sound
  cases hrun : query memo with
  | ok value memo' =>
    rw [hrun] at hquery
    exact ⟨hquery.1, himp memo' value hquery.1 hquery.2⟩
  | error violation memo' =>
    rw [hrun] at hquery
    exact hquery

theorem map {f : α → β} {last : Memo → β → Prop} (h : Fills tree memo query claim)
    (himp : ∀ memo' value, claim memo' value → last memo' (f value)) :
    Fills tree memo (f <$> query) last :=
  h.bind fun _ _ _ hclaim => pure (himp _ _ hclaim)

/-- The soundness of the memo may be used. -/
theorem ofSound (h : tree.Sound memo → Fills tree memo query claim) :
    Fills tree memo query claim := fun sound => h sound sound

end Fills

end Query

/-! ## Slots -/

/-- A token of a tree whose parent was placed. -/
structure Token.Lives (tree : Tree) (memo : Memo) (token : Token) : Prop where
  standing : token.Stands tree
  filled : token.parent.Filled memo

/-- A part of a tree that was placed, a token with its parent. -/
def Element.Lives (tree : Tree) (memo : Memo) : Element → Prop
  | node n => n.Lives tree memo
  | token t => t.Lives tree memo

section

variable {tree : Tree} {memo memo' : Memo} {node : Node} {slot : Nat}

theorem Token.Lives.mono {token : Token} (h : token.Lives tree memo)
    (hgrows : Memo.Grows memo memo') : token.Lives tree memo' := ⟨h.standing, h.filled.mono hgrows⟩

theorem Token.Lives.parent {token : Token} (h : token.Lives tree memo) :
    token.parent.Lives tree memo := by
  obtain ⟨standing, filled⟩ := h
  cases standing with
  | child standing found => exact ⟨standing, filled⟩

theorem Element.Lives.mono {element : Element} (h : element.Lives tree memo)
    (hgrows : Memo.Grows memo memo') : element.Lives tree memo' := by
  cases element with
  | node n => exact Node.Lives.mono h hgrows
  | token t => exact Token.Lives.mono h hgrows

theorem Element.Lives.parent {element : Element} (h : element.Lives tree memo)
    (sound : tree.Sound memo) {parent : Node} (hparent : element.parent? = some parent) :
    parent.Lives tree memo := by
  cases element with
  | node n => exact Node.Lives.parent h sound hparent
  | token t =>
    cases hparent
    exact Token.Lives.parent h

theorem Node.Lives.extends_fill (h : node.Lives tree memo) (sound : tree.Sound memo)
    {head : Green.Head} {slots : Array Green.Element}
    (found : node.green.slots[slot]? = some (.node head slots))
    (hfill : node.fill slot ⟨head, slots⟩ memo = .ok memo') : tree.Extends memo memo' := by
  by_cases hmem : node.address.child slot ∈ memo
  · rw [Node.fill_of_mem hmem] at hfill
    cases hfill
    exact Tree.Extends.refl tree memo
  rw [Node.fill_of_not_mem hmem] at hfill
  cases hoffset : node.offsetBelow slot with
  | error violation =>
    rw [hoffset] at hfill
    cases hfill
  | ok start =>
    rw [hoffset] at hfill
    cases hfill
    have hnone := Memo.getElem?_eq_none hmem
    have hgrows := Memo.grows_keep hnone (node.nodeBelow slot ⟨head, slots⟩)
    refine ⟨hgrows, fun fresh => fresh.keep _ _, fun address kept hkept hbefore => ?_⟩
    by_cases hsame : address = node.address.child slot
    · subst hsame
      rw [Memo.getElem?_keep_self, Option.some_inj] at hkept
      subst hkept
      refine ⟨node, slot, head, slots, h.mono hgrows, found, rfl, ?_, rfl⟩
      rw [Node.placing_eq_offsetBelow (h.standing.wellFormed_of_sound sound) found, hoffset]
      exact congrArg Except.ok (Node.offsetBelow_eq_ok_iff.1 hoffset).1
    · rw [Memo.getElem?_keep_of_ne hsame, hbefore] at hkept
      cases hkept

/-- **Placing a node adds it to the memo, below a node that is there.** -/
theorem Node.placeNode_fills (h : node.Lives tree memo) {head : Green.Head}
    {slots : Array Green.Element} (found : node.green.slots[slot]? = some (.node head slots)) :
    Query.Fills tree memo (node.placeNode slot ⟨head, slots⟩) fun memo' placed =>
      placed = node.nodeBelow slot ⟨head, slots⟩ ∧ placed.Lives tree memo' := by
  intro sound
  rw [placeNode_eq sound h.standing found]
  cases hfill : node.fill slot ⟨head, slots⟩ memo with
  | ok memo' =>
    exact ⟨h.extends_fill sound found hfill, rfl, .child h.standing found,
      .inr (getElem?_fill hfill).1⟩
  | error violation => exact Tree.Extends.refl tree memo

theorem Node.tokenAt_fills (h : node.Lives tree memo) {green : Green.Token}
    (found : node.green.slots[slot]? = some (.token green)) :
    Query.Fills tree memo (liftM (node.tokenAt slot green)) fun memo' token =>
      token.Lives tree memo' := by
  refine Query.Fills.ofSound fun sound => Query.Fills.lift fun token htoken => ?_
  rw [tokenAt_eq_offsetBelow (h.standing.wellFormed_of_sound sound) found] at htoken
  cases hoffset : node.offsetBelow slot with
  | ok start =>
    rw [hoffset] at htoken
    cases htoken
    exact ⟨.child h.standing found, h.filled⟩
  | error violation =>
    rw [hoffset] at htoken
    cases htoken

theorem Node.slotAt_fills (h : node.Lives tree memo) (slot : Nat) :
    Query.Fills tree memo (node.slotAt slot) fun memo' element => element.Lives tree memo' := by
  refine Query.Fills.lift_bind fun e he => ?_
  have hfound := Green.Node.getElem?_of_slotAt he
  cases e with
  | token green =>
    refine (tokenAt_fills h hfound).bind fun token memo' _ htoken => ?_
    exact Query.Fills.pure htoken
  | node head slots =>
    refine (placeNode_fills h hfound).bind fun n memo' _ hn => ?_
    exact Query.Fills.pure hn.2

theorem Node.slot?_fills (h : node.Lives tree memo) (slot : Nat) :
    Query.Fills tree memo (node.slot? slot) fun memo' found =>
      ∀ element ∈ found, element.Lives tree memo' := by
  unfold slot?
  split_ifs with hslot
  · refine (slotAt_fills h slot).map fun memo' element helement => ?_
    rintro _ ⟨⟩
    exact helement
  · exact Query.Fills.pure forall_mem_none

theorem Node.leaves_slotAt_of_token (sound : tree.Sound memo) (standing : node.Stands tree)
    {token : Token} (hbelow : node.below? slot = some (.token token)) :
    Query.leaves (node.slotAt slot) memo = memo := by
  rw [Query.leaves, slotAt_run sound standing, hbelow]
  cases node.offsetBelow slot <;> rfl

theorem Node.nodeAt_fills (h : node.Lives tree memo) (slot : Nat) :
    Query.Fills tree memo (node.nodeAt slot) fun memo' found =>
      ∀ n ∈ found, n.Lives tree memo' := by
  refine Query.Fills.lift_bind fun e he => ?_
  have hfound := Green.Node.getElem?_of_slotAt he
  cases e with
  | token green => exact Query.Fills.pure forall_mem_none
  | node head slots =>
    refine (placeNode_fills h hfound).bind fun n memo' _ hn => Query.Fills.pure ?_
    rintro _ ⟨⟩
    exact hn.2

theorem Node.leaves_placedAt? (sound : tree.Sound memo) (standing : node.Stands tree) (slot : Nat) :
    Query.leaves (node.placedAt? slot) memo = memo := by
  rw [Query.leaves, placedAt?_eq sound standing]
  cases node.below? slot with
  | none => rfl
  | some below => cases below <;> rfl

theorem Node.placedAt?_fills (h : node.Lives tree memo) (slot : Nat) :
    Query.Fills tree memo (node.placedAt? slot) fun memo' found =>
      ∀ n ∈ found, n.Lives tree memo' := by
  intro sound
  rw [placedAt?_eq sound h.standing]
  cases hbelow : node.below? slot with
  | none => exact Tree.Extends.refl tree memo
  | some below =>
    cases below with
    | token t => exact ⟨Tree.Extends.refl tree memo, forall_mem_none⟩
    | node n =>
      refine ⟨Tree.Extends.refl tree memo, ?_⟩
      split_ifs with hmem
      · rintro _ ⟨⟩
        exact ⟨h.standing.below? hbelow, .inr hmem⟩
      · exact forall_mem_none

end

/-! ## Neighbours -/

section

variable {tree : Tree} {memo : Memo} {node : Node}

theorem Node.firstNodeFrom?_fills (h : node.Lives tree memo) (count slot : Nat) :
    Query.Fills tree memo (node.firstNodeFrom? count slot) fun memo' found =>
      ∀ n ∈ found, n.Lives tree memo' := by
  induction count generalizing memo slot with
  | zero => exact Query.Fills.pure forall_mem_none
  | succ count ih =>
    refine (nodeAt_fills h slot).bind fun found memo' hext hfound => ?_
    cases found with
    | some n => exact Query.Fills.pure hfound
    | none => exact ih (h.mono hext.grows) (slot + 1)

theorem Node.lastNodeBefore?_fills (h : node.Lives tree memo) (slot : Nat) :
    Query.Fills tree memo (node.lastNodeBefore? slot) fun memo' found =>
      ∀ n ∈ found, n.Lives tree memo' := by
  induction slot generalizing memo with
  | zero => exact Query.Fills.pure forall_mem_none
  | succ slot ih =>
    refine (nodeAt_fills h slot).bind fun found memo' hext hfound => ?_
    cases found with
    | some n => exact Query.Fills.pure hfound
    | none => exact ih (h.mono hext.grows)

theorem Node.nextNode?_fills (h : node.Lives tree memo) :
    Query.Fills tree memo node.nextNode? fun memo' found => ∀ n ∈ found, n.Lives tree memo' := by
  unfold nextNode?
  refine Query.Fills.ofSound fun sound => ?_
  cases hparent : node.parent? with
  | none => exact Query.Fills.pure forall_mem_none
  | some parent => exact firstNodeFrom?_fills (h.parent sound hparent) _ _

theorem Node.previousNode?_fills (h : node.Lives tree memo) :
    Query.Fills tree memo node.previousNode? fun memo' found =>
      ∀ n ∈ found, n.Lives tree memo' := by
  unfold previousNode?
  refine Query.Fills.ofSound fun sound => ?_
  cases hparent : node.parent? with
  | none => exact Query.Fills.pure forall_mem_none
  | some parent => exact lastNodeBefore?_fills (h.parent sound hparent) _

theorem Element.next?_fills {element : Element} (h : element.Lives tree memo) :
    Query.Fills tree memo element.next? fun memo' found =>
      ∀ part ∈ found, part.Lives tree memo' := by
  unfold next?
  refine Query.Fills.ofSound fun sound => ?_
  cases hparent : element.parent? with
  | none => exact Query.Fills.pure forall_mem_none
  | some parent => exact Node.slot?_fills (h.parent sound hparent) _

theorem Element.previous?_fills {element : Element} (h : element.Lives tree memo) :
    Query.Fills tree memo element.previous? fun memo' found =>
      ∀ part ∈ found, part.Lives tree memo' := by
  unfold previous?
  refine Query.Fills.ofSound fun sound => ?_
  cases hparent : element.parent? with
  | none => exact Query.Fills.pure forall_mem_none
  | some parent =>
    cases element.index with
    | zero => exact Query.Fills.pure forall_mem_none
    | succ slot => exact Node.slot?_fills (h.parent sound hparent) slot

end

/-! ## Tokens -/

section

variable {tree : Tree} {memo : Memo} {node : Node}

theorem Node.someTokenAt_fills (h : node.Lives tree memo) {slot : Nat} {green : Green.Token}
    (found : node.green.slots[slot]? = some (.token green)) :
    Query.Fills tree memo (do return some (← node.tokenAt slot green)) fun memo' found =>
      ∀ t ∈ found, t.Lives tree memo' := by
  refine (tokenAt_fills h found).bind fun token memo' _ htoken => Query.Fills.pure ?_
  rintro _ ⟨⟩
  exact htoken

theorem Node.firstTokenFrom?_fills (h : node.Lives tree memo) (slot : Nat) :
    Query.Fills tree memo (node.firstTokenFrom? slot) fun memo' found =>
      ∀ t ∈ found, t.Lives tree memo' := by
  induction node using Node.descend generalizing memo slot with
  | step node ih =>
    induction hcount : node.arity - slot generalizing memo slot with
    | zero =>
      have hfound : node.green.slots[slot]? = none :=
        Array.getElem?_eq_none (Nat.le_of_sub_eq_zero hcount)
      rw [firstTokenFrom?_eq, hfound]
      exact Query.Fills.pure forall_mem_none
    | succ count ihslot =>
      obtain ⟨e, hfound⟩ : ∃ e, node.green.slots[slot]? = some e :=
        ⟨_, Array.getElem?_eq_getElem (show slot < node.arity by omega)⟩
      rw [firstTokenFrom?_eq, hfound]
      cases e with
      | token green => exact someTokenAt_fills h hfound
      | node head slots =>
        refine (placeNode_fills h hfound).bind fun placed memo' hext hplaced => ?_
        obtain ⟨rfl, hlives⟩ := hplaced
        rw [nodeBelow_withGreen]
        refine (ih slot _ (below?_of_node hfound) hlives 0).bind fun found memo'' hext' ht => ?_
        cases found with
        | some token => exact Query.Fills.pure ht
        | none => exact ihslot (h.mono (hext.trans hext').grows) (slot + 1) (by omega)

theorem Node.lastTokenBefore?_fills (h : node.Lives tree memo) (slot : Nat) :
    Query.Fills tree memo (node.lastTokenBefore? slot) fun memo' found =>
      ∀ t ∈ found, t.Lives tree memo' := by
  induction node using Node.descend generalizing memo slot with
  | step node ih =>
    induction slot generalizing memo with
    | zero =>
      rw [lastTokenBefore?]
      exact Query.Fills.pure forall_mem_none
    | succ slot ihslot =>
      rw [lastTokenBefore?_eq]
      cases hfound : node.green.slots[slot]? with
      | none => exact ihslot h
      | some e =>
        cases e with
        | token green => exact someTokenAt_fills h hfound
        | node head slots =>
          refine (placeNode_fills h hfound).bind fun placed memo' hext hplaced => ?_
          obtain ⟨rfl, hlives⟩ := hplaced
          rw [nodeBelow_withGreen]
          refine (ih slot _ (below?_of_node hfound) hlives slots.size).bind
            fun found memo'' hext' ht => ?_
          cases found with
          | some token => exact Query.Fills.pure ht
          | none => exact ihslot (h.mono (hext.trans hext').grows)

theorem Node.tokenFrom?_fills (h : node.Lives tree memo) (slot : Nat) :
    Query.Fills tree memo (node.tokenFrom? slot) fun memo' found =>
      ∀ t ∈ found, t.Lives tree memo' := by
  induction node generalizing memo slot with
  | root number start green => exact firstTokenFrom?_fills h slot
  | child parent index start address green ih =>
    refine Query.Fills.ofSound fun sound => ?_
    refine (firstTokenFrom?_fills h slot).bind fun found memo' hext ht => ?_
    cases found with
    | some token => exact Query.Fills.pure ht
    | none => exact ih ((h.parent sound rfl).mono hext.grows) (index + 1)

theorem Node.tokenBefore?_fills (h : node.Lives tree memo) (slot : Nat) :
    Query.Fills tree memo (node.tokenBefore? slot) fun memo' found =>
      ∀ t ∈ found, t.Lives tree memo' := by
  induction node generalizing memo slot with
  | root number start green => exact lastTokenBefore?_fills h slot
  | child parent index start address green ih =>
    refine Query.Fills.ofSound fun sound => ?_
    refine (lastTokenBefore?_fills h slot).bind fun found memo' hext ht => ?_
    cases found with
    | some token => exact Query.Fills.pure ht
    | none => exact ih ((h.parent sound rfl).mono hext.grows) index

end

end Placed

end LosslessSyntax
