import LosslessSyntax.Placed.ListView
import LosslessSyntax.Proofs.Placed.Covering
import LosslessSyntax.Proofs.Placed.Fills
import LosslessSyntax.Proofs.Placed.Touching
import LosslessSyntax.Proofs.Placed.Walk

/-!
# What rows of queries add to the memo

Cursors, walks and searches by offset place nodes one after the other, each below a node that is
there.

* `Placed.Cursor.Lives`, `Placed.Walk.Lives`: cursors and walks among nodes that were placed;
* **`Placed.Node.foldBelow_fills`**: all parts below a node;
* `Placed.Node.tokensAt_fills`, `Placed.Node.covering_fills`: parts by offset.
-/

namespace LosslessSyntax.Placed

/-! ## Cursors and walks -/

section

variable {tree : Tree} {memo memo' : Memo}

/-- A cursor over the slots of a node that was placed. -/
def Cursor.Lives (tree : Tree) (memo : Memo) (cursor : Cursor) : Prop :=
  cursor.parent.Lives tree memo

theorem Cursor.Lives.mono {cursor : Cursor} (h : cursor.Lives tree memo)
    (hgrows : Memo.Grows memo memo') : cursor.Lives tree memo' := Node.Lives.mono h hgrows

namespace Cursor

variable {cursor : Cursor}

theorem next_fills (h : cursor.Lives tree memo) :
    Query.Fills tree memo cursor.next fun memo' (element, rest) =>
      (∀ part ∈ element, part.Lives tree memo') ∧ rest.Lives tree memo' := by
  unfold next
  split_ifs with hleft
  · refine (Node.slotAt_fills h cursor.front).bind fun element memo' hext helement => ?_
    refine Query.Fills.pure ⟨?_, h.mono hext.grows⟩
    rintro _ ⟨⟩
    exact helement
  · exact Query.Fills.pure ⟨forall_mem_none, h⟩

theorem nextBack_fills (h : cursor.Lives tree memo) :
    Query.Fills tree memo cursor.nextBack fun memo' (element, rest) =>
      (∀ part ∈ element, part.Lives tree memo') ∧ rest.Lives tree memo' := by
  unfold nextBack
  split_ifs with hleft
  · refine (Node.slotAt_fills h (cursor.back - 1)).bind fun element memo' hext helement => ?_
    refine Query.Fills.pure ⟨?_, h.mono hext.grows⟩
    rintro _ ⟨⟩
    exact helement
  · exact Query.Fills.pure ⟨forall_mem_none, h⟩

theorem nextNode_fills (h : cursor.Lives tree memo) :
    Query.Fills tree memo cursor.nextNode fun memo' (found, rest) =>
      (∀ n ∈ found, n.Lives tree memo') ∧ rest.Lives tree memo' := by
  refine (Node.firstNodeFrom?_fills h cursor.length cursor.front).bind fun found memo' hext hn => ?_
  cases found with
  | some n => exact Query.Fills.pure ⟨hn, h.mono hext.grows⟩
  | none => exact Query.Fills.pure ⟨hn, h.mono hext.grows⟩

theorem nextNodeBack_fills (h : cursor.Lives tree memo) :
    Query.Fills tree memo cursor.nextNodeBack fun memo' (found, rest) =>
      (∀ n ∈ found, n.Lives tree memo') ∧ rest.Lives tree memo' := by
  unfold nextNodeBack
  cases cursor.lastNodeSlot? cursor.length with
  | none => exact Query.Fills.pure ⟨forall_mem_none, h⟩
  | some slot =>
    refine (Node.nodeAt_fills h slot).bind fun found memo' hext hn => ?_
    exact Query.Fills.pure ⟨hn, h.mono hext.grows⟩

end Cursor

theorem Node.firstNode?_fills {node : Node} (h : node.Lives tree memo) :
    Query.Fills tree memo node.firstNode? fun memo' found => ∀ n ∈ found, n.Lives tree memo' :=
  (Cursor.nextNode_fills (show node.cursor.Lives tree memo from h)).map fun _ _ hfound => hfound.1

theorem Node.lastNode?_fills {node : Node} (h : node.Lives tree memo) :
    Query.Fills tree memo node.lastNode? fun memo' found => ∀ n ∈ found, n.Lives tree memo' :=
  (Cursor.nextNodeBack_fills (show node.cursor.Lives tree memo from h)).map fun _ _ hfound => hfound.1

/-- A walk through nodes that were placed. -/
structure Walk.Lives (tree : Tree) (memo : Memo) (walk : Walk) : Prop where
  start : ∀ node ∈ walk.start, node.Lives tree memo
  inside : ∀ entered ∈ walk.inside, entered.1.Lives tree memo ∧ entered.2.Lives tree memo

/-- An event of such a walk. -/
def Walk.Event.Lives (tree : Tree) (memo : Memo) : Walk.Event → Prop
  | .enter n => n.Lives tree memo
  | .leave n => n.Lives tree memo
  | .token t => t.Lives tree memo

theorem Walk.Lives.mono {walk : Walk} (h : walk.Lives tree memo) (hgrows : Memo.Grows memo memo') :
    walk.Lives tree memo' :=
  ⟨fun node hnode => (h.start node hnode).mono hgrows,
    fun entered hentered => (h.inside entered hentered).imp (·.mono hgrows) (·.mono hgrows)⟩

namespace Walk

variable {walk : Walk}

theorem next_fills (h : walk.Lives tree memo) :
    Query.Fills tree memo walk.next fun memo' (event, rest) =>
      (∀ e ∈ event, e.Lives tree memo') ∧ rest.Lives tree memo' := by
  obtain ⟨start, inside⟩ := walk
  obtain ⟨hstart, hinside⟩ := h
  cases inside with
  | nil =>
    cases start with
    | none => exact Query.Fills.pure ⟨forall_mem_none, ⟨forall_mem_none, List.forall_mem_nil _⟩⟩
    | some node =>
      have hnode : node.Lives tree memo := hstart node rfl
      refine Query.Fills.pure ⟨?_, ⟨forall_mem_none, List.forall_mem_singleton.2 ⟨hnode, hnode⟩⟩⟩
      rintro _ ⟨⟩
      exact hnode
  | cons entered outer =>
    obtain ⟨node, cursor⟩ := entered
    obtain ⟨⟨hnode, hcursor⟩, houter⟩ := List.forall_mem_cons.1 hinside
    refine (Cursor.next_fills hcursor).bind fun answer memo' hext hanswer => ?_
    obtain ⟨element, rest⟩ := answer
    obtain ⟨helement, hrest⟩ := hanswer
    have hnode' := hnode.mono hext.grows
    have hstart' : ∀ n ∈ start, n.Lives tree memo' :=
      fun n hn => (hstart n hn).mono hext.grows
    have houter' : ∀ entered ∈ outer, entered.1.Lives tree memo' ∧ entered.2.Lives tree memo' :=
      fun entered hmem => (houter entered hmem).imp (·.mono hext.grows) (·.mono hext.grows)
    have hinside' : ∀ entered ∈ (node, rest) :: outer,
        entered.1.Lives tree memo' ∧ entered.2.Lives tree memo' :=
      List.forall_mem_cons.2 ⟨⟨hnode', hrest⟩, houter'⟩
    cases element with
    | none =>
      refine Query.Fills.pure ⟨?_, ⟨hstart', houter'⟩⟩
      rintro _ ⟨⟩
      exact hnode'
    | some element =>
      have hpart := helement element rfl
      cases element with
      | node child =>
        have hchild : child.Lives tree memo' := hpart
        refine Query.Fills.pure
          ⟨?_, ⟨hstart', List.forall_mem_cons.2 ⟨⟨hchild, hchild⟩, hinside'⟩⟩⟩
        rintro _ ⟨⟩
        exact hchild
      | token token =>
        refine Query.Fills.pure ⟨?_, ⟨hstart', hinside'⟩⟩
        rintro _ ⟨⟩
        exact hpart

theorem skip_lives (h : walk.Lives tree memo) {rest : Walk} (hskip : walk.skip = .ok rest) :
    rest.Lives tree memo := by
  obtain ⟨start, inside⟩ := walk
  cases inside with
  | nil => cases hskip
  | cons entered outer =>
    cases hskip
    obtain ⟨hentered, houter⟩ := List.forall_mem_cons.1 h.inside
    exact ⟨h.start, List.forall_mem_cons.2 ⟨hentered, houter⟩⟩

theorem passTokens_fills (h : walk.Lives tree memo) (tokens : Nat) :
    Query.Fills tree memo (passTokens tokens walk) fun memo' (event, rest) =>
      (∀ e ∈ event, e.Lives tree memo') ∧ rest.Lives tree memo' := by
  induction tokens generalizing memo walk with
  | zero => exact next_fills h
  | succ tokens ih =>
    refine (next_fills h).bind fun answer memo' hext hanswer => ?_
    obtain ⟨event, rest⟩ := answer
    cases event with
    | none => exact Query.Fills.pure hanswer
    | some event =>
      cases event with
      | enter n => exact Query.Fills.pure hanswer
      | leave n => exact Query.Fills.pure hanswer
      | token t => exact ih hanswer.2

end Walk

/-- **What is done with all parts below a node** leaves a memo that has grown by nodes of the tree
if each step of it does. -/
theorem Node.foldBelow_fills {σ : Type} {step : Nat → σ → Element → Query σ}
    (claim : Memo → σ → Prop)
    (mono : ∀ memo memo' state, Memo.Grows memo memo' → claim memo state → claim memo' state)
    (hstep : ∀ {memo : Memo} (depth : Nat) (state : σ) (element : Element),
      claim memo state → element.Lives tree memo →
      Query.Fills tree memo (step depth state element) claim)
    {node : Node} (h : node.Lives tree memo) (depth slot : Nat) {state : σ}
    (hstate : claim memo state) :
    Query.Fills tree memo (node.foldBelow step depth slot state) claim := by
  induction node using Node.descend generalizing memo depth slot state with
  | step node ih =>
    induction hcount : node.arity - slot generalizing memo slot state with
    | zero =>
      have hfound : node.green.slots[slot]? = none :=
        Array.getElem?_eq_none (Nat.le_of_sub_eq_zero hcount)
      rw [foldBelow_eq, hfound]
      exact Query.Fills.pure hstate
    | succ count ihslot =>
      obtain ⟨e, hfound⟩ : ∃ e, node.green.slots[slot]? = some e :=
        ⟨_, Array.getElem?_eq_getElem (show slot < node.arity by omega)⟩
      rw [foldBelow_eq, hfound]
      cases e with
      | token green =>
        refine (tokenAt_fills h hfound).bind fun token m₁ h₁ htoken => ?_
        refine (hstep depth state (.token token) (mono _ _ _ h₁.grows hstate) htoken).bind
          fun state₂ m₂ h₂ hstate₂ => ?_
        exact ihslot (h.mono (h₁.trans h₂).grows) (slot + 1) hstate₂ (by omega)
      | node head slots =>
        refine (placeNode_fills h hfound).bind fun placed m₁ h₁ hplaced => ?_
        obtain ⟨rfl, hlives⟩ := hplaced
        rw [nodeBelow_withGreen]
        refine (hstep depth state (.node _) (mono _ _ _ h₁.grows hstate) hlives).bind
          fun state₂ m₂ h₂ hstate₂ => ?_
        refine (ih slot _ (below?_of_node hfound) (hlives.mono h₂.grows) (depth + 1) 0
          hstate₂).bind fun state₃ m₃ h₃ hstate₃ => ?_
        exact ihslot (h.mono ((h₁.trans h₂).trans h₃).grows) (slot + 1) hstate₃ (by omega)

theorem Node.descendants_fills {node : Node} (h : node.Lives tree memo) :
    Query.Fills tree memo node.descendants fun memo' found => ∀ n ∈ found, n.Lives tree memo' := by
  refine (foldBelow_fills (fun memo' found => ∀ n ∈ found, n.Lives tree memo') ?_ ?_ h 1 0
    (List.forall_mem_singleton.2 h)).bind fun found memo' _ hfound => Query.Fills.pure ?_
  · exact fun memo memo' found hgrows hall n hn => (hall n hn).mono hgrows
  · intro memo depth found element hfound helement
    cases element with
    | node below => exact Query.Fills.pure (List.forall_mem_cons.2 ⟨helement, hfound⟩)
    | token token => exact Query.Fills.pure hfound
  · exact fun n hn => hfound n (List.mem_reverse.1 hn)

theorem Node.listing_fills {node : Node} (h : node.Lives tree memo) :
    Query.Fills tree memo node.listing fun _ _ => True := by
  refine Query.Fills.lift_bind fun line _ => ?_
  refine foldBelow_fills (fun _ _ => True) (fun _ _ _ _ _ => trivial) ?_ h 1 0 trivial
  intro memo depth before element _ _
  cases element with
  | node below => exact Query.Fills.lift_bind fun _ _ => Query.Fills.pure trivial
  | token token => exact Query.Fills.lift_bind fun _ _ => Query.Fills.pure trivial

end

/-! ## Parts by offset -/

section

variable {tree : Tree} {memo : Memo} {node : Node}

theorem Touching.mem_join {α : Type} {before after : Touching α} {x : α}
    (h : x ∈ (before.join after).toList) : x ∈ before.toList ∨ x ∈ after.toList := by
  cases before <;> cases after <;> simp_all [join, left?, right?, toList] <;> tauto

theorem Node.tokensAt_of_span {span : Span} (hspan : node.span = .ok span) (offset : Nat) :
    node.tokensAt offset = if span.isEmpty || !span.touches offset then pure .none
      else node.touchingIn offset (node.green.slotsTouching (offset - span.start)) := by
  rw [tokensAt, hspan]
  rfl

theorem Node.tokensAt_fills (h : node.Lives tree memo) (offset : Nat) :
    Query.Fills tree memo (node.tokensAt offset) fun memo' found =>
      ∀ t ∈ found.toList, t.Lives tree memo' := by
  induction node using Node.descend generalizing memo with
  | step node ih =>
    have hslot : ∀ {memo} (slot : Nat), node.Lives tree memo →
        Query.Fills tree memo (node.touchingAt offset slot) fun memo' found =>
          ∀ t ∈ found.toList, t.Lives tree memo' := by
      intro memo slot h
      rw [touchingAt_eq]
      cases hfound : node.green.slots[slot]? with
      | none => exact Query.Fills.throw _
      | some e =>
        cases e with
        | token green =>
          refine (tokenAt_fills h hfound).bind fun token memo' _ htoken => ?_
          exact Query.Fills.pure (List.forall_mem_singleton.2 htoken)
        | node head slots =>
          refine (placeNode_fills h hfound).bind fun placed memo' _ hplaced => ?_
          obtain ⟨rfl, hlives⟩ := hplaced
          rw [nodeBelow_withGreen]
          exact ih slot _ (below?_of_node hfound) hlives
    cases hspan : node.span with
    | error violation =>
      rw [tokensAt, hspan]
      exact Query.Fills.throw _
    | ok span =>
      rw [tokensAt_of_span hspan]
      split_ifs with hskip
      · exact Query.Fills.pure fun t ht => absurd ht List.not_mem_nil
      · cases node.green.slotsTouching (offset - span.start) with
        | nil => exact Query.Fills.pure fun t ht => absurd ht List.not_mem_nil
        | cons slot more =>
          cases more with
          | nil => exact hslot slot h
          | cons next more =>
            refine (hslot slot h).bind fun before m₁ h₁ hbefore => ?_
            refine (hslot next (h.mono h₁.grows)).bind fun after m₂ h₂ hafter => ?_
            refine Query.Fills.pure fun t ht => ?_
            rcases Touching.mem_join ht with ht | ht
            · exact (hbefore t ht).mono h₂.grows
            · exact hafter t ht

theorem Node.coveringFrom_fills (h : node.Lives tree memo) (first last : Nat) :
    Query.Fills tree memo (node.coveringFrom first last) fun memo' element =>
      element.Lives tree memo' := by
  induction node using Node.descend generalizing memo with
  | step node ih =>
    rw [coveringFrom_eq]
    cases node.green.slotCovering? (first - node.start) (last - node.start) with
    | none => exact Query.Fills.pure h
    | some slot =>
      dsimp only
      cases hfound : node.green.slots[slot]? with
      | none => exact Query.Fills.throw _
      | some e =>
        cases e with
        | token green =>
          refine (tokenAt_fills h hfound).bind fun token memo' _ htoken => ?_
          exact Query.Fills.pure htoken
        | node head slots =>
          refine (placeNode_fills h hfound).bind fun placed memo' _ hplaced => ?_
          obtain ⟨rfl, hlives⟩ := hplaced
          rw [nodeBelow_withGreen]
          exact ih slot _ (below?_of_node hfound) hlives

theorem Node.covering_fills (h : node.Lives tree memo) (span : Span) :
    Query.Fills tree memo (node.covering span) fun memo' element => element.Lives tree memo' := by
  refine Query.Fills.lift_bind fun whole _ => ?_
  split_ifs with hcovers
  · exact coveringFrom_fills h span.start span.stop
  · exact Query.Fills.throw _

end

end LosslessSyntax.Placed
