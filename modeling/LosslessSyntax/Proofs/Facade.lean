import LosslessSyntax.Proofs.Placed.Calls
import LosslessSyntax.Proofs.Placed.Proper
import LosslessSyntax.Proofs.Session

/-!
# Trees of all sessions

Whatever a caller can make, at whatever offset it puts it, and whatever it asks in whatever order, a
tree answers as the reference does, which knows paths only. A tree is put up where there is room for
all of its text, and that is the only bound that is ever looked at: no sum that is made in a tree is
too large, nothing is taken away from less, and no span ends before its start, at whatever depth.

* `Session.fits_of_reachable`: what was made can be put up;
* **`Session.replies_admitted`**: all answers to all series of calls;
* **`Session.tokensAt_exact`**: the tokens at an offset, for every node that a caller can get;
* **`Session.measuring_in_bounds`**: all questions to all handles, with all checks.
-/

namespace LosslessSyntax.Session

open Placed

section

variable {s : Session} {tree : Placed.Tree}

theorem fits_of_reachable (reached : s.Reachable) (held : tree.green.toElement ∈ s.parts)
    (room : tree.start + tree.green.width ≤ maxSize) : tree.Fits := by
  obtain ⟨parts, h⟩ := reached.exists_stock
  exact ⟨h.stock.wellFormed (h.held _ held), room⟩

theorem narrow_of_tokens (tokens : ∀ e ∈ tree.green.slots, e.isNode = false)
    (few : tree.green.arity ≤ UInt32.size) : tree.Narrow :=
  Green.Element.allNodes_of_tokens tokens few

end

theorem names_narrow (start : Nat) : Tree.Narrow ⟨0, start, names⟩ :=
  narrow_of_tokens names_tokens (Nat.le_of_lt_succ (by decide : 3 < UInt32.size + 1))

section

variable {s : Session} {tree : Placed.Tree}

/-- **All handles of a tree answer all series of calls as the reference does.** -/
theorem replies_admitted (reached : s.Reachable) (held : tree.green.toElement ∈ s.parts)
    (room : tree.start + tree.green.width ≤ maxSize) (narrow : tree.Narrow) (calls : List Call) :
    tree.Admits [⟨.node, []⟩] calls
      (((Facade.start tree.root).run calls).map (Except.map (toldData tree))) :=
  (Facade.valid_start tree).run_admits (fits_of_reachable reached held room) narrow calls

/-- The node above the first name is the root. -/
theorem replies_admitted_names : ∃ s : Session, s.Reachable ∧ names.toElement ∈ s.parts ∧
    ((Facade.start (Tree.root ⟨0, 7, names⟩)).run
      [.ask 0 .node (.slotAt 0), .ask 1 .token .parent, .same 0 2]).map
        (Except.map (toldData ⟨0, 7, names⟩)) =
      [.ok [.handle ⟨.token, [0]⟩], .ok [.handle ⟨.node, []⟩], .ok [.flag true]] := by
  obtain ⟨s, reached, held⟩ := names_reachable
  have h : Tree.Admits ⟨0, 7, names⟩ _ [.ask 0 .node (.slotAt 0), .ask 1 .token .parent, .same 0 2] _ :=
    replies_admitted reached held (by decide) (names_narrow 7) _
  refine ⟨s, reached, held, ?_⟩
  have hroot : Tree.part? ⟨0, 7, names⟩ [] = some names.toElement := Green.Element.at?_nil _
  have hname : Tree.part? ⟨0, 7, names⟩ [0] = names.slots[0]? := by
    rw [Tree.part?, Green.Node.toElement, Green.Element.at?_node_cons]
    cases names.slots[0]? with
    | none => rfl
    | some e => exact Green.Element.at?_nil e
  generalize List.map _ (Facade.run _ _) = replies at h ⊢
  rcases replies with _ | ⟨a, _ | ⟨b, _ | ⟨c, rest⟩⟩⟩
  · exact h.elim
  · exact h.2.elim
  · exact h.2.2.elim
  obtain ⟨ha, hb, hc, hrest⟩ := h
  have ha' : a = .ok [.handle ⟨.token, [0]⟩] := by
    change a = HandleKind.answer _ .node [] (.slotAt 0) at ha
    simp only [HandleKind.answer, Tree.node?, hroot] at ha
    change a = .ok [.handle (Tree.ref _ [0])] at ha
    rw [ha, Tree.ref, Tree.holdsNode, hname]
    rfl
  subst ha'
  have hb' : b = .ok [.handle ⟨.node, []⟩] := by
    change b = HandleKind.answer _ .token [0] .parent at hb
    simp only [HandleKind.answer, Tree.token?, hname] at hb
    change b = .ok [.handle (Tree.ref _ [])] at hb
    rw [hb, Tree.ref, Tree.holdsNode, hroot]
    rfl
  subst hb'
  have hc' : c = .ok [.flag true] := hc
  have hrest' : rest = [] := by
    cases rest with
    | nil => rfl
    | cons x xs => cases hrest
  rw [hc', hrest']

/-- **The tokens with text that hold an offset or have it at an end**: there are at most two, two
of them meet at the offset, nothing without text counts, and the search finds just these, whatever
was placed before. It can fail only where there are more slots than can be numbered. -/
theorem tokensAt_exact (reached : s.Reachable) (held : tree.green.toElement ∈ s.parts)
    (room : tree.start + tree.green.width ≤ maxSize) (calls : List Call) {node : Placed.Node}
    (given : ⟨.node, node⟩ ∈ ((Facade.start tree.root).after calls).handles) (offset : Nat) :
    (node.touching offset).length ≤ 2 ∧
    (∀ l r, node.touching offset = [l, r] → l.stop = .ok offset ∧ r.start = offset) ∧
    ((node.touching offset).map Token.mark =
      node.ink.filter fun (start, green) => start ≤ offset ∧ offset ≤ start + green.width) ∧
    ∃ memo, (∃ found, found.toList = node.touching offset ∧
        node.tokensAt offset ((Facade.start tree.root).after calls).memo = .ok found memo) ∨
      ¬ tree.Narrow ∧
        node.tokensAt offset ((Facade.start tree.root).after calls).memo =
          .error .slotTooLarge memo := by
  have fits := fits_of_reachable reached held room
  have valid := (Facade.valid_start tree).after fits calls
  have standing : node.Stands tree := valid.handles _ given
  have hmeets := standing.touching_meets fits offset
  refine ⟨?_, fun l r hrow => ?_, node.touching_mark offset, ?_⟩
  · rcases hmeets with hone | ⟨l, r, hrow, -⟩
    · omega
    · rw [hrow]
      exact Nat.le_refl 2
  · rcases hmeets with hone | ⟨l', r', hrow', -, -, hstop, hstart⟩
    · rw [hrow] at hone
      exact absurd hone (by simp)
    · rw [hrow] at hrow'
      obtain ⟨rfl, hright⟩ := List.cons.inj hrow'
      cases hright
      have hmem : l ∈ node.touching offset := hrow ▸ List.mem_cons_self
      have hleft : l.Stands tree := standing.of_mem_tokens (List.mem_of_mem_filter hmem)
      rw [hleft.stop_eq fits, hleft.stopOf_eq, hstop]
      exact ⟨rfl, hstart⟩
  · obtain ⟨found, ⟨answer, hanswers, hanswer⟩, hfound⟩ := node.tokensAt_gives standing fits offset
    obtain ⟨memo, -, -, hrun⟩ := hanswers _ valid.memo
    refine ⟨memo, ?_⟩
    rcases hanswer with rfl | ⟨rfl, hwide⟩
    · exact .inl ⟨found, hfound, hrun⟩
    · exact .inr ⟨hwide, hrun⟩

/-- Between the two names there is no third one. -/
theorem tokensAt_exact_names : ∃ s : Session, s.Reachable ∧ names.toElement ∈ s.parts ∧
    ∃ found memo, (Tree.root ⟨0, 7, names⟩).tokensAt 8 ∅ = .ok found memo ∧
      found.toList.map Token.text = ["x", "y"] := by
  obtain ⟨s, reached, held⟩ := names_reachable
  refine ⟨s, reached, held, ?_⟩
  have htouching : ((Tree.root ⟨0, 7, names⟩).touching 8).map Token.text = ["x", "y"] := by
    rw [Node.touching, Node.tokens_children]
    rfl
  have hroot : ⟨.node, Tree.root ⟨0, 7, names⟩⟩ ∈
      ((Facade.start (Tree.root ⟨0, 7, names⟩)).after []).handles := List.mem_cons_self
  obtain ⟨-, -, -, memo, ⟨found, hfound, hrun⟩ | ⟨hwide, -⟩⟩ :=
    tokensAt_exact reached held (by decide) [] hroot 8
  · exact ⟨found, memo, hrun, hfound ▸ htouching⟩
  · exact absurd (names_narrow 7) hwide

end

end LosslessSyntax.Session

/-! ## Measuring in bounds -/

namespace LosslessSyntax

theorem Placed.Node.Stands.slotSpan_ok {tree : Placed.Tree} {node : Placed.Node}
    (standing : node.Stands tree) (fits : tree.Fits) {slot : Nat} (hslot : slot < node.arity) :
    ∃ span, node.green.slotSpan slot = .ok span := by
  have hstop := standing.stop_le fits
  exact ⟨_, (standing.wellFormed fits).tidy.slotSpan_eq (by omega) hslot⟩

namespace Session

open Placed

section

variable {s : Session} {tree : Placed.Tree}

/-- **Nothing that is measured in a tree goes out of bounds.** Whatever was called before, a question
to a handle runs with each sum, each difference and each span checked as it does without; the searches
may look at any slot of a node; and a question that does not ask for too much has an answer, so that
no check fails. -/
theorem measuring_in_bounds (reached : s.Reachable) (held : tree.green.toElement ∈ s.parts)
    (room : tree.start + tree.green.width ≤ maxSize) (narrow : tree.Narrow) (calls : List Call)
    {handle : Handle} (given : handle ∈ ((Facade.start tree.root).after calls).handles) :
    (∀ question, handle.kind.askChecked handle.held question
        ((Facade.start tree.root).after calls).memo =
      handle.kind.ask handle.held question ((Facade.start tree.root).after calls).memo) ∧
    (∀ node : Placed.Node, handle = ⟨.node, node⟩ → ∀ slot < node.arity,
      ∃ span, node.green.slotSpan slot = .ok span) ∧
    ∀ question, handle.kind.Proper handle.held question →
      ∃ data memo, handle.kind.askChecked handle.held question
        ((Facade.start tree.root).after calls).memo = .ok data memo := by
  have fits := fits_of_reachable reached held room
  have caller := (Facade.valid_start tree).after fits calls
  have valid := caller.handles handle given
  have hruns := fun question =>
    (HandleKind.askChecked_runs valid fits question).same _ caller.memo
  refine ⟨hruns, fun node hnode slot hslot => ?_, fun question proper => ?_⟩
  · subst hnode
    have standing : node.Stands tree := valid
    exact standing.slotSpan_ok fits hslot
  · obtain ⟨told, htold⟩ := proper.answered valid fits
    have hagrees := HandleKind.ask_agrees valid fits question
    rw [htold] at hagrees
    rw [hruns question]
    exact hagrees.answered narrow caller.memo

/-- The two names at the very end of all offsets: the second one is searched for. -/
theorem measuring_in_bounds_names : ∃ s : Session, s.Reachable ∧ names.toElement ∈ s.parts ∧
    ∃ data memo, (NodeQuestion.covering ⟨maxSize - 1, maxSize, Nat.sub_le _ _⟩).askChecked
      (Tree.root ⟨0, maxSize - 2, names⟩) ∅ = .ok data memo := by
  obtain ⟨s, reached, held⟩ := names_reachable
  refine ⟨s, reached, held, ?_⟩
  have hroot : ⟨.node, Tree.root ⟨0, maxSize - 2, names⟩⟩ ∈
      ((Facade.start (Tree.root ⟨0, maxSize - 2, names⟩)).after []).handles := List.mem_cons_self
  exact (measuring_in_bounds reached held (by decide) (names_narrow _) [] hroot).2.2
    (NodeQuestion.covering ⟨maxSize - 1, maxSize, Nat.sub_le _ _⟩) ⟨by decide, by decide⟩

end

end Session

end LosslessSyntax
