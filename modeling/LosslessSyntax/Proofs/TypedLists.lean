import LosslessSyntax.Proofs.Typed.Lists

/-!
# Typed lists in all sessions

Whatever green nodes a caller has made, and whatever it has asked of the trees that it put up: the list
of a part is the first child of its kind, and a typed list gives the elements of its form in the order
of the list, whether by number or from both ends. Nothing else is taken for an element.

* **`Session.typed_lists_agree`**: all parts that are lists, and all lists that a caller holds.
-/

namespace LosslessSyntax.Session

open Placed

/-- **Typed lists agree with the lists they are views of.** The functions of a module, the parameters of
a function, the statements of a block and the arguments of a call are absent exactly if no child of the
node is a list of the kind, and else they are a view of the first that is. And every list that a caller
holds, wherever a series of moves leads, can be seen as a list of any form: an element is there by
number exactly if it belongs to the form, it is found by a look exactly if it was placed before as well,
and the elements that are there are given out in order, from either end. -/
theorem typed_lists_agree {s : Session} (reached : s.Reachable) {moves : List Grove.Move}
    (planted : s.Plants moves) {tree : Placed.Tree} (has : (Grove.empty.after moves).Has tree)
    (room : tree.start + tree.green.width ≤ maxSize) :
    let grove := Grove.empty.after moves
    (∀ typed : Typed.Node .module, typed.node.Stands tree →
      Typed.GivesFirst tree grove.memo typed.node .itemList typed.functions?) ∧
    (∀ typed : Typed.Node .function, typed.node.Stands tree →
      Typed.GivesFirst tree grove.memo typed.node .paramList typed.params?) ∧
    (∀ typed : Typed.Node .block, typed.node.Stands tree →
      Typed.GivesFirst tree grove.memo typed.node .stmtList typed.statements?) ∧
    (∀ typed : Typed.Node .callExpr, typed.node.Stands tree →
      Typed.GivesFirst tree grove.memo typed.node .argList typed.args?) ∧
    ∀ (form : Typed.Form) (list : Typed.ListOf form), ⟨.list, list.view⟩ ∈ grove.handles →
      list.view.node.tree = tree.number → list.Agrees tree grove.memo := by
  intro grove
  have h := Grove.sound_empty.after (planted.wellFormed reached)
  have sound := h.trees tree has
  have fits := h.fits has room
  have gives : ∀ (form : Typed.Form) (kind : Kind), kind.isList = true →
      ∀ node : Placed.Node, node.Stands tree →
        Typed.GivesFirst tree grove.memo node kind (Typed.listOf? form kind node) :=
    fun form kind isList node standing =>
      Typed.listOf?_givesFirst standing fits sound.keeps isList
  refine ⟨fun typed => gives .function .itemList rfl typed.node,
    fun typed => gives .param .paramList rfl typed.node,
    fun typed => gives .stmt .stmtList rfl typed.node,
    fun typed => gives .expr .argList rfl typed.node, fun form list held number => ?_⟩
  obtain ⟨other, hother, (lives : list.view.Lives other grove.memo)⟩ := h.handles _ held
  have hnumber : other.number = tree.number := lives.node.standing.address_tree.symm.trans number
  obtain rfl := has.eq_of_number hother hnumber
  exact Typed.ListOf.Lives.agrees lives sound fits

/-! ## A list with a stray element -/

/-- A node that stands where an argument should. -/
def stray : Green.Node := ⟨⟨3, .error, .plain, 0, #[], none⟩, #[]⟩

/-- An argument, a comma, and no second argument. -/
def damaged : Green.Node :=
  ⟨⟨4, .argList, .list .separated, 2, #[0, 1, 2], none⟩,
    #[argument.toElement, .token comma, stray.toElement]⟩

/-- A call with these arguments. -/
def damagedCall : Green.Node :=
  ⟨⟨5, .callExpr, .plain, 3, #[0, 1], none⟩, #[argument.toElement, damaged.toElement]⟩

theorem damaged_run :
    Green.Node.separated .argList [argument, stray] [comma] 4 = .ok damaged 5 := by
  have hshape : Green.listShapeOf .argList
      (Green.interleave [argument, stray] [comma]).toArray = .ok .separated := by
    unfold Green.listShapeOf
    rw [List.any_toArray, Green.any_interleave (by decide)]
    rfl
  rw [Green.Node.separated_eq, if_neg (by decide)]
  unfold Green.Node.ofListSlots
  rw [hshape]
  rfl

theorem damaged_reachable : ∃ s : Session, s.Reachable ∧ damaged.toElement ∈ s.parts ∧
    damagedCall.toElement ∈ s.parts := by
  have h1 := Reachable.step .start (.token .none .name "a" .none)
  have h2 := Reachable.step h1 (.token .none .comma "," .none)
  have hslots : ∀ e ∈ argument.slots, e ∈ Green.Element.token comma :: argument.slots.toList :=
    fun e he => List.mem_cons_of_mem _ (Array.mem_toList_iff.2 he)
  have h3 : Reachable ⟨3, argument.toElement :: .token comma :: argument.slots.toList, [], []⟩ :=
    .step h2 (.node (.plain .nameRef argument.slots hslots))
  have h4 : Reachable ⟨4, stray.toElement :: argument.toElement :: .token comma ::
      argument.slots.toList, [], []⟩ := .step h3 (.node (.plain .error #[] (by simp)))
  have h5 := h4.step (.node (@Offers.separated _ .argList [argument, stray] [comma] (by simp)
    (by simp)))
  rw [makes, damaged_run] at h5
  have h6 : Reachable ⟨6, damagedCall.toElement :: damaged.toElement :: stray.toElement ::
      argument.toElement :: .token comma :: argument.slots.toList, [], []⟩ :=
    .step h5 (.node (.plain .callExpr damagedCall.slots (by simp [damagedCall])))
  exact ⟨_, h6, by simp, by simp⟩

theorem damaged_narrow : damaged.toElement.AllNodes fun node => node.arity ≤ UInt32.size := by
  have hstray : stray.toElement.AllNodes fun node => node.arity ≤ UInt32.size :=
    Green.Element.allNodes_of_tokens (by simp [stray])
      (Nat.le_of_lt_succ (by decide : 0 < UInt32.size + 1))
  refine Green.Element.allNodes_of_slots (Nat.le_of_lt_succ (by decide : 3 < UInt32.size + 1)) ?_
  intro e he
  simp only [damaged, List.mem_toArray, List.mem_cons, List.not_mem_nil, or_false] at he
  rcases he with rfl | rfl | rfl
  · exact argument_narrow
  · exact Green.Element.allNodes_token comma
  · exact hstray

theorem damagedCall_narrow : Tree.Narrow ⟨0, 0, damagedCall⟩ := by
  refine Green.Element.allNodes_of_slots (Nat.le_of_lt_succ (by decide : 2 < UInt32.size + 1)) ?_
  intro e he
  simp only [damagedCall, List.mem_toArray, List.mem_cons, List.not_mem_nil, or_false] at he
  rcases he with rfl | rfl
  · exact argument_narrow
  · exact damaged_narrow

/-- The list as one of expressions. -/
def damagedList : Typed.ListOf .expr := ⟨⟨Tree.root ⟨0, 0, damaged⟩, .separated⟩⟩

/-- The call gives its damaged list of arguments. Of the two elements only the first is an expression;
it is not found by a look before it was asked for, and whoever takes from both ends is given it once. -/
theorem typed_lists_agree_damaged : ∃ s : Session, s.Reachable ∧
    damagedCall.toElement ∈ s.parts ∧ damaged.toElement ∈ s.parts ∧
    (∃ (call : Typed.Node .callExpr) (list : Typed.ListOf .expr) (memo : Memo),
      call.node = Tree.root ⟨0, 0, damagedCall⟩ ∧ call.args? ∅ = .ok (some list) memo ∧
      list.view.node.green = damaged) ∧
    damagedList.view.length = 2 ∧ ∃ first : Typed.Node .expr, first.node.green = argument ∧
      (∃ memo, damagedList.get? 0 ∅ = .ok (some first) memo) ∧
      (∃ memo, damagedList.get? 1 ∅ = .ok none memo) ∧
      damagedList.placed? 0 ∅ = .ok none ∅ ∧
      ∃ answers rest memo, Query.taking Typed.ListOf.next Typed.ListOf.nextBack
          [.back, .front, .back] damagedList.view.cursor ∅ = .ok (answers, rest) memo ∧
        takenAt .front answers ++ (takenAt .back answers).reverse = [first] := by
  obtain ⟨s, reached, held, heldCall⟩ := damaged_reachable
  let call : Typed.Node .callExpr := ⟨Tree.root ⟨0, 0, damagedCall⟩, rfl⟩
  let first : Typed.Node .expr := ⟨(Tree.root ⟨0, 0, damaged⟩).nodeBelow 0 argument, rfl⟩
  refine ⟨s, reached, heldCall, held, ?_, rfl, first, rfl, ?_⟩
  · obtain ⟨-, -, -, hargs, -⟩ := typed_lists_agree reached (.single heldCall 0)
      (Grove.holds_root 0 damagedCall).has (by decide)
    obtain ⟨found, hgives, hnone, hsome⟩ := hargs call .root
    obtain ⟨memo, hrun⟩ := hgives.run damagedCall_narrow
    have hnodes : call.node.nodes =
        [call.node.nodeBelow 0 argument, call.node.nodeBelow 1 damaged] := rfl
    rw [hnodes] at hnone
    cases found with
    | none => exact absurd rfl (hnone.1 rfl (call.node.nodeBelow 1 damaged) (by simp))
    | some list =>
      obtain ⟨-, hkind, before, after, hcut, -⟩ := hsome list rfl
      refine ⟨call, list, memo, rfl, hrun, ?_⟩
      have hmem : list.view.node ∈ call.node.nodes := hcut ▸ List.mem_append_cons_self
      rw [hnodes, List.mem_cons, List.mem_singleton] at hmem
      rcases hmem with hmem | hmem
      · rw [hmem] at hkind
        cases hkind
      · rw [hmem]
        rfl
  · obtain ⟨-, -, -, -, hlists⟩ := typed_lists_agree reached
      (.single_call held 0 (.ask 0 .node .asList))
      (show Grove.Has _ ⟨0, 0, damaged⟩ from rfl) (by decide)
    have agrees := hlists .expr damagedList (List.mem_cons_of_mem _ List.mem_cons_self) rfl
    have hmemo : (Grove.empty.after
        [.plant 0 damaged, .call (.ask 0 .node .asList)]).memo = ∅ := rfl
    rw [hmemo] at agrees
    have hrow : (List.range damagedList.view.length).filterMap damagedList.nth? = [first] := rfl
    obtain ⟨memo, -, -, hfirst⟩ := agrees.gets 0 fun _ => by decide
    obtain ⟨memo', -, -, hsecond⟩ := agrees.gets 1 fun _ => by decide
    obtain ⟨-, hlook⟩ := agrees.looks 0 fun _ => by decide
    obtain ⟨answers, rest, left, htaken, htakes⟩ := agrees.takes [.back, .front, .back]
    obtain ⟨memo'', hrun⟩ := htaken.run damaged_narrow
    rw [hrow] at htakes
    refine ⟨⟨memo, hfirst⟩, ⟨memo', hsecond⟩, ?_, answers, rest, memo'', hrun,
      (htakes.all (by decide)).2⟩
    rw [hlook]
    change EStateM.Result.ok (Option.filter _ (some first)) _ = _
    rw [Option.filter_some, if_neg (by simp)]

end LosslessSyntax.Session
