import LosslessSyntax.Proofs.Green.Splice
import LosslessSyntax.Proofs.Session

/-!
# Replacing parts of trees

A part of a tree can always be replaced by another one of its sort, as long as the new tree is not
too wide. The nodes above it are made anew, from the inside out, and none of the lists among them is
ever refused.

* `Placed.Tree.Splices`: what the new root has to be;
* `Placed.Tree.Outcome`: what a replacement may give;
* **`Placed.Node.Stands.replace_run`**, **`Placed.Token.Stands.replace_run`**: what replacing a node
  and a token gives;
* `Placed.Node.Stands.replace_wellFormed`: what is made of tidy parts is tidy;
* **`Session.replace_splices`**: every part of every tree that a caller can get.
-/

namespace LosslessSyntax

open Green

namespace Placed

/-- The green root `made` is that of the tree with `new` in the place of a part, and so is its text. -/
structure Tree.Splices (tree : Tree) (part : Element) (new : Green.Element) (made : Green.Node) :
    Prop where
  spliced : Green.Element.Spliced new part.path tree.green.toElement made.toElement
  text : TextSpliced new.text (part.start - tree.start)
    (part.start - tree.start + part.green.width) tree.green.text made.text

/-- A replacement of a part gives a spliced tree, or fails because that is too wide. -/
def Tree.Outcome (tree : Tree) (path : List Nat) (old new : Green.Element) :
    EStateM.Result Failure Nat Green.Node → Prop
  | .ok made _ => Green.Element.Spliced new path tree.green.toElement made.toElement
  | .error failure _ => failure = .violated .sizeOverflow ∧
    maxSize < tree.green.width - old.width + new.width

section

variable {tree : Tree}

theorem Tree.splices_of_spliced (well : tree.green.WellFormed) {part : Element}
    (standing : part.Stands tree) {new : Green.Element} {made : Green.Node}
    (h : Green.Element.Spliced new part.path tree.green.toElement made.toElement) :
    tree.Splices part new made where
  spliced := h
  text := by
    rw [standing.start_eq, Nat.add_sub_cancel_left]
    exact h.text_spliced well standing.at?

theorem Node.Stands.replace_slot (well : tree.green.WellFormed) {parent : Node}
    (standing : parent.Stands tree) {slot : Nat} {old : Green.Element}
    (found : parent.green.slots[slot]? = some old) (new : Green.Element)
    (hsort : old.isNode = new.isNode)
    (hrest : ∀ (above : Green.Node) supply,
      tree.Outcome parent.path parent.green.toElement above.toElement (parent.replace above supply))
    (supply : Nat) : tree.Outcome (parent.path ++ [slot]) old new
      (EStateM.bind (parent.green.replaceSlot slot new) parent.replace supply) := by
  have hparent : parent.green.WellFormed := well.at? standing.at?
  have hslot := hparent.tidy.replaceSlot_run found hsort supply
  have hwidth := hparent.tidy.slot_width_le found
  have hle := well.width_le standing.at?
  rw [Node.toElement_width, Node.toElement_width] at hle
  rw [EStateM.bind]
  cases hmade : parent.green.replaceSlot slot new supply with
  | error failure next =>
    rw [hmade] at hslot
    obtain ⟨hfailure, hwide⟩ := hslot
    exact ⟨hfailure, by omega⟩
  | ok above next =>
    rw [hmade] at hslot
    obtain ⟨habove, hnew⟩ := hslot
    -- the copy of the parent is put in its place as a replacement like any other
    have houtcome := hrest above next
    dsimp only
    generalize parent.replace above next = result at houtcome ⊢
    cases result with
    | ok made last => exact houtcome.trans standing.at? habove
    | error failure last =>
      obtain ⟨hfailure, hwide⟩ := houtcome
      rw [Node.toElement_width, Node.toElement_width] at hwide
      exact ⟨hfailure, by omega⟩

/-- **What replacing a node gives.** -/
theorem Node.Stands.replace_run (well : tree.green.WellFormed) {node : Node}
    (standing : node.Stands tree) (replacement : Green.Node) (supply : Nat) :
    tree.Outcome node.path node.green.toElement replacement.toElement
      (node.replace replacement supply) := by
  induction standing generalizing replacement supply with
  | root => exact .here _
  | child standing found ih =>
    rw [Node.nodeBelow_path]
    exact standing.replace_slot well found replacement.toElement rfl ih supply

/-- **What replacing a token gives.** -/
theorem Token.Stands.replace_run (well : tree.green.WellFormed) {token : Token}
    (standing : token.Stands tree) (replacement : Green.Token) (supply : Nat) :
    tree.Outcome token.path (.token token.green) (.token replacement)
      (token.replace replacement supply) := by
  cases standing with
  | child standing found =>
    exact standing.replace_slot well found (.token replacement) rfl (standing.replace_run well) supply

theorem Node.Stands.replace_slot_wellFormed (well : tree.green.WellFormed) {parent : Node}
    (standing : parent.Stands tree) {slot : Nat} {old new : Green.Element}
    (found : parent.green.slots[slot]? = some old) (hnew : new.WellFormed)
    (hsort : old.isNode = new.isNode) {made : Green.Node} {supply next : Nat}
    (hrest : ∀ (above : Green.Node) supply, above.WellFormed →
      parent.replace above supply = .ok made next → made.WellFormed)
    (run : EStateM.bind (parent.green.replaceSlot slot new) parent.replace supply =
      .ok made next) : made.WellFormed := by
  rw [EStateM.bind] at run
  cases habove : parent.green.replaceSlot slot new supply with
  | error failure last =>
    rw [habove] at run
    cases run
  | ok above last =>
    rw [habove] at run
    have hparent : parent.green.WellFormed := well.at? standing.at?
    exact hrest above last (hparent.replaceSlot found hsort hnew habove) run

/-- **What is made of tidy parts is tidy.** -/
theorem Node.Stands.replace_wellFormed (well : tree.green.WellFormed) {node : Node}
    (standing : node.Stands tree) {replacement made : Green.Node} (hnew : replacement.WellFormed)
    {supply next : Nat} (run : node.replace replacement supply = .ok made next) :
    made.WellFormed := by
  induction standing generalizing replacement supply with
  | root =>
    cases run
    exact hnew
  | child standing found ih =>
    exact standing.replace_slot_wellFormed well found hnew rfl (fun _ _ habove => ih habove) run

theorem Token.Stands.replace_wellFormed (well : tree.green.WellFormed) {token : Token}
    (standing : token.Stands tree) {replacement : Green.Token} {made : Green.Node}
    {supply next : Nat} (run : token.replace replacement supply = .ok made next) :
    made.WellFormed := by
  cases standing with
  | child standing found =>
    exact standing.replace_slot_wellFormed well found (.token replacement) rfl
      (fun _ _ habove => standing.replace_wellFormed well habove) run

theorem Tree.Outcome.splices (well : tree.green.WellFormed) (part : Element)
    (standing : part.Stands tree) {new : Green.Element}
    {result : EStateM.Result Failure Nat Green.Node}
    (h : tree.Outcome part.path part.green new result)
    (room : tree.green.width - part.green.width + new.width ≤ maxSize) :
    ∃ made next, result = .ok made next ∧ tree.Splices part new made := by
  cases result with
  | ok made next => exact ⟨made, next, rfl, Tree.splices_of_spliced well standing h⟩
  | error failure next => exact absurd h.2 (Nat.not_lt.2 room)

end

end Placed

namespace Session

open Placed (Tree)

/-- **A part of a tree can be replaced by any other one of its sort**, if the new tree is not too
wide. Nothing else changes: not in the text, and not in the tree, but for the nodes on the way to the
part. -/
theorem replace_splices {s : Session} (reached : s.Reachable) {tree : Tree}
    (held : tree.green.toElement ∈ s.parts) (supply : Nat) :
    (∀ node : Placed.Node, node.Stands tree → ∀ replacement : Node,
      tree.green.width - node.width + replacement.width ≤ maxSize →
      ∃ made next, node.replace replacement supply = .ok made next ∧
        tree.Splices (.node node) replacement.toElement made ∧
        (node = tree.root → made = replacement)) ∧
    (∀ token : Placed.Token, token.Stands tree → ∀ replacement : Token,
      tree.green.width - token.green.width + replacement.width ≤ maxSize →
      ∃ made next, token.replace replacement supply = .ok made next ∧
        tree.Splices (.token token) (.token replacement) made) := by
  obtain ⟨parts, h⟩ := reached.exists_stock
  have well : tree.green.WellFormed := h.stock.wellFormed (h.held _ held)
  constructor
  · intro node standing replacement room
    have houtcome := standing.replace_run well replacement supply
    obtain ⟨made, next, hrun, hsplices⟩ :=
      Tree.Outcome.splices well (.node node) standing houtcome room
    refine ⟨made, next, hrun, hsplices, fun hroot => ?_⟩
    subst hroot
    cases hrun
    rfl
  · intro token standing replacement room
    exact Tree.Outcome.splices well (.token token) standing
      (standing.replace_run well replacement supply) room

/-- The name in a statement is replaced by a longer one. -/
theorem replace_splices_name : ∃ (s : Session) (tree : Tree) (node : Placed.Node) (other : Node),
    s.Reachable ∧ tree.green.toElement ∈ s.parts ∧ node.Stands tree ∧ node.text = "x" ∧
    ∃ made next, node.replace other 5 = .ok made next ∧ made.text = "why" ∧
      made.toElement.at? [0] = some other.toElement := by
  let root : Node := ⟨⟨2, .exprStmt, .plain, 1, #[0], none⟩, #[seenRef.toElement]⟩
  let why : Token := ⟨3, .name, .none, "why", .none, by decide, by decide, by decide⟩
  let other : Node := ⟨⟨4, .nameRef, .plain, 3, #[0], none⟩, #[.token why]⟩
  have href : ∀ e ∈ #[seenRef.toElement], e ∈ [seenRef.toElement, .token seen] := by simp
  have hreached : Reachable ⟨3, [root.toElement, seenRef.toElement, .token seen], [], []⟩ :=
    .step seenRef_reachable (.node (.plain .exprStmt #[seenRef.toElement] href))
  let tree : Tree := ⟨0, 7, root⟩
  have hheld : tree.green.toElement ∈ [root.toElement, seenRef.toElement, .token seen] :=
    List.mem_cons_self
  have hnode : (tree.root.nodeBelow 0 seenRef).Stands tree := .child .root rfl
  obtain ⟨hnodes, -⟩ := replace_splices hreached hheld 5
  obtain ⟨made, next, hrun, hsplices, -⟩ := hnodes _ hnode other (by decide)
  refine ⟨_, tree, _, other, hreached, hheld, hnode, rfl, made, next, hrun, ?_, hsplices.spliced.at?⟩
  obtain ⟨plan, hplan, htext⟩ : ∃ plan, (tree.root.nodeBelow 0 seenRef).replace other 5 = .ok plan 6 ∧
    plan.text = "why" := ⟨_, rfl, rfl⟩
  rw [hplan] at hrun
  cases hrun
  exact htext

end Session

end LosslessSyntax
