import LosslessSyntax.Proofs.Green.Checked
import LosslessSyntax.Proofs.Placed.Covering
import LosslessSyntax.Proofs.Placed.Touching

/-!
# Searching with checks

The two searches by offset take the start of a node away from an offset and from a stretch of text,
and the stretch of a token without its trivia is moved to where the token stands. Here they are with
each step checked. In a tree that fits they run as they do without: the offset has to touch the node
before anything is taken away, and a node that is searched for a stretch of text holds it, since the
slot that the search goes down into does.

* `Placed.Query.RunsAs`: queries that run alike, whatever was placed before;
* `Placed.Token.trimmedSpanChecked_eq`: tokens without their trivia;
* **`Placed.Node.tokensAtChecked_runs`**: the tokens at an offset;
* **`Placed.Node.coveringChecked_runs`**: the part that holds a stretch of text.
-/

namespace LosslessSyntax.Placed

/-! ## Queries that run alike -/

namespace Query

variable {tree : Tree} {α β : Type}

theorem Answers.unique {query : Query α} {answer answer' : Except Violation α}
    (h : Answers tree query answer) (h' : Answers tree query answer') : answer = answer' := by
  obtain ⟨memo, -, -, hrun⟩ := h ∅ tree.keeps_empty
  obtain ⟨memo', -, -, hrun'⟩ := h' ∅ tree.keeps_empty
  rw [hrun] at hrun'
  cases answer <;> cases answer' <;> cases hrun' <;> rfl

/-- From every memo of the tree the first query runs as the second, which leaves a memo of the
tree. -/
structure RunsAs (tree : Tree) (checked plain : Query α) : Prop where
  answered : ∃ answer, Answers tree plain answer
  same : ∀ memo, tree.Keeps memo → checked memo = plain memo

namespace RunsAs

theorem refl {query : Query α} {answer : Except Violation α} (h : Answers tree query answer) :
    RunsAs tree query query := ⟨⟨answer, h⟩, fun _ _ => rfl⟩

theorem pure (value : α) : RunsAs tree (Pure.pure value) (Pure.pure value) :=
  refl (Answers.pure value)

theorem lift (answer : Except Violation α) : RunsAs tree (liftM answer) (liftM answer) :=
  refl (Answers.lift answer)

/-- **Queries one after the other run alike** if those that come second do after every answer of the
first. -/
theorem bind {checked plain : Query α} {next next' : α → Query β} (h : RunsAs tree checked plain)
    (hnext : ∀ value, Answers tree plain (.ok value) → RunsAs tree (next value) (next' value)) :
    RunsAs tree (checked >>= next) (plain >>= next') := by
  obtain ⟨⟨answer, hanswer⟩, hsame⟩ := h
  constructor
  · cases answer with
    | ok value =>
      obtain ⟨last, hlast⟩ := (hnext value hanswer).answered
      exact ⟨last, hanswer.bind_ok hlast⟩
    | error violation => exact ⟨_, hanswer.bind_error⟩
  · intro memo hmemo
    obtain ⟨memo', -, hmemo', hrun⟩ := hanswer memo hmemo
    change EStateM.bind checked next memo = EStateM.bind plain next' memo
    rw [EStateM.bind, EStateM.bind, hsame memo hmemo, hrun]
    cases answer with
    | ok value => exact (hnext value hanswer).same memo' hmemo'
    | error violation => rfl

/-- A check that does not fail may be left out. -/
theorem check {answer : Except Violation α} {value : α} {next : α → Query β} {plain : Query β}
    (hcheck : answer = .ok value) (hnext : RunsAs tree (next value) plain) :
    RunsAs tree (liftM answer >>= next) plain := by
  subst hcheck
  exact hnext

end RunsAs

end Query

/-! ## Tokens without their trivia -/

/-- The stretch of text of a token without its trivia. -/
def Token.trimmedSpanChecked (token : Token) : Except Violation Span := do
  (← token.green.trimmedSpanChecked).shift token.start

theorem Token.trimmedSpanChecked_eq {tree : Tree} {token : Token} (standing : token.Stands tree)
    (fits : tree.Fits) : token.trimmedSpanChecked = token.trimmedSpan := by
  have hstop := standing.stop_le fits
  rw [trimmedSpanChecked, Green.Token.trimmedSpanChecked_eq (by omega)]
  rfl

/-! ## The tokens at an offset -/

/-- What the search comes to in one slot, or in two that meet at the offset. -/
def Touching.gather (inSlot : Nat → Query (Touching Token)) : List Nat → Query (Touching Token)
  | [] => return .none
  | [slot] => inSlot slot
  | slot :: next :: _ => do
    let before ← inSlot slot
    let after ← inSlot next
    return before.join after

/-- The tokens below a node that hold an offset or have it at an end. -/
def Node.tokensAtChecked (node : Node) (offset : Nat) : Query (Touching Token) := do
  let span ← node.span
  if span.isEmpty || !span.touches offset then return .none
  else
    let slots ← node.green.slotsTouchingChecked (← subSize offset span.start)
    Touching.gather (fun slot =>
      match _h : node.green.slots[slot]? with
      | some (.token green) => return .one (← node.tokenAt slot green)
      | some (.node head slots) => do
        ((← node.placeNode slot ⟨head, slots⟩).withGreen ⟨head, slots⟩).tokensAtChecked offset
      | none => throw (node.green.noSlot slot)) slots
termination_by sizeOf node.green
decreasing_by
  rw [withGreen_green]
  exact sizeOf_lt_of_slot (by assumption)

section

variable {tree : Tree} {node : Node} {offset : Nat}

theorem Node.placeNode_runs (standing : node.Stands tree) (fits : tree.Fits) {slot : Nat}
    {head : Green.Head} {slots : Array Green.Element}
    (found : node.green.slots[slot]? = some (.node head slots)) {α : Type} {next next' : Node → Query α}
    (h : Query.RunsAs tree (next (node.nodeBelow slot ⟨head, slots⟩))
      (next' (node.nodeBelow slot ⟨head, slots⟩))) :
    Query.RunsAs tree (node.placeNode slot ⟨head, slots⟩ >>= next)
      (node.placeNode slot ⟨head, slots⟩ >>= next') := by
  have hplace := placeNode_answers standing fits found
  refine (Query.RunsAs.refl hplace).bind fun value hvalue => ?_
  have hanswer := hplace.unique hvalue
  cases hslot : checkSlot slot with
  | ok _ =>
    rw [hslot] at hanswer
    cases hanswer
    exact h
  | error violation =>
    rw [hslot] at hanswer
    cases hanswer

theorem Node.touchingIn_eq (node : Node) (offset : Nat) (slots : List Nat) :
    node.touchingIn offset slots = Touching.gather (node.touchingAt offset) slots := by
  match slots with
  | [] => rfl
  | [_] => rfl
  | _ :: _ :: _ => rfl

theorem Touching.gather_runs {inSlot inSlot' : Nat → Query (Touching Token)}
    (h : ∀ slot, Query.RunsAs tree (inSlot slot) (inSlot' slot)) (slots : List Nat) :
    Query.RunsAs tree (gather inSlot slots) (gather inSlot' slots) := by
  match slots with
  | [] => exact Query.RunsAs.pure _
  | [slot] => exact h slot
  | slot :: next :: _ =>
    exact (h slot).bind fun _ _ => (h next).bind fun _ _ => Query.RunsAs.pure _

/-- **The search for the tokens at an offset passes all checks.** -/
theorem Node.tokensAtChecked_runs (standing : node.Stands tree) (fits : tree.Fits)
    (offset : Nat) : Query.RunsAs tree (node.tokensAtChecked offset) (node.tokensAt offset) := by
  induction node using Node.descend with
  | step node ih =>
    have htidy := (standing.wellFormed fits).tidy
    have hstop := standing.stop_le fits
    rw [tokensAt_eq standing fits, tokensAtChecked]
    refine Query.RunsAs.check (standing.span_ok fits) ?_
    by_cases hskip : node.width = 0 ∨ offset < node.start ∨ node.start + node.width < offset
    · rw [if_pos hskip, if_pos (by simp [Span.isEmpty, Span.touches]; omega)]
      exact Query.RunsAs.pure _
    · have hstart : subSize offset node.start = .ok (offset - node.start) := if_pos (by omega)
      rw [if_neg hskip, if_neg (by simp [Span.isEmpty, Span.touches]; omega), touchingIn_eq]
      refine Query.RunsAs.check hstart ?_
      refine Query.RunsAs.check (htidy.slotsTouchingChecked_eq (by omega) _) ?_
      refine Touching.gather_runs (fun slot => ?_) _
      rw [touchingAt_eq]
      cases hfound : node.green.slots[slot]? with
      | none => exact Query.RunsAs.refl (Query.Answers.throw _)
      | some e =>
        cases e with
        | token green => exact (Query.RunsAs.lift _).bind fun _ _ => Query.RunsAs.pure _
        | node head slots =>
          have hbelow := Node.below?_of_node hfound
          exact placeNode_runs standing fits hfound (ih slot _ hbelow (standing.below? hbelow))

end

/-! ## The part that holds a stretch of text -/

/-- The part below a node, or the node itself, that holds a stretch of text. -/
def Node.coveringFromChecked (node : Node) (span : Span) : Query Element := do
  match ← node.green.slotCoveringChecked? (← span.back node.start) with
  | none => return .node node
  | some slot =>
    match _h : node.green.slots[slot]? with
    | some (.token green) => return .token (← node.tokenAt slot green)
    | some (.node head slots) => do
      ((← node.placeNode slot ⟨head, slots⟩).withGreen ⟨head, slots⟩).coveringFromChecked span
    | none => throw (node.green.noSlot slot)
termination_by sizeOf node.green
decreasing_by
  rw [withGreen_green]
  exact sizeOf_lt_of_slot (by assumption)

/-- The part that holds a stretch of the text of a node. -/
def Node.coveringChecked (node : Node) (span : Span) : Query Element := do
  let whole ← node.span
  if whole.covers span then node.coveringFromChecked span
  else throw (.spanOutsideNode span node.kind whole)

section

variable {tree : Tree} {node : Node} {span : Span}

/-- **The search goes down without a check that fails**: what it goes down into holds the text. -/
theorem Node.coveringFromChecked_runs (standing : node.Stands tree) (fits : tree.Fits)
    (hstart : node.start ≤ span.start) (hstop : span.stop ≤ node.start + node.width) :
    Query.RunsAs tree (node.coveringFromChecked span)
      (node.coveringFrom span.start span.stop) := by
  induction node using Node.descend with
  | step node ih =>
    have htidy := (standing.wellFormed fits).tidy
    have hwidth := standing.stop_le fits
    have hback : span.back node.start = .ok ⟨span.start - node.start, span.stop - node.start,
        Nat.sub_le_sub_right span.start_le_stop _⟩ := if_pos hstart
    rw [coveringFrom_eq, coveringFromChecked]
    refine Query.RunsAs.check hback ?_
    refine Query.RunsAs.check (htidy.slotCoveringChecked?_eq (by omega) _) ?_
    dsimp only
    cases hslot : node.green.slotCovering? (span.start - node.start) (span.stop - node.start) with
    | none => exact Query.RunsAs.pure _
    | some slot =>
      obtain ⟨hbefore, hafter⟩ := htidy.slotCovering?_holds hslot
      dsimp only
      cases hfound : node.green.slots[slot]? with
      | none => exact Query.RunsAs.refl (Query.Answers.throw _)
      | some e =>
        cases e with
        | token green => exact (Query.RunsAs.lift _).bind fun _ _ => Query.RunsAs.pure _
        | node head slots =>
          have hbelow := Node.below?_of_node hfound
          have hbelowStart := Node.below?_start hbelow
          have hbelowStop := (standing.below?_inside fits hbelow).2.1
          refine placeNode_runs standing fits hfound (ih slot _ hbelow (standing.below? hbelow) ?_ ?_)
          · exact Nat.le_trans (Nat.le_of_eq hbelowStart) (by omega)
          · exact Nat.le_trans (by omega) (Nat.le_of_eq hbelowStop.symm)

/-- **The search for the part that holds a stretch of text passes all checks.** -/
theorem Node.coveringChecked_runs (standing : node.Stands tree) (fits : tree.Fits) (span : Span) :
    Query.RunsAs tree (node.coveringChecked span) (node.covering span) := by
  unfold coveringChecked covering
  rw [standing.span_ok fits]
  refine (Query.RunsAs.lift _).bind fun whole hwhole => ?_
  cases (Query.Answers.lift _).unique hwhole
  by_cases hcovers : Span.covers ⟨node.start, node.start + node.width, Nat.le_add_right _ _⟩ span
  · have hinside : node.start ≤ span.start ∧ span.stop ≤ node.start + node.width := by
      simpa [Span.covers] using hcovers
    rw [if_pos hcovers, if_pos hcovers]
    exact coveringFromChecked_runs standing fits hinside.1 hinside.2
  · rw [if_neg hcovers, if_neg hcovers]
    exact Query.RunsAs.refl (Query.Answers.throw _)

end

end LosslessSyntax.Placed
