import LosslessSyntax.Proofs.Placed.Calls
import LosslessSyntax.Proofs.Placed.Checked

/-!
# Questions that have an answer

A question can ask for too much: for a slot that the node does not have, for a stretch of text that
is not in it, for notes that end beyond all texts. All others have an answer in a tree that fits and
is narrow, and they have the same one if each step of the measuring is checked.

* `Placed.HandleKind.askChecked`: asking with checks;
* **`Placed.HandleKind.askChecked_runs`**: it runs as asking does;
* `Placed.HandleKind.Proper`: questions that do not ask for too much;
* **`Placed.HandleKind.Proper.answered`**: the reference has an answer to them.
-/

namespace LosslessSyntax.Placed

/-! ## Asking with checks -/

/-- Asks a node; the searches by offset are checked. -/
def NodeQuestion.askChecked (node : Node) : NodeQuestion → Query (List (Datum Handle))
  | tokensAt offset => return dataOf ((← node.tokensAtChecked offset).toList.map .token)
  | covering stretch => return dataOf [← node.coveringChecked stretch]
  | question => question.ask node

/-- Asks a token; its stretch without trivia is checked. -/
def TokenQuestion.askChecked (token : Token) : TokenQuestion → Query (List (Datum Handle))
  | trimmedSpan => return [.span (← token.trimmedSpanChecked)]
  | question => question.ask token

/-- Asks a handle. -/
def HandleKind.askChecked :
    (kind : HandleKind) → kind.Held → kind.Question → Query (List (Datum Handle))
  | node => NodeQuestion.askChecked
  | token => TokenQuestion.askChecked
  | list => ListQuestion.ask
  | slots => Cursor.ask
  | nodes => Cursor.askNodes
  | elements => ListView.Cursor.ask
  | walk => Walk.ask

section

variable {tree : Tree}

theorem Agrees.runs {query : Query (List (Datum Handle))}
    {answer : Except Violation (List (Datum Ref))} (h : Agrees tree query answer) :
    Query.RunsAs tree query query := by
  obtain ⟨given, ⟨reply, hanswers, -⟩, -⟩ := h
  exact Query.RunsAs.refl hanswers

theorem NodeQuestion.askChecked_runs {node : Node} (standing : node.Stands tree) (fits : tree.Fits)
    (question : NodeQuestion) :
    Query.RunsAs tree (question.askChecked node) (question.ask node) := by
  have hplain := (NodeQuestion.agrees standing fits question).runs
  cases question with
  | tokensAt offset =>
    exact (Node.tokensAtChecked_runs standing fits offset).bind fun _ _ => Query.RunsAs.pure _
  | covering stretch =>
    exact (Node.coveringChecked_runs standing fits stretch).bind fun _ _ => Query.RunsAs.pure _
  | _ => exact hplain

theorem TokenQuestion.askChecked_runs {token : Token} (standing : token.Stands tree)
    (fits : tree.Fits) (question : TokenQuestion) :
    Query.RunsAs tree (question.askChecked token) (question.ask token) := by
  have hplain := (TokenQuestion.agrees standing fits question).runs
  cases question with
  | trimmedSpan =>
    unfold askChecked
    rw [Token.trimmedSpanChecked_eq standing fits]
    exact hplain
  | _ => exact hplain

/-- **Whatever a handle of a tree is asked, it answers with checks as it does without.** -/
theorem HandleKind.askChecked_runs {kind : HandleKind} {held : kind.Held}
    (h : kind.Valid tree held) (fits : tree.Fits) (question : kind.Question) :
    Query.RunsAs tree (kind.askChecked held question) (kind.ask held question) := by
  have hplain := (HandleKind.ask_agrees h fits question).runs
  cases kind with
  | node => exact NodeQuestion.askChecked_runs h fits question
  | token => exact TokenQuestion.askChecked_runs h fits question
  | list | slots | nodes | elements | walk => exact hplain

end

/-! ## Proper questions -/

/-- Questions that a node can answer: a slot has to be one of its own, a stretch of text has to lie
within it, and its notes must not end beyond the largest offset. -/
def NodeQuestion.Proper (node : Node) : NodeQuestion → Prop
  | annotations => ∀ note ∈ node.green.annotations, note.span.stop + node.start ≤ maxSize
  | slotAt slot => slot < node.arity
  | covering stretch => node.start ≤ stretch.start ∧ stretch.stop ≤ node.start + node.width
  | _ => True

/-- Questions that a list can answer: an element has to be one of its own, and the number of its
slot must be one that can be counted. -/
def ListQuestion.Proper (list : ListView) : ListQuestion → Prop
  | slotOf index => list.shape = .separated → index * 2 < ListView.slotBound
  | element index => index < list.length
  | separator index => list.shape = .separated → index * 2 < ListView.slotBound
  | _ => True

/-- Questions that a walk can answer: only the rest of a node that was entered can be skipped. -/
def WalkQuestion.Proper (walk : Walk) : WalkQuestion → Prop
  | skip => walk.inside ≠ []
  | _ => True

/-- Questions that a handle can answer. -/
def HandleKind.Proper : (kind : HandleKind) → kind.Held → kind.Question → Prop
  | node => NodeQuestion.Proper
  | token => fun _ _ => True
  | list => ListQuestion.Proper
  | slots => fun _ _ => True
  | nodes => fun _ _ => True
  | elements => fun _ _ => True
  | walk => WalkQuestion.Proper

section

variable {tree : Tree}

theorem mapM_ok {α β : Type} {f : α → Except Violation β} {row : List α}
    (h : ∀ x ∈ row, ∃ y, f x = .ok y) : ∃ ys, row.mapM f = .ok ys := by
  induction row with
  | nil => exact ⟨[], rfl⟩
  | cons x row ih =>
    obtain ⟨⟨y, hfirst⟩, hrest⟩ := List.forall_mem_cons.1 h
    obtain ⟨ys, hys⟩ := ih hrest
    refine ⟨y :: ys, ?_⟩
    rw [List.mapM_cons, hfirst, hys]
    rfl

theorem NodeQuestion.Proper.answered {node : Node} (standing : node.Stands tree)
    {question : NodeQuestion} (h : question.Proper node) :
    ∃ told, question.answer tree node.path node.green = .ok told := by
  cases question with
  | annotations =>
    obtain ⟨notes, hnotes⟩ := mapM_ok (f := fun note : Green.Annotation => do
      return { note with span := ← note.span.shift (tree.startOf node.path) }) fun note hmem => by
        have hshift : note.span.shift node.start = .ok _ := if_pos (h note hmem)
        rw [standing.startOf_eq, hshift]
        exact ⟨_, rfl⟩
    rw [answer, hnotes]
    exact ⟨_, rfl⟩
  | slotAt slot => exact ⟨_, if_pos h⟩
  | covering stretch =>
    rw [answer, standing.startOf_eq, standing.stopOf_eq]
    exact ⟨_, if_pos h⟩
  | _ => exact ⟨_, rfl⟩

theorem TokenQuestion.answered {token : Token} (standing : token.Stands tree) (fits : tree.Fits)
    (question : TokenQuestion) : ∃ told, question.answer tree token.path token.green = .ok told := by
  cases question with
  | trimmedSpan =>
    have hstop := standing.stop_le fits
    have hbound : token.green.width - token.green.trailing.length + token.start ≤ maxSize := by
      omega
    have hshift : token.green.trimmedSpan.shift token.start = .ok _ := if_pos hbound
    rw [answer, standing.startOf_eq, hshift]
    exact ⟨_, rfl⟩
  | _ => exact ⟨_, rfl⟩

theorem ListQuestion.Proper.answered {list : ListView} (valid : list.Valid tree) (fits : tree.Fits)
    {question : ListQuestion} (h : question.Proper list) :
    ∃ told, question.answer tree list.node.path list.shape = .ok told := by
  cases question with
  | slotOf index =>
    rw [answer]
    by_cases hshape : list.shape = .separated
    · rw [if_pos hshape, if_pos (h hshape)]
      exact ⟨_, rfl⟩
    · rw [if_neg hshape]
      exact ⟨_, rfl⟩
  | element index =>
    have hlength : index < list.node.nodes.length := (valid.laid fits).nodes_get.1 ▸ h
    rw [answer, valid.getElem?_nodes_path, List.getElem?_eq_getElem hlength]
    exact ⟨_, rfl⟩
  | separator index =>
    have hbound : ¬ (list.shape = .separated ∧ ListView.slotBound ≤ index * 2) :=
      fun hboth => Nat.not_lt.2 hboth.2 (h hboth.1)
    exact ⟨_, if_neg hbound⟩
  | _ => exact ⟨_, rfl⟩

theorem Walk.skip_ne (walk : Walk) (h : walk.inside ≠ []) :
    walk.skip ≠ .error .nothingToSkip := by
  intro hskip
  unfold skip at hskip
  cases hinside : walk.inside with
  | nil => exact h hinside
  | cons innermost outer =>
    rw [hinside] at hskip
    cases hskip

theorem WalkQuestion.Proper.answered {walk : Walk} (valid : walk.Valid tree)
    {question : WalkQuestion} (h : question.Proper walk) :
    ∃ told, question.answer tree (walk.left tree) = .ok told := by
  cases question with
  | skip =>
    rw [answer]
    rcases valid.skip_eq with ⟨hskip, -⟩ | ⟨rest, -, -, hleft⟩
    · exact absurd hskip (walk.skip_ne h)
    · rw [hleft]
      exact ⟨_, rfl⟩
  | _ => exact ⟨_, rfl⟩

/-- **The reference has an answer to all questions that do not ask for too much.** -/
theorem HandleKind.Proper.answered {kind : HandleKind} {held : kind.Held}
    (valid : kind.Valid tree held) (fits : tree.Fits) {question : kind.Question}
    (h : kind.Proper held question) :
    ∃ told, kind.answer tree (kind.told tree held) question = .ok told := by
  cases kind with
  | node =>
    have hnode : tree.node? (Node.path held) = some (Node.green held) := Node.Stands.node?_eq valid
    simp only [HandleKind.answer, HandleKind.told, hnode]
    exact NodeQuestion.Proper.answered valid h
  | token =>
    have htoken : tree.token? (Token.path held) = some (Token.green held) :=
      Token.Stands.token?_eq valid
    simp only [HandleKind.answer, HandleKind.told, htoken]
    exact TokenQuestion.answered valid fits question
  | list =>
    have hlist := ListView.Valid.listShape?_eq valid
    simp only [HandleKind.answer, HandleKind.told, hlist]
    exact ListQuestion.Proper.answered valid fits h
  | slots | elements =>
    cases question <;> exact ⟨_, rfl⟩
  | nodes => cases question <;> exact ⟨_, rfl⟩
  | walk => exact WalkQuestion.Proper.answered valid h

theorem Agrees.answered {query : Query (List (Datum Handle))} {told : List (Datum Ref)}
    (h : Agrees tree query (.ok told)) (narrow : tree.Narrow) {memo : Memo}
    (hmemo : tree.Keeps memo) : ∃ data memo', query memo = .ok data memo' := by
  obtain ⟨given, hsettles, -, hgiven⟩ := h
  cases given with
  | ok data =>
    obtain ⟨memo', -, -, hrun⟩ := hsettles.answers narrow memo hmemo
    exact ⟨data, memo', hrun⟩
  | error violation => cases hgiven

end

end LosslessSyntax.Placed
