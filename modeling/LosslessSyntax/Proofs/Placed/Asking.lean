import LosslessSyntax.Proofs.Placed.Answer

/-!
# Asking again and again

A question that leaves a state can be asked again of that state. If each time it is answered with the
first of a row, and leaves a state that stands for the others, then the answers are the row, and
nothing from there on.

* `Placed.Query.GivesFrom`, `Placed.Query.SettlesFrom`: a query and its value, from a memo;
* `Placed.Query.asking`: the first answers of a question that is asked again and again;
* `Placed.Query.Chains`: what is known of answers and goes on from query to query;
* **`Placed.Query.Chains.asking`**, `Placed.Query.Chains.asking_row`: the answers are the row;
* `Placed.Query.Chains.findSomeM?`: the first answer in a row of queries.
-/

namespace LosslessSyntax.Placed.Query

section

variable {α : Type} {tree : Tree} {memo : Memo} {query : Query α} {value : α}

/-- From a memo, a query gives a value; it can fail only where there are more slots than can be
numbered. -/
def GivesFrom (tree : Tree) (memo : Memo) (query : Query α) (value : α) : Prop :=
  ∃ memo', query memo = .ok value memo' ∨
    ¬ tree.Narrow ∧ query memo = .error .slotTooLarge memo'

/-- The same if it may fail in any way there. -/
def SettlesFrom (tree : Tree) (memo : Memo) (query : Query α) (value : α) : Prop :=
  ∃ memo', query memo = .ok value memo' ∨
    ¬ tree.Narrow ∧ ∃ violation, query memo = .error violation memo'

theorem Gives.givesFrom (h : Gives tree query (.ok value)) (hmemo : tree.Keeps memo) :
    GivesFrom tree memo query value := h.run hmemo

theorem Settles.settlesFrom (h : Settles tree query (.ok value)) (hmemo : tree.Keeps memo) :
    SettlesFrom tree memo query value := by
  obtain ⟨given, hanswers, hgiven⟩ := h
  obtain ⟨memo', -, -, hrun⟩ := hanswers memo hmemo
  refine ⟨memo', ?_⟩
  rcases hgiven with rfl | ⟨⟨violation, rfl⟩, hwide⟩
  · exact .inl hrun
  · exact .inr ⟨hwide, violation, hrun⟩

theorem GivesFrom.run (h : GivesFrom tree memo query value) (narrow : tree.Narrow) :
    ∃ memo', query memo = .ok value memo' := by
  obtain ⟨memo', hrun | ⟨hwide, -⟩⟩ := h
  · exact ⟨memo', hrun⟩
  · exact absurd narrow hwide

theorem SettlesFrom.run (h : SettlesFrom tree memo query value) (narrow : tree.Narrow) :
    ∃ memo', query memo = .ok value memo' := by
  obtain ⟨memo', hrun | ⟨hwide, -⟩⟩ := h
  · exact ⟨memo', hrun⟩
  · exact absurd narrow hwide

end

/-- The first answers of a question that is asked again and again, each time of the state that it left
the last time. -/
def asking {α σ : Type} (ask : σ → Query (Option α × σ)) : Nat → σ → Query (List (Option α))
  | 0, _ => return []
  | count + 1, state => do
    let (answer, rest) ← ask state
    return answer :: (← asking ask count rest)

/-- What is known of answers and goes on from query to query. -/
structure Chains (Has : ∀ {α : Type}, Query α → α → Prop) : Prop where
  pure : ∀ {α : Type} (value : α), Has (Pure.pure value) value
  bind : ∀ {α β : Type} {query : Query α} {next : α → Query β} {value : α} {last : β},
    Has query value → Has (next value) last → Has (query >>= next) last

theorem chains_gives (tree : Tree) : Chains fun query value => Gives tree query (.ok value) where
  pure := Gives.pure
  bind := Gives.bind_ok

theorem chains_settles (tree : Tree) : Chains fun query value => Settles tree query (.ok value) where
  pure := Settles.pure
  bind := Settles.bind_ok

/-- **Who asks again and again reads a row**, if each answer is the first of what is left of it. -/
theorem Chains.asking {Has : ∀ {α : Type}, Query α → α → Prop} (chains : Chains Has)
    {α β σ : Type} {ask : σ → Query (Option α × σ)} {Left : σ → List β → Prop} {Good : α → Prop}
    {look : α → β}
    (step : ∀ state row, Left state row → ∃ answer rest, Has (ask state) (answer, rest) ∧
      answer.map look = row.head? ∧ (∀ value, answer = some value → Good value) ∧
      Left rest row.tail)
    {state : σ} {row : List β} (left : Left state row) (count : Nat) :
    ∃ answers, Has (asking ask count state) answers ∧
      answers.map (Option.map look) = (List.range count).map (row[·]?) ∧
      ∀ value, some value ∈ answers → Good value := by
  induction count generalizing state row with
  | zero => exact ⟨[], chains.pure [], rfl, fun _ h => absurd h List.not_mem_nil⟩
  | succ count ih =>
    obtain ⟨answer, rest, hask, hfirst, hgood, hrest⟩ := step state row left
    obtain ⟨answers, hanswers, hrow, hall⟩ := ih hrest
    refine ⟨answer :: answers, chains.bind hask (chains.bind hanswers (chains.pure _)), ?_, ?_⟩
    · rw [List.map_cons, hfirst, hrow, List.range_succ_eq_map, List.map_cons, List.map_map,
        List.head?_eq_getElem?]
      refine congrArg _ (List.map_congr_left fun i _ => ?_)
      cases row <;> rfl
    · rintro value hvalue
      rcases List.mem_cons.1 hvalue with h | h
      · exact hgood value h.symm
      · exact hall value h

theorem Chains.asking_row {Has : ∀ {α : Type}, Query α → α → Prop} (chains : Chains Has)
    {α σ : Type} {ask : σ → Query (Option α × σ)} {Left : σ → List α → Prop}
    (step : ∀ state row, Left state row → ∃ rest, Has (ask state) (row.head?, rest) ∧
      Left rest row.tail)
    {state : σ} {row : List α} (left : Left state row) (count : Nat) :
    Has (Query.asking ask count state) ((List.range count).map (row[·]?)) := by
  have told : ∀ state row, Left state row → ∃ answer rest, Has (ask state) (answer, rest) ∧
      answer.map (fun value => value) = row.head? ∧ (∀ value, answer = some value → True) ∧
      Left rest row.tail := fun state row h => by
    obtain ⟨rest, hask, hrest⟩ := step state row h
    exact ⟨row.head?, rest, hask, by simp, fun _ _ => trivial, hrest⟩
  obtain ⟨answers, hanswers, hrow, -⟩ := chains.asking told left count
  have hsame : answers = (List.range count).map (row[·]?) := by simpa using hrow
  exact hsame ▸ hanswers

theorem Chains.findSomeM? {Has : ∀ {α : Type}, Query α → α → Prop}
    (chains : Chains Has) {α β : Type} {ask : α → Query (Option β)} {answer : α → Option β}
    {row : List α} (h : ∀ x ∈ row, Has (ask x) (answer x)) :
    Has (row.findSomeM? ask) (row.findSome? answer) := by
  induction row with
  | nil => exact chains.pure none
  | cons x row ih =>
    obtain ⟨hfirst, hrest⟩ := List.forall_mem_cons.1 h
    rw [List.findSomeM?_cons]
    refine chains.bind hfirst ?_
    rw [List.findSome?_cons]
    cases answer x with
    | some found => exact chains.pure _
    | none => exact ih hrest

end LosslessSyntax.Placed.Query
