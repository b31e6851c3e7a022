import LosslessSyntax.Proofs.Placed.Asking
import LosslessSyntax.Proofs.Placed.ListView

/-!
# Taking from both ends

A row can be taken apart from both ends, in any order. What was taken from the front comes first, then
what is left, then what was taken from the back, the last taken first; together that is the row. Once
nothing is given nothing is left, and nothing is given from then on, from either end.

* `Placed.End`, `Placed.takenAt`: the ends, and what was taken there;
* `Placed.Dismantles`: a row that is taken apart;
* `Placed.Query.taking`: asking at one end or the other, as a plan tells;
* **`Placed.Dismantles.front`**, **`Placed.Dismantles.back`**: one answer more;
* **`Placed.Query.Chains.taking`**: who takes by a plan takes the row apart;
* **`Placed.Node.Stands.takes`**, **`Placed.Node.Stands.takesNodes`**,
  **`Placed.ListView.Valid.takes`**: the slots and the nodes of a node, and the elements of a list.
-/

namespace LosslessSyntax.Placed

/-- The two ends of a row. -/
inductive End where
  | front
  | back
  deriving DecidableEq

section

variable {α : Type}

/-- What was given at one end, in the order in which it was given. -/
def takenAt (side : End) (answers : List (End × Option α)) : List α :=
  answers.filterMap fun given => if given.1 = side then given.2 else none

/-- By a plan that tells at which end to ask, a row is taken apart but for what is left. Each question
takes one, and only if nothing is left there is no answer, then or later. -/
structure Dismantles (plan : List End) (row : List α) (answers : List (End × Option α))
    (left : List α) : Prop where
  asked : answers.map Prod.fst = plan
  whole : takenAt .front answers ++ left ++ (takenAt .back answers).reverse = row
  count : left.length = row.length - plan.length
  ended : ∀ side, (side, none) ∈ answers → left = []
  stays : answers.Pairwise fun earlier later => earlier.2 = none → later.2 = none

/-! ## Answers -/

section

variable {plan : List End} {row : List α} {answers : List (End × Option α)} {left : List α}

@[simp] theorem takenAt_nil (side : End) : takenAt side ([] : List (End × Option α)) = [] := rfl

@[simp] theorem takenAt_none (side asked : End) (answers : List (End × Option α)) :
    takenAt side ((asked, none) :: answers) = takenAt side answers := by
  simp [takenAt]

@[simp] theorem takenAt_self (side : End) (value : α) (answers : List (End × Option α)) :
    takenAt side ((side, some value) :: answers) = value :: takenAt side answers := by
  simp [takenAt]

theorem takenAt_other {side asked : End} (h : asked ≠ side) (answer : Option α)
    (answers : List (End × Option α)) :
    takenAt side ((asked, answer) :: answers) = takenAt side answers := by
  simp [takenAt, h]

theorem dismantles_nil (row : List α) : Dismantles [] row [] row :=
  ⟨rfl, by simp, rfl, nofun, .nil⟩

theorem Dismantles.all (h : Dismantles plan row answers left) (enough : row.length ≤ plan.length) :
    left = [] ∧ takenAt .front answers ++ (takenAt .back answers).reverse = row := by
  have hcount := h.count
  rw [Nat.sub_eq_zero_of_le enough] at hcount
  obtain rfl := List.eq_nil_of_length_eq_zero hcount
  have hwhole := h.whole
  rw [List.append_nil] at hwhole
  exact ⟨rfl, hwhole⟩

theorem Dismantles.none_of_nil (h : Dismantles plan [] answers left) :
    left = [] ∧ ∀ given ∈ answers, given.2 = none := by
  have hwhole := h.whole
  rw [List.append_eq_nil_iff, List.append_eq_nil_iff, List.reverse_eq_nil_iff] at hwhole
  obtain ⟨⟨hfront, hleft⟩, hback⟩ := hwhole
  refine ⟨hleft, fun ⟨side, answer⟩ hmem => ?_⟩
  cases side with
  | front => exact List.filterMap_eq_nil_iff.1 hfront _ hmem
  | back => exact List.filterMap_eq_nil_iff.1 hback _ hmem

theorem Dismantles.empty (h : Dismantles plan [] answers left) (side : End) :
    Dismantles (side :: plan) [] ((side, none) :: answers) left where
  asked := by rw [List.map_cons, h.asked]
  whole := by rw [takenAt_none, takenAt_none, h.whole]
  count := by rw [h.none_of_nil.1, List.length_nil, Nat.zero_sub]
  ended _ _ := h.none_of_nil.1
  stays := .cons (fun later hlater _ => h.none_of_nil.2 later hlater) h.stays

/-- **What is given at the front comes before all that is given afterwards.** -/
theorem Dismantles.front (h : Dismantles plan row.tail answers left) :
    Dismantles (.front :: plan) row ((.front, row.head?) :: answers) left := by
  cases row with
  | nil => exact h.empty .front
  | cons first row =>
    refine ⟨by rw [List.map_cons, h.asked], ?_, ?_, fun side hmem => ?_, .cons nofun h.stays⟩
    · rw [List.head?_cons, takenAt_self, takenAt_other (by decide), List.cons_append, List.cons_append,
        h.whole]
      rfl
    · rw [h.count, List.tail_cons, List.length_cons, List.length_cons, Nat.add_sub_add_right]
    · exact h.ended side ((List.mem_cons.1 hmem).resolve_left nofun)

/-- **What is given at the back comes after all that is given afterwards.** -/
theorem Dismantles.back (h : Dismantles plan row.dropLast answers left) :
    Dismantles (.back :: plan) row ((.back, row.getLast?) :: answers) left := by
  rcases List.eq_nil_or_concat row with rfl | ⟨row, last, rfl⟩
  · exact h.empty .back
  · rw [List.concat_eq_append, List.dropLast_concat] at h
    rw [List.concat_eq_append, List.getLast?_concat]
    refine ⟨by rw [List.map_cons, h.asked], ?_, ?_, fun side hmem => ?_, .cons nofun h.stays⟩
    · rw [takenAt_self, takenAt_other (by decide), List.reverse_cons, ← List.append_assoc, h.whole]
    · rw [h.count, List.length_append, List.length_singleton, List.length_cons,
        Nat.add_sub_add_right]
    · exact h.ended side ((List.mem_cons.1 hmem).resolve_left nofun)

end

end

/-! ## Questions -/

namespace Query

section

variable {α σ : Type}

/-- Asks at one end or the other as the plan tells, each time of the state that was left the last
time. -/
def taking (next nextBack : σ → Query (Option α × σ)) :
    List End → σ → Query (List (End × Option α) × σ)
  | [], state => return ([], state)
  | side :: plan, state => do
    let (answer, rest) ← match side with
      | .front => next state
      | .back => nextBack state
    let (answers, last) ← taking next nextBack plan rest
    return ((side, answer) :: answers, last)

/-- **Who takes by a plan takes the row apart**, if the answer at the front is the first of what is
left, and the answer at the back the last. -/
theorem Chains.taking {Has : ∀ {α : Type}, Query α → α → Prop} (chains : Chains Has)
    {next nextBack : σ → Query (Option α × σ)} {Valid : σ → Prop} {left : σ → List α}
    (front : ∀ state, Valid state → ∃ rest, Valid rest ∧ left rest = (left state).tail ∧
      Has (next state) ((left state).head?, rest))
    (back : ∀ state, Valid state → ∃ rest, Valid rest ∧ left rest = (left state).dropLast ∧
      Has (nextBack state) ((left state).getLast?, rest))
    {state : σ} (valid : Valid state) (plan : List End) :
    ∃ answers rest, Has (Query.taking next nextBack plan state) (answers, rest) ∧
      Dismantles plan (left state) answers (left rest) ∧ Valid rest := by
  induction plan generalizing state with
  | nil => exact ⟨[], state, chains.pure _, dismantles_nil _, valid⟩
  | cons side plan ih =>
    cases side with
    | front =>
      obtain ⟨rest, hrest, htail, hask⟩ := front state valid
      obtain ⟨answers, last, htaking, hdismantles, hlast⟩ := ih hrest
      rw [htail] at hdismantles
      exact ⟨_, last, chains.bind hask (chains.bind htaking (chains.pure _)), hdismantles.front,
        hlast⟩
    | back =>
      obtain ⟨rest, hrest, hinit, hask⟩ := back state valid
      obtain ⟨answers, last, htaking, hdismantles, hlast⟩ := ih hrest
      rw [hinit] at hdismantles
      exact ⟨_, last, chains.bind hask (chains.bind htaking (chains.pure _)), hdismantles.back,
        hlast⟩

end

end Query

/-! ## Cursors -/

section

variable {tree : Tree}

/-- **The slots of a node are taken apart from both ends**, and the cursor tells how many are
left. -/
theorem Node.Stands.takes {node : Node} (standing : node.Stands tree) (fits : tree.Fits)
    (plan : List End) : ∃ answers rest left,
      Query.Gives tree (Query.taking Cursor.next Cursor.nextBack plan node.cursor)
        (.ok (answers, rest)) ∧
      Dismantles plan node.children answers left ∧ rest.length = left.length := by
  obtain ⟨answers, rest, hgives, hdismantles, hrest⟩ := (Query.chains_gives tree).taking
    (fun _ h => Cursor.Valid.next_gives h fits) (fun _ h => Cursor.Valid.nextBack_gives h fits)
    (Cursor.valid_cursor standing) plan
  rw [Cursor.cursor_left] at hdismantles
  exact ⟨answers, rest, rest.left, hgives, hdismantles, hrest.length_left.symm⟩

/-- **So are its nodes**, whatever tokens stand before or after them. -/
theorem Node.Stands.takesNodes {node : Node} (standing : node.Stands tree) (fits : tree.Fits)
    (plan : List End) : ∃ answers rest left,
      Query.Gives tree (Query.taking Cursor.nextNode Cursor.nextNodeBack plan node.cursor)
        (.ok (answers, rest)) ∧
      Dismantles plan node.nodes answers left := by
  obtain ⟨answers, rest, hgives, hdismantles, -⟩ := (Query.chains_gives tree).taking
    (fun _ h => Cursor.Valid.nextNode_gives h fits)
    (fun _ h => Cursor.Valid.nextNodeBack_gives h fits) (Cursor.valid_cursor standing) plan
  rw [Cursor.cursor_nodesLeft] at hdismantles
  exact ⟨answers, rest, rest.nodesLeft, hgives, hdismantles⟩

/-- **So are the elements of a list**, and the cursor tells how many are left. -/
theorem ListView.Valid.takes {list : ListView} (h : list.Valid tree) (fits : tree.Fits)
    (plan : List End) : ∃ answers rest left,
      Query.Settles tree
        (Query.taking ListView.Cursor.next ListView.Cursor.nextBack plan list.cursor)
        (.ok (answers, rest)) ∧
      Dismantles plan list.node.nodes answers left ∧ rest.length = left.length := by
  obtain ⟨answers, rest, hgives, hdismantles, hrest⟩ := (Query.chains_settles tree).taking
    (fun _ h => ListView.Cursor.Valid.next_settles h fits)
    (fun _ h => ListView.Cursor.Valid.nextBack_settles h fits) (Cursor.valid_cursor h) plan
  rw [Cursor.cursor_left h fits] at hdismantles
  exact ⟨answers, rest, rest.left, hgives, hdismantles, (hrest.length_left fits).symm⟩

end

end LosslessSyntax.Placed
