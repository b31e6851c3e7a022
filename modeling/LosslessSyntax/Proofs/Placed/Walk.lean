import LosslessSyntax.Placed.Walk
import LosslessSyntax.Proofs.Placed.Paths

/-!
# What is left of a walk

A walk is what is left of the row of its visits. Each step takes the first of them; to skip the rest
of a node is to go on to the first leaving of a node that was entered before.

* `Visit.skip`, `Green.Element.skip_visits`: what is left after the rest of the innermost node was
  skipped;
* `Placed.Walk.left`: what is left of a walk;
* **`Placed.Walk.Valid.next_takes`**, **`Placed.Walk.Valid.nextOfNode_takes`**: the steps of a walk;
* **`Placed.Walk.Valid.skip_eq`**: skipping;
* `Placed.Walk.Runs`, `Placed.Walk.Runs.unique`: a walk to its end, from a memo, and that there is
  only one way;
* **`Placed.Walk.Valid.runs`**: what is met on the way is the row of visits that was left at first;
* `Placed.Node.foldBelow_gives`, `Placed.Node.descendants_gives`: all nodes below a node.
-/

namespace LosslessSyntax

namespace Visit

/-- What is left of a walk when the rest of the innermost node is skipped, if there is one; `depth`
nodes were entered meanwhile, and are left before it. -/
def skip : Nat → List Visit → Option (List Visit)
  | _, [] => none
  | depth, enter _ :: rest => skip (depth + 1) rest
  | depth, token _ :: rest => skip depth rest
  | 0, leave path :: rest => some (leave path :: rest)
  | depth + 1, leave _ :: rest => skip depth rest

/-- Whether a token is met. -/
def isToken (visit : Visit) : Bool := visit.token?.isSome

theorem exists_token_of_isToken {visit : Visit} (h : visit.isToken = true) :
    ∃ path, visit = token path := by
  cases visit with
  | enter path => cases h
  | leave path => cases h
  | token path => exact ⟨path, rfl⟩

end Visit

namespace Green.Element

mutual

theorem skip_visits (e : Element) (path : List Nat) (depth : Nat) (rest : List Visit) :
    Visit.skip depth (e.visits path ++ rest) = Visit.skip depth rest := by
  match e with
  | .token t =>
    rw [visits]
    rfl
  | .node head ⟨slots⟩ =>
    rw [visits_row, List.append_assoc, List.cons_append]
    change Visit.skip (depth + 1) (visitsRow path 0 slots ++ .leave path :: rest) = _
    rw [skip_visitsRow slots]
    rfl

theorem skip_visitsRow (row : List Element) (path : List Nat) (slot depth : Nat)
    (rest : List Visit) :
    Visit.skip depth (visitsRow path slot row ++ rest) = Visit.skip depth rest := by
  match row with
  | [] => rfl
  | e :: row => rw [visitsRow_cons, List.append_assoc, skip_visits e, skip_visitsRow row]

end

end Green.Element

namespace Placed

namespace Walk

/-- What an event is, told by paths. -/
def Event.visit : Event → Visit
  | .enter n => .enter n.path
  | .leave n => .leave n.path
  | .token t => .token t.path

/-- The part that an event is about. -/
def Event.part : Event → Element
  | .enter n => .node n
  | .leave n => .node n
  | .token t => .token t

/-- What is left of the nodes that were entered. -/
def leftInside (tree : Tree) (inside : List (Node × Cursor)) : List Visit :=
  inside.flatMap fun (node, cursor) =>
    (cursor.left.flatMap fun below => tree.visits below.path) ++ [.leave node.path]

/-- What is left of a walk. -/
def left (tree : Tree) (walk : Walk) : List Visit :=
  leftInside tree walk.inside ++ walk.start.elim [] fun node => tree.visits node.path

/-- Nodes of the tree, each with a cursor over its slots. -/
inductive Entered (tree : Tree) : List (Node × Cursor) → Prop
  | nil : Entered tree []
  | cons {node : Node} {cursor : Cursor} {outer : List (Node × Cursor)} (standing : node.Stands tree)
      (valid : Cursor.Valid tree cursor) (before : Entered tree outer) :
      Entered tree ((node, cursor) :: outer)

theorem Entered.innermost {tree : Tree} {node : Node} {cursor : Cursor}
    {outer : List (Node × Cursor)} (h : Entered tree ((node, cursor) :: outer)) :
    node.Stands tree ∧ Cursor.Valid tree cursor ∧ Entered tree outer := by
  cases h with
  | cons standing valid before => exact ⟨standing, valid, before⟩

/-- A walk through nodes of the tree. -/
structure Valid (tree : Tree) (walk : Walk) : Prop where
  start : ∀ node, walk.start = some node → node.Stands tree ∧ walk.inside = []
  inside : Entered tree walk.inside

variable {tree : Tree} {walk : Walk}

theorem valid_walk {node : Node} (standing : node.Stands tree) : Valid tree node.walk where
  start _ h := ⟨Option.some.inj h ▸ standing, rfl⟩
  inside := .nil

theorem walk_left (node : Node) : left tree node.walk = tree.visits node.path := rfl

theorem leftInside_cons (node : Node) (cursor : Cursor) (outer : List (Node × Cursor)) :
    leftInside tree ((node, cursor) :: outer) =
      (cursor.left.flatMap fun below => tree.visits below.path) ++
        .leave node.path :: leftInside tree outer := by
  rw [leftInside, List.flatMap_cons, List.append_assoc]
  rfl

theorem Valid.left_cons {start : Option Node} {node : Node} {cursor : Cursor}
    {outer : List (Node × Cursor)} (h : Valid tree ⟨start, (node, cursor) :: outer⟩) :
    start = none ∧ left tree ⟨start, (node, cursor) :: outer⟩ =
      (cursor.left.flatMap fun below => tree.visits below.path) ++
        .leave node.path :: leftInside tree outer := by
  cases start with
  | some first => exact absurd (h.start first rfl).2 (List.cons_ne_nil _ _)
  | none =>
    refine ⟨rfl, ?_⟩
    rw [left, leftInside_cons]
    exact List.append_nil _

theorem Valid.of_inside {inside : List (Node × Cursor)}
    (h : Entered tree inside) : Valid tree ⟨none, inside⟩ :=
  ⟨fun _ hstart => absurd hstart.symm (Option.some_ne_none _), h⟩

theorem left_none (inside : List (Node × Cursor)) :
    left tree ⟨none, inside⟩ = leftInside tree inside := List.append_nil _

/-! ## Steps -/

/-- A query takes the first event of a row, and leaves a walk with the others. -/
structure Takes (tree : Tree) (query : Query (Option Event × Walk)) (row : List Visit)
    (event : Option Event) (rest : Walk) : Prop where
  valid : Valid tree rest
  standing : ∀ e, some e = event → e.part.Stands tree
  first : event.map Event.visit = row.head?
  left_eq : left tree rest = row.tail
  gives : Query.Gives tree query (.ok (event, rest))

/-- **The next event is the first of those that are left.** -/
theorem Valid.next_takes (h : Valid tree walk) (fits : tree.Fits) :
    ∃ event rest, Takes tree walk.next (left tree walk) event rest := by
  obtain ⟨start, inside⟩ := walk
  cases inside with
  | nil =>
    cases start with
    | none => exact ⟨none, ⟨none, []⟩, h, by simp, rfl, rfl, Query.Gives.pure _⟩
    | some node =>
      obtain ⟨standing, -⟩ := h.start node rfl
      have hcursor := Cursor.valid_cursor standing
      have hleft : left tree ⟨some node, []⟩ = tree.visits node.path := rfl
      rw [hleft, standing.visits_eq]
      refine ⟨some (.enter node), ⟨none, [(node, node.cursor)]⟩,
        Valid.of_inside (.cons standing hcursor .nil), ?_, rfl, ?_, Query.Gives.pure _⟩
      · rintro _ ⟨⟩
        exact standing
      · rw [left_none, leftInside_cons, Cursor.cursor_left]
        rfl
  | cons innermost outer =>
    obtain ⟨node, cursor⟩ := innermost
    obtain ⟨rfl, hleft⟩ := h.left_cons
    obtain ⟨standing, hvalid, houter⟩ := h.inside.innermost
    obtain ⟨cursor', hvalid', hrest, hnext⟩ := hvalid.next_gives fits
    have hinside : Entered tree ((node, cursor') :: outer) := .cons standing hvalid' houter
    rw [hleft]
    unfold Walk.next
    cases hrow : cursor.left with
    | nil =>
      rw [hrow] at hnext
      refine ⟨some (.leave node), ⟨none, outer⟩, Valid.of_inside houter, ?_, rfl, left_none outer,
        Query.Gives.bind_ok hnext (Query.Gives.pure _)⟩
      rintro _ ⟨⟩
      exact standing
    | cons below rest =>
      have hbelow : below.Stands tree := hvalid.of_mem_left (hrow ▸ List.mem_cons_self)
      rw [hrow] at hnext hrest
      rw [List.flatMap_cons]
      cases below with
      | token token =>
        refine ⟨some (.token token), ⟨none, (node, cursor') :: outer⟩, Valid.of_inside hinside, ?_,
          ?_, ?_, Query.Gives.bind_ok hnext (Query.Gives.pure _)⟩
        · rintro _ ⟨⟩
          exact hbelow
        · rw [Element.path, Token.Stands.visits_eq hbelow]
          rfl
        · rw [left_none, leftInside_cons, hrest, Element.path, Token.Stands.visits_eq hbelow]
          rfl
      | node child =>
        have hchild : Entered tree ((child, child.cursor) :: (node, cursor') :: outer) :=
          .cons hbelow (Cursor.valid_cursor hbelow) hinside
        refine ⟨some (.enter child), ⟨none, (child, child.cursor) :: (node, cursor') :: outer⟩,
          Valid.of_inside hchild, ?_, ?_, ?_, Query.Gives.bind_ok hnext (Query.Gives.pure _)⟩
        · rintro _ ⟨⟩
          exact hbelow
        · rw [Element.path, Node.Stands.visits_eq hbelow]
          rfl
        · rw [left_none, leftInside_cons, leftInside_cons, hrest, Cursor.cursor_left, Element.path,
            Node.Stands.visits_eq hbelow]
          simp

/-! ## Skipping -/

theorem skip_visits {element : Element} (standing : element.Stands tree) (depth : Nat)
    (rest : List Visit) :
    Visit.skip depth (tree.visits element.path ++ rest) = Visit.skip depth rest := by
  rw [Tree.visits, standing.part?_eq]
  exact element.green.skip_visits _ _ _

theorem skip_row {row : List Element} (standing : ∀ below ∈ row, below.Stands tree) (depth : Nat)
    (rest : List Visit) : Visit.skip depth ((row.flatMap fun below => tree.visits below.path) ++ rest) =
      Visit.skip depth rest := by
  induction row with
  | nil => rfl
  | cons below row ih =>
    obtain ⟨hbelow, hrow⟩ := List.forall_mem_cons.1 standing
    rw [List.flatMap_cons, List.append_assoc, skip_visits hbelow, ih hrow]

/-- **To skip is to go on to the leaving of the innermost node.** -/
theorem Valid.skip_eq (h : Valid tree walk) :
    (walk.skip = .error .nothingToSkip ∧ Visit.skip 0 (left tree walk) = none) ∨
    ∃ walk' : Walk, walk.skip = .ok walk' ∧ walk'.Valid tree ∧
      Visit.skip 0 (left tree walk) = some (left tree walk') := by
  obtain ⟨start, inside⟩ := walk
  cases inside with
  | nil =>
    refine .inl ⟨rfl, ?_⟩
    cases start with
    | none => rfl
    | some node =>
      have hnode : (Element.node node).Stands tree := (h.start node rfl).1
      have hskip := skip_visits hnode 0 []
      rw [List.append_nil] at hskip
      exact hskip
  | cons innermost outer =>
    obtain ⟨node, cursor⟩ := innermost
    obtain ⟨rfl, hleft⟩ := h.left_cons
    obtain ⟨standing, hvalid, houter⟩ := h.inside.innermost
    have hclose : Cursor.Valid tree cursor.close :=
      ⟨hvalid.standing, Nat.le_refl _, hvalid.back_le⟩
    have hnone : cursor.close.left = [] := by
      rw [Cursor.left, Cursor.length, Cursor.close, Nat.sub_self]
      rfl
    refine .inr ⟨⟨none, (node, cursor.close) :: outer⟩, rfl,
      Valid.of_inside (.cons standing hclose houter), ?_⟩
    have hrow := skip_row fun below hmem => hvalid.of_mem_left hmem
    rw [hleft, hrow, left_none, leftInside_cons, hnone]
    rfl

/-! ## Walks over nodes -/

theorem Valid.passTokens_takes (fits : tree.Fits) {count : Nat} (h : Valid tree walk)
    (hcount : ((left tree walk).takeWhile Visit.isToken).length ≤ count) :
    ∃ event rest, Takes tree (passTokens count walk) ((left tree walk).dropWhile Visit.isToken)
      event rest := by
  induction count generalizing walk with
  | zero =>
    have hnone : (left tree walk).takeWhile Visit.isToken = [] :=
      List.eq_nil_of_length_eq_zero (Nat.le_zero.1 hcount)
    have hdrop : (left tree walk).dropWhile Visit.isToken = left tree walk := by
      have hsplit := List.takeWhile_append_dropWhile (p := Visit.isToken) (l := left tree walk)
      rwa [hnone, List.nil_append] at hsplit
    rw [hdrop]
    exact h.next_takes fits
  | succ count ih =>
    obtain ⟨event, walk', htakes⟩ := h.next_takes fits
    have hgives := htakes.gives
    have hevent := htakes.first
    have hleft := htakes.left_eq
    unfold passTokens
    cases hrow : left tree walk with
    | nil =>
      rw [hrow] at hevent hleft
      cases Option.map_eq_none_iff.1 hevent
      exact ⟨none, walk', htakes.valid, htakes.standing, rfl, hleft,
        hgives.bind_ok (Query.Gives.pure _)⟩
    | cons visit visits =>
      rw [hrow] at hevent hleft hcount
      obtain ⟨e, rfl, rfl⟩ := Option.map_eq_some_iff.1 hevent
      cases e with
      | token t =>
        have hrest : left tree walk' = visits := hleft
        rw [List.takeWhile_cons_of_pos rfl, List.length_cons, ← hrest] at hcount
        rw [List.dropWhile_cons_of_pos rfl, ← hrest]
        obtain ⟨found, last, hlast⟩ := ih htakes.valid (Nat.le_of_succ_le_succ hcount)
        exact ⟨found, last, { hlast with gives := hgives.bind_ok hlast.gives }⟩
      | enter n =>
        exact ⟨_, walk', htakes.valid, htakes.standing, rfl, hleft,
          hgives.bind_ok (Query.Gives.pure _)⟩
      | leave n =>
        exact ⟨_, walk', htakes.valid, htakes.standing, rfl, hleft,
          hgives.bind_ok (Query.Gives.pure _)⟩

theorem length_takeWhile_row {row : List Element} (standing : ∀ below ∈ row, below.Stands tree)
    (path : List Nat) (rest : List Visit) :
    (((row.flatMap fun below => tree.visits below.path) ++ Visit.leave path :: rest).takeWhile
      Visit.isToken).length ≤ row.length := by
  induction row with
  | nil => exact Nat.le_refl 0
  | cons below row ih =>
    obtain ⟨hbelow, hrow⟩ := List.forall_mem_cons.1 standing
    rw [List.flatMap_cons]
    cases below with
    | token t =>
      rw [Element.path, Token.Stands.visits_eq hbelow]
      exact Nat.succ_le_succ (ih hrow)
    | node n =>
      rw [Element.path, Node.Stands.visits_eq hbelow]
      exact Nat.zero_le _

/-- **The next event of a node is the first one left that is no token.** -/
theorem Valid.nextOfNode_takes (h : Valid tree walk) (fits : tree.Fits) :
    ∃ event rest, Takes tree walk.nextOfNode ((left tree walk).dropWhile Visit.isToken)
      event rest := by
  refine h.passTokens_takes fits ?_
  obtain ⟨start, inside⟩ := walk
  cases inside with
  | nil =>
    cases start with
    | none => exact Nat.le_refl 0
    | some node =>
      have hleft : left tree ⟨some node, []⟩ = tree.visits node.path := rfl
      rw [hleft, (h.start node rfl).1.visits_eq]
      exact Nat.le_refl 0
  | cons innermost outer =>
    obtain ⟨node, cursor⟩ := innermost
    obtain ⟨rfl, hleft⟩ := h.left_cons
    obtain ⟨-, hvalid, -⟩ := h.inside.innermost
    rw [hleft]
    change _ ≤ cursor.length
    rw [← hvalid.length_left]
    exact length_takeWhile_row (fun below hmem => hvalid.of_mem_left hmem) _ _

end Walk

/-! ## Everything below a node -/

section

variable {tree : Tree} {node : Node}

theorem Node.foldBelow_eq {σ : Type} (step : Nat → σ → Element → Query σ) (depth : Nat)
    (node : Node) (slot : Nat) (state : σ) : node.foldBelow step depth slot state =
      (match node.green.slots[slot]? with
      | none => return state
      | some (.token green) => do
        let state ← step depth state (.token (← node.tokenAt slot green))
        foldBelow step depth node (slot + 1) state
      | some (.node head slots) => do
        let below := (← node.placeNode slot ⟨head, slots⟩).withGreen ⟨head, slots⟩
        let state ← step depth state (.node below)
        let state ← foldBelow step (depth + 1) below 0 state
        foldBelow step depth node (slot + 1) state) := by
  rw [foldBelow.eq_def]
  cases node.green.slots[slot]? with
  | none => rfl
  | some e => cases e <;> rfl

/-- A fold over what is below a node goes through its parts from the left. -/
theorem Node.foldBelow_gives {σ : Type} {step : Nat → σ → Element → Query σ} {f : σ → Element → σ}
    (hstep : ∀ depth state element, step depth state element = pure (f state element))
    (standing : node.Stands tree) (fits : tree.Fits) (depth slot : Nat) (state : σ) :
    Query.Gives tree (node.foldBelow step depth slot state)
      (.ok ((node.partsFrom slot).foldl f state)) := by
  induction node using Node.descend generalizing depth slot state with
  | step node ih =>
    induction hcount : node.arity - slot generalizing slot state with
    | zero =>
      have hnone : node.arity ≤ slot := Nat.le_of_sub_eq_zero hcount
      have hfound : node.green.slots[slot]? = none := Array.getElem?_eq_none hnone
      rw [foldBelow_eq, hfound, partsFrom_none hnone]
      exact Query.Gives.pure _
    | succ count ihslot =>
      have hslot : slot < node.arity := by omega
      obtain ⟨e, hfound⟩ : ∃ e, node.green.slots[slot]? = some e :=
        ⟨_, Array.getElem?_eq_getElem hslot⟩
      rw [foldBelow_eq, hfound, partsFrom_next hslot, List.foldl_append, partsIn]
      cases e with
      | token green =>
        rw [below?_of_token hfound]
        refine (tokenAt_gives standing fits hfound).bind_ok ?_
        rw [hstep]
        exact (Query.Gives.pure _).bind_ok (ihslot (slot + 1) _ (by omega))
      | node head slots =>
        have hbelow := below?_of_node hfound
        rw [hbelow]
        refine (placeNode_gives standing fits hfound).bind_ok ?_
        dsimp only
        rw [hstep]
        have hinside := ih slot _ hbelow (standing.below? hbelow) (depth + 1) 0
          (f state (.node (node.nodeBelow slot ⟨head, slots⟩)))
        exact (Query.Gives.pure _).bind_ok
          (Query.Gives.bind_ok hinside (ihslot (slot + 1) _ (by omega)))

/-- The nodes found so far, the last one first, and one more if it is a node. -/
def addNode (found : List Node) : Element → List Node
  | .node below => below :: found
  | .token _ => found

theorem reverse_foldl_addNode (row : List Element) (found : List Node) :
    (row.foldl addNode found).reverse = found.reverse ++ row.filterMap Element.node? := by
  induction row generalizing found with
  | nil => exact (List.append_nil _).symm
  | cons element row ih =>
    rw [List.foldl_cons, ih]
    cases element with
    | token t => rfl
    | node n =>
      rw [addNode, List.reverse_cons, List.append_assoc]
      rfl

/-- **The nodes below a node, itself first.** -/
theorem Node.descendants_gives (standing : node.Stands tree) (fits : tree.Fits) :
    Query.Gives tree node.descendants (.ok ((Element.node node).parts.filterMap Element.node?)) := by
  have hrow : (node.parts.foldl addNode [node]).reverse =
      (Element.node node).parts.filterMap Element.node? := reverse_foldl_addNode _ _
  rw [← hrow]
  refine Query.Gives.bind_ok (Node.foldBelow_gives ?_ standing fits 1 0 [node]) (Query.Gives.pure _)
  intro depth state element
  cases element <;> rfl

end

end Placed

end LosslessSyntax

/-! ## Walks to their end -/

namespace LosslessSyntax.Placed.Walk

/-- A walk from a memo to its end: the events that it meets, and whether it got there; a query that
fails ends the walk. -/
inductive Runs : Walk → Memo → List Event → Except Violation Unit → Prop
  | done {walk rest : Walk} {memo memo' : Memo} (next : walk.next memo = .ok (none, rest) memo') :
      Runs walk memo [] (.ok ())
  | failed {walk : Walk} {memo memo' : Memo} {violation : Violation}
      (next : walk.next memo = .error violation memo') : Runs walk memo [] (.error violation)
  | step {walk rest : Walk} {memo memo' : Memo} {event : Event} {events : List Event}
      {outcome : Except Violation Unit} (next : walk.next memo = .ok (some event, rest) memo')
      (later : Runs rest memo' events outcome) : Runs walk memo (event :: events) outcome

theorem Runs.unique {walk : Walk} {memo : Memo} {events events' : List Event}
    {outcome outcome' : Except Violation Unit} (h : Runs walk memo events outcome)
    (h' : Runs walk memo events' outcome') : events = events' ∧ outcome = outcome' := by
  induction h generalizing events' with
  | done next =>
    cases h' with
    | done next' => exact ⟨rfl, rfl⟩
    | failed next' => rw [next] at next'; cases next'
    | step next' later' => rw [next] at next'; cases next'
  | failed next =>
    cases h' with
    | done next' => rw [next] at next'; cases next'
    | failed next' => rw [next] at next'; cases next'; exact ⟨rfl, rfl⟩
    | step next' later' => rw [next] at next'; cases next'
  | step next later ih =>
    cases h' with
    | done next' => rw [next] at next'; cases next'
    | failed next' => rw [next] at next'; cases next'
    | step next' later' =>
      rw [next] at next'
      cases next'
      obtain ⟨rfl, houtcome⟩ := ih later'
      exact ⟨rfl, houtcome⟩

/-- **A walk meets all that is left of it**; it can fail only where there are more slots than can be
numbered. -/
theorem Valid.runs {tree : Tree} (fits : tree.Fits) {walk : Walk} (h : walk.Valid tree) {memo : Memo}
    (hmemo : tree.Keeps memo) : ∃ events outcome, Runs walk memo events outcome ∧
      (∀ event ∈ events, event.part.Stands tree) ∧
      (outcome = .ok () ∧ events.map Event.visit = left tree walk ∨
        outcome = .error .slotTooLarge ∧ ¬ tree.Narrow) := by
  -- a step takes the first visit away, so the induction is on what is left
  induction hrow : left tree walk generalizing walk memo with
  | nil =>
    obtain ⟨event, rest, htakes⟩ := h.next_takes fits
    have hfirst := htakes.first
    obtain ⟨given, hanswers, hgiven⟩ := htakes.gives
    obtain ⟨memo', -, -, hrun⟩ := hanswers memo hmemo
    rw [hrow] at hfirst
    cases Option.map_eq_none_iff.1 hfirst
    rcases hgiven with rfl | ⟨rfl, hwide⟩
    · exact ⟨[], _, .done hrun, by simp, .inl ⟨rfl, rfl⟩⟩
    · exact ⟨[], _, .failed hrun, by simp, .inr ⟨rfl, hwide⟩⟩
  | cons visit visits ih =>
    obtain ⟨event, rest, htakes⟩ := h.next_takes fits
    have hfirst := htakes.first
    have hleft := htakes.left_eq
    obtain ⟨given, hanswers, hgiven⟩ := htakes.gives
    obtain ⟨memo', -, hkeeps, hrun⟩ := hanswers memo hmemo
    rw [hrow] at hfirst hleft
    obtain ⟨e, rfl, rfl⟩ := Option.map_eq_some_iff.1 hfirst
    rcases hgiven with rfl | ⟨rfl, hwide⟩
    · obtain ⟨events, outcome, hruns, hstanding, houtcome⟩ := ih htakes.valid hkeeps hleft
      refine ⟨e :: events, outcome, .step hrun hruns,
        List.forall_mem_cons.2 ⟨htakes.standing e rfl, hstanding⟩, ?_⟩
      refine houtcome.imp_left fun ⟨hdone, hevents⟩ => ⟨hdone, ?_⟩
      rw [List.map_cons, hevents]
    · exact ⟨[], _, .failed hrun, by simp, .inr ⟨rfl, hwide⟩⟩

end LosslessSyntax.Placed.Walk
