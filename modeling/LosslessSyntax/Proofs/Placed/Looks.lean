import LosslessSyntax.Proofs.Placed.Grove

/-!
# Slots are filled once

A slot is filled by the first move that comes upon the node in it. From then on whoever asks for the
slot is given this node, and a look into the slot finds it; before that a look finds nothing. Many
moves are mere looks: they leave the memo as it is.

* **`Placed.Grove.step_slotAt`**, **`Placed.Grove.step_placedAt`**: a slot, and a look into it;
* **`Placed.Grove.Sound.again`**: a slot that was asked for before;
* `Placed.Grove.PlacedBy`, **`Placed.Grove.mem_iff_placedBy`**: what is in the memo was placed by one
  of the moves;
* `Placed.Grove.Move.looks`, **`Placed.Grove.Sound.memo_step_of_looks`**: moves that place nothing.
-/

namespace LosslessSyntax

namespace Placed

/-! ## Mere looks -/

/-- What a node knows without its slots. -/
def NodeQuestion.looks : NodeQuestion → Bool
  | kind | text | width | start | stop | span | index | arity | green | annotations => true
  | parent | ancestors | cursor | nodeCursor | walk | asList => true
  | _ => false

/-- What a token knows without the parts beside it. -/
def TokenQuestion.looks : TokenQuestion → Bool
  | kind | text | start | stop | span | trimmedSpan | index | green | parent | ancestors => true
  | _ => false

/-- What a list knows without its elements. -/
def ListQuestion.looks : ListQuestion → Bool
  | node | shape | length | isEmpty | separatorCount | endsInSeparator => true
  | slotOf _ | elementOf _ | separator _ | cursor => true
  | _ => false

/-- The length of a row. -/
def RowQuestion.looks : RowQuestion → Bool
  | length => true
  | _ => false

/-- A walk passes by what it does not meet. -/
def WalkQuestion.looks : WalkQuestion → Bool
  | skip => true
  | _ => false

/-- Questions that place nothing. -/
def HandleKind.looks : (kind : HandleKind) → kind.Question → Bool
  | node => NodeQuestion.looks
  | token => TokenQuestion.looks
  | list => ListQuestion.looks
  | slots => RowQuestion.looks
  | nodes => fun _ => false
  | elements => RowQuestion.looks
  | walk => WalkQuestion.looks

end Placed

/-- Looks at what was placed before. -/
def Typed.Question.looks {kind : Placed.HandleKind} : Typed.Question kind → Bool
  | placedChild _ _ | placed _ _ => true
  | _ => false

namespace Placed

section

variable {tree : Tree} {memo : Memo} {α : Type}

theorem Query.leaves_told (answer : Except Violation α) (f : α → List (Datum Handle)) :
    Query.leaves (do return f (← answer)) memo = memo :=
  (Query.leaves_bind_pure f _).trans (Query.leaves_lift answer)

theorem HandleKind.leaves_ask {kind : HandleKind} {held : kind.Held}
    (h : kind.Lives tree memo held) (sound : tree.Sound memo) {question : kind.Question}
    (hlooks : kind.looks question = true) : (kind.ask held question).leaves memo = memo := by
  cases kind with
  | node =>
    cases (question : NodeQuestion) with
    | stop | span | annotations => exact Query.leaves_told _ _
    | kind | text | width | start | index | arity | green => rfl
    | parent | ancestors | cursor | nodeCursor | walk | asList => rfl
    | _ => cases hlooks
  | token =>
    cases (question : TokenQuestion) with
    | stop | span | trimmedSpan => exact Query.leaves_told _ _
    | kind | text | start | index | green | parent | ancestors => rfl
    | _ => cases hlooks
  | list =>
    cases (question : ListQuestion) with
    | slotOf index => exact Query.leaves_told _ _
    | separator index =>
      exact (Query.leaves_bind_pure _ _).trans (ListView.leaves_separator? h sound index)
    | node | shape | length | isEmpty | separatorCount | endsInSeparator | elementOf | cursor => rfl
    | _ => cases hlooks
  | slots | elements =>
    cases (question : RowQuestion) with
    | length => rfl
    | _ => cases hlooks
  | nodes => cases hlooks
  | walk =>
    cases (question : WalkQuestion) with
    | skip => exact Query.leaves_told _ _
    | _ => cases hlooks

end

end Placed

theorem Typed.Question.leaves_ask {tree : Placed.Tree} {memo : Placed.Memo} {kind : Placed.HandleKind}
    {held : kind.Held} (h : kind.Lives tree memo held) (sound : tree.Sound memo)
    {question : Typed.Question kind} (hlooks : question.looks = true) :
    (question.ask held).leaves memo = memo := by
  cases question with
  | placedChild form slot =>
    exact (Placed.Query.leaves_bind_pure _ _).trans (Placed.Node.leaves_placedAt? sound h.standing slot)
  | placed form index =>
    refine (Placed.Query.leaves_bind_pure _ _).trans ?_
    exact (Placed.Query.leaves_bind_pure _ _).trans (Placed.ListView.leaves_placed? h sound index)
  | _ => cases hlooks

namespace Placed

/-- A part that a node gives without placing anything: a token within bounds, or a node that was
placed. -/
def Node.Ready (node : Node) (slot : Nat) (memo : Memo) : Element → Prop
  | .token _ => ∃ start, node.offsetBelow slot = .ok start
  | .node below => below.address ∈ memo

theorem Node.Ready.mono {node : Node} {slot : Nat} {memo memo' : Memo} {part : Element}
    (h : node.Ready slot memo part) (hgrows : Memo.Grows memo memo') :
    node.Ready slot memo' part := by
  cases part with
  | token token => exact h
  | node below => exact hgrows.mem h

namespace Grove

/-- Moves that place nothing. -/
def Move.looks : Move → Bool
  | plant _ _ => true
  | call (.ask _ kind question) => kind.looks question
  | call (.same _ _) => true
  | call (.placedAt _ _) => true
  | call (.placedElement _ _) => true
  | ask _ _ question => question.looks
  | replace _ _ _ => true

section

variable {grove : Grove} {tree : Tree} {move : Move}

theorem leaves_asking {memo : Memo} {found : Option Handle} {kind : HandleKind}
    {ask : kind.Held → Query (List (Datum Handle))}
    (h : ∀ held, found = some ⟨kind, held⟩ → (ask held).leaves memo = memo) :
    (asking found kind ask).leaves memo = memo := by
  cases found with
  | none => rfl
  | some handle =>
    obtain ⟨actual, held⟩ := handle
    unfold asking
    dsimp only
    split_ifs with hfitting
    · subst hfitting
      exact h held rfl
    · rfl

/-- **A mere look places nothing.** -/
theorem Sound.memo_step_of_looks (h : grove.Sound) (hlooks : move.looks = true) :
    (grove.step move).2.memo = grove.memo := by
  -- whatever handle is asked, what it is asked leaves the memo as it is
  have hasking : ∀ {i : Nat} {kind : HandleKind} {ask : kind.Held → Query (List (Datum Handle))},
      (∀ tree held, tree.Sound grove.memo → kind.Lives tree grove.memo held →
        (ask held).leaves grove.memo = grove.memo) →
      (grove.query (asking grove.handles[i]? kind ask)).2.memo = grove.memo := by
    intro i kind ask hask
    rw [memo_query]
    refine leaves_asking fun held hheld => ?_
    obtain ⟨tree, has, hlives⟩ := h.handles _ (List.mem_of_getElem? hheld)
    exact hask tree held (h.trees tree has) hlives
  cases move with
  | plant | replace => rfl
  | ask i kind question =>
    exact hasking fun tree held sound hlives => Typed.Question.leaves_ask hlives sound hlooks
  | call call =>
    cases call with
    | same => rfl
    | ask i kind question =>
      change (grove.query (Call.make grove.handles (.ask i kind question))).2.memo = _
      rw [make_ask_eq]
      exact hasking fun tree held sound hlives => HandleKind.leaves_ask hlives sound hlooks
    | placedAt i slot =>
      change (grove.query (Call.make grove.handles (.placedAt i slot))).2.memo = _
      rw [make_placedAt_eq]
      exact hasking fun tree held sound hlives =>
        (Query.leaves_bind_pure _ _).trans (Node.leaves_placedAt? sound hlives.standing slot)
    | placedElement i index =>
      change (grove.query (Call.make grove.handles (.placedElement i index))).2.memo = _
      rw [make_placedElement_eq]
      exact hasking fun tree held sound hlives =>
        (Query.leaves_bind_pure _ _).trans (ListView.leaves_placed? hlives sound index)

end

/-! ## Slots -/

/-- A caller asks a handle for what is in a slot. -/
def Move.slotAt (i slot : Nat) : Move := .call (.ask i .node (.slotAt slot))

/-- A caller looks through a handle into a slot. -/
def Move.placedAt (i slot : Nat) : Move := .call (.placedAt i slot)

/-- What a caller has when it was given a part. -/
def given (grove : Grove) (part : Element) (memo : Memo) :
    Except Failure (List (Datum Handle)) × Grove :=
  (.ok (dataOf [part]), ⟨grove.trees, memo, grove.handles ++ [.part part]⟩)

/-- What a caller has when it was told of a violation. -/
def refused (grove : Grove) (violation : Violation) :
    Except Failure (List (Datum Handle)) × Grove :=
  (.error (.violated violation), grove)

section

variable {grove : Grove} {tree : Tree} {node : Node} {i slot : Nat} {moves more : List Move}

theorem query_bind_pure {α : Type} (query : Query α) (f : α → List (Datum Handle)) :
    grove.query (query >>= fun value => pure (f value)) = match query grove.memo with
      | .ok value memo => (.ok (f value), ⟨grove.trees, memo, grove.handles ++ handlesOf (f value)⟩)
      | .error violation memo => (.error (.violated violation), { grove with memo }) := by
  change Grove.query grove (EStateM.bind query _) = _
  unfold Grove.query EStateM.bind
  cases query grove.memo <;> rfl

/-- **A caller is given what is in a slot**; a node in it is then placed, and nothing else is. -/
theorem step_slotAt (sound : tree.Sound grove.memo) (standing : node.Stands tree)
    (hheld : grove.handles[i]? = some ⟨.node, node⟩) :
    grove.step (.slotAt i slot) = match node.below? slot with
      | none => grove.refused (node.green.noSlot slot)
      | some (.token token) =>
        match node.offsetBelow slot with
        | .ok _ => grove.given (.token token) grove.memo
        | .error violation => grove.refused violation
      | some (.node below) =>
        match node.fill slot below.green grove.memo with
        | .ok memo => grove.given (.node below) memo
        | .error violation => grove.refused violation := by
  have hmake := make_ask_eq grove.handles i .node (NodeQuestion.slotAt slot)
  rw [hheld] at hmake
  refine (congrArg grove.query hmake).trans ?_
  refine (query_bind_pure (node.slotAt slot) fun part => dataOf [part]).trans ?_
  rw [Node.slotAt_run sound standing]
  cases node.below? slot with
  | none => rfl
  | some below =>
    cases below with
    | token token => cases node.offsetBelow slot <;> rfl
    | node below =>
      dsimp only
      cases node.fill slot below.green grove.memo <;> rfl

/-- **A look finds the node in a slot if it was placed.** -/
theorem step_placedAt (sound : tree.Sound grove.memo) (standing : node.Stands tree)
    (hheld : grove.handles[i]? = some ⟨.node, node⟩) :
    grove.step (.placedAt i slot) = match node.below? slot with
      | none => grove.refused (node.green.noSlot slot)
      | some (.token _) => (.ok [], grove)
      | some (.node below) =>
        if below.address ∈ grove.memo then grove.given (.node below) grove.memo
        else (.ok [], grove) := by
  have hmake := make_placedAt_eq grove.handles i slot
  rw [hheld] at hmake
  refine (congrArg grove.query hmake).trans ?_
  refine (query_bind_pure (node.placedAt? slot) fun found => dataOf (found.toList.map .node)).trans ?_
  rw [Node.placedAt?_eq sound standing]
  have hnothing : (⟨grove.trees, grove.memo, grove.handles ++ []⟩ : Grove) = grove := by
    rw [List.append_nil]
  cases node.below? slot with
  | none => rfl
  | some below =>
    cases below with
    | token token => exact congrArg (Prod.mk (Except.ok [])) hnothing
    | node below =>
      dsimp only
      split_ifs
      · rfl
      · exact congrArg (Prod.mk (Except.ok [])) hnothing

/-! ## Slots that were asked for before -/

theorem step_slotAt_of_ready (sound : tree.Sound grove.memo) (standing : node.Stands tree)
    (hheld : grove.handles[i]? = some ⟨.node, node⟩) {part : Element}
    (hbelow : node.below? slot = some part) (hready : node.Ready slot grove.memo part) :
    grove.step (.slotAt i slot) = grove.given part grove.memo := by
  rw [step_slotAt sound standing hheld, hbelow]
  cases part with
  | token token =>
    obtain ⟨start, hstart⟩ := hready
    dsimp only
    rw [hstart]
  | node below =>
    have hmem : node.address.child slot ∈ grove.memo := Node.below?_address hbelow ▸ hready
    dsimp only
    rw [Node.fill_of_mem hmem]

theorem ready_of_step_slotAt (sound : tree.Sound grove.memo) (standing : node.Stands tree)
    (hheld : grove.handles[i]? = some ⟨.node, node⟩) {data : List (Datum Handle)}
    (hgiven : (grove.step (.slotAt i slot)).1 = .ok data) :
    ∃ part, node.below? slot = some part ∧ data = dataOf [part] ∧
      node.Ready slot (grove.step (.slotAt i slot)).2.memo part := by
  rw [step_slotAt sound standing hheld] at hgiven ⊢
  cases hbelow : node.below? slot with
  | none =>
    rw [hbelow] at hgiven
    cases hgiven
  | some part =>
    rw [hbelow] at hgiven
    refine ⟨part, rfl, ?_⟩
    cases part with
    | token token =>
      dsimp only at hgiven ⊢
      cases hoffset : node.offsetBelow slot with
      | error violation =>
        rw [hoffset] at hgiven
        cases hgiven
      | ok start =>
        rw [hoffset] at hgiven
        exact ⟨(Except.ok.inj hgiven).symm, start, hoffset⟩
    | node below =>
      dsimp only at hgiven ⊢
      cases hfill : node.fill slot below.green grove.memo with
      | error violation =>
        rw [hfill] at hgiven
        cases hgiven
      | ok memo =>
        rw [hfill] at hgiven
        refine ⟨(Except.ok.inj hgiven).symm, ?_⟩
        change below.address ∈ memo
        rw [Node.below?_address hbelow]
        exact (Node.getElem?_fill hfill).1

theorem Sound.eq_of_same (h : grove.Sound) {other : Node}
    (hnode : ⟨.node, node⟩ ∈ grove.handles) (hother : ⟨.node, other⟩ ∈ grove.handles)
    (hsame : node.same other = true) : node = other := by
  obtain ⟨tree, has, standing, -⟩ := h.handles _ hnode
  obtain ⟨tree', has', standing', -⟩ := h.handles _ hother
  have haddress : node.address = other.address := beq_iff_eq.1 hsame
  have hnumber : tree'.number = tree.number := by
    rw [← standing.address_tree, ← standing'.address_tree, haddress]
  rw [has.eq_of_number has' hnumber] at standing'
  exact standing.eq_of_path standing' ((standing.address_eq_iff standing').1 haddress)

/-- **A slot is given as it was given before**, whoever asks, and nothing more is placed. -/
theorem Sound.again (h : grove.Sound) {data : List (Datum Handle)}
    (hheld : grove.handles[i]? = some ⟨.node, node⟩)
    (hgiven : (grove.step (.slotAt i slot)).1 = .ok data)
    (wellFormed : ∀ move ∈ more, move.WellFormed) {j : Nat} {other : Node}
    (hother : ((grove.step (.slotAt i slot)).2.after more).handles[j]? = some ⟨.node, other⟩)
    (hsame : node.same other = true) :
    (((grove.step (.slotAt i slot)).2.after more).step (.slotAt j slot)).1 = .ok data ∧
    (((grove.step (.slotAt i slot)).2.after more).step (.slotAt j slot)).2.memo =
      ((grove.step (.slotAt i slot)).2.after more).memo := by
  obtain ⟨tree, has, standing, -⟩ := h.handles _ (List.mem_of_getElem? hheld)
  obtain ⟨part, hbelow, rfl, hready⟩ :=
    ready_of_step_slotAt (h.trees tree has) standing hheld hgiven
  have hnext : (grove.step (.slotAt i slot)).2.Sound := h.step trivial
  have hlater := hnext.after wellFormed
  have hgrows := grows_after hnext wellFormed
  have hlonger := (prefix_step grove (.slotAt i slot)).2.trans (prefix_after _ more).2
  generalize (grove.step (.slotAt i slot)).2.after more = later at hother hlater hgrows hlonger ⊢
  have hnode := hlonger.subset (List.mem_of_getElem? hheld)
  obtain rfl := hlater.eq_of_same hnode (List.mem_of_getElem? hother) hsame
  obtain ⟨tree', has', standing', -⟩ := hlater.handles _ hnode
  rw [step_slotAt_of_ready (hlater.trees tree' has') standing' hother hbelow (hready.mono hgrows)]
  exact ⟨rfl, rfl⟩

/-! ## Who has placed a node -/

/-- One of the moves has placed the node with an address: it was not there before, and it was there
after it. -/
def PlacedBy (moves : List Move) (address : Address) : Prop :=
  ∃ before move rest, moves = before ++ move :: rest ∧ address ∉ (empty.after before).memo ∧
    address ∈ (empty.after (before ++ [move])).memo

/-- **What is there was placed by one of the moves**, and what was placed is there. -/
theorem mem_iff_placedBy (wellFormed : ∀ move ∈ moves, move.WellFormed) {address : Address} :
    address ∈ (empty.after moves).memo ↔ PlacedBy moves address := by
  constructor
  · clear wellFormed
    induction moves using List.reverseRecOn with
    | nil => exact fun h => absurd h (Memo.not_mem_empty address)
    | append_singleton moves move ih =>
      intro hmem
      by_cases hbefore : address ∈ (empty.after moves).memo
      · obtain ⟨before, first, rest, rfl, hnone, hsome⟩ := ih hbefore
        exact ⟨before, first, rest ++ [move], by simp, hnone, hsome⟩
      · exact ⟨moves, move, [], rfl, hbefore, hmem⟩
  · rintro ⟨before, move, rest, rfl, -, hmem⟩
    have hsplit : before ++ move :: rest = (before ++ [move]) ++ rest := by simp
    rw [hsplit] at wellFormed ⊢
    rw [after_append]
    have hfirst := sound_empty.after fun m hm => wellFormed m (List.mem_append_left rest hm)
    exact (grows_after hfirst fun m hm => wellFormed m (List.mem_append_right _ hm)).mem hmem

end

end Grove

end Placed

end LosslessSyntax
