import LosslessSyntax.Placed.Basic
import LosslessSyntax.Proofs.Placed.Living

/-!
# Trees side by side

A caller may put up any number of trees, over green nodes that they share or not, and hold handles of
all of them. Trees are numbered as they are put up; what was placed of them is in one memo, in which
their addresses are apart. Every move leaves there what is there, and adds at most nodes of the tree
whose handle is asked.

* `Placed.Grove`, `Placed.Grove.Move`, `Placed.Grove.after`: trees, moves, and where they lead;
* `Placed.Grove.Sound`, `Placed.Grove.Holds`: what a caller can have, and a node that it holds;
* **`Placed.Grove.Sound.step`**: a move keeps it so;
* **`Placed.Grove.step_extends`**: what a move adds to the memo;
* **`Placed.Grove.Sound.after`**, `Placed.Grove.grows_after`: any number of moves.
-/

namespace LosslessSyntax.Placed

/-- Trees, each an offset and a green root; what was placed of them; and the handles that a caller
holds. -/
structure Grove where
  trees : List (Nat × Green.Node)
  memo : Memo
  handles : List Handle

/-- The making of a green root with another part in the place of one that is held. -/
def Handle.replace? : Handle → Green.Element → Option (Green.Make Green.Node)
  | ⟨.node, node⟩, .node head slots => some (Node.replace node ⟨head, slots⟩)
  | ⟨.token, token⟩, .token green => some (Token.replace token green)
  | _, _ => none

namespace Grove

/-- A caller that has put up no tree yet. -/
def empty : Grove := ⟨[], ∅, []⟩

/-- The trees that were put up, each with its number. -/
def Has (grove : Grove) (tree : Tree) : Prop :=
  grove.trees[tree.number]? = some (tree.start, tree.green)

/-- What a caller can do: put up a tree; ask a handle, by its number, or two; and have a part replaced,
for which there are identities from `supply` on. -/
inductive Move where
  | plant (start : Nat) (green : Green.Node)
  | call (call : Call)
  | ask (handle : Nat) (kind : HandleKind) (question : Typed.Question kind)
  | replace (handle : Nat) (replacement : Green.Element) (supply : Nat)

/-- The handle that a move asks. -/
def asked? (grove : Grove) : Move → Option Handle
  | .plant _ _ => none
  | .call (.ask handle _ _) => grove.handles[handle]?
  | .call (.same _ _) => none
  | .call (.placedAt handle _) => grove.handles[handle]?
  | .call (.placedElement handle _) => grove.handles[handle]?
  | .ask handle _ _ => grove.handles[handle]?
  | .replace handle _ _ => grove.handles[handle]?

/-- The reply to a query, and what the caller has then. -/
def query (grove : Grove) (query : Query (List (Datum Handle))) :
    Except Failure (List (Datum Handle)) × Grove :=
  match query grove.memo with
  | .ok data memo => (.ok data, ⟨grove.trees, memo, grove.handles ++ handlesOf data⟩)
  | .error violation memo => (.error (.violated violation), { grove with memo })

/-- Asks a handle, if it is there and of the right kind. -/
def asking (found : Option Handle) (kind : HandleKind)
    (ask : kind.Held → Query (List (Datum Handle))) : Query (List (Datum Handle)) :=
  match found with
  | none => return []
  | some ⟨actual, held⟩ => if fitting : actual = kind then ask (fitting ▸ held) else return []

/-- The reply to a replacement. -/
def replaced (handle? : Option Handle) (replacement : Green.Element) (supply : Nat) :
    Except Failure (List (Datum Handle)) :=
  match handle?.bind (·.replace? replacement) with
  | none => .ok []
  | some make =>
    match make supply with
    | .ok root _ => .ok [.green root.toElement]
    | .error failure _ => .error failure

/-- The reply to a move, and what the caller has then. -/
def step (grove : Grove) : Move → Except Failure (List (Datum Handle)) × Grove
  | .plant start green =>
    let root : Handle := ⟨.node, Node.root grove.trees.length start green⟩
    (.ok [.handle root],
      { grove with trees := grove.trees ++ [(start, green)], handles := grove.handles ++ [root] })
  | .call call => grove.query (call.make grove.handles)
  | .ask handle kind question => grove.query (asking grove.handles[handle]? kind fun held => question.ask held)
  | .replace handle replacement supply =>
    (replaced grove.handles[handle]? replacement supply, grove)

/-- What a caller has after a series of moves. -/
def after (grove : Grove) : List Move → Grove
  | [] => grove
  | move :: moves => (grove.step move).2.after moves

theorem after_append (grove : Grove) (moves more : List Move) :
    grove.after (moves ++ more) = (grove.after moves).after more := by
  induction moves generalizing grove with
  | nil => rfl
  | cons move moves ih => exact ih _

/-- What a caller can have: of each tree that was put up the memo has only what it may have, of others
nothing, and each handle is of one of the trees. -/
structure Sound (grove : Grove) : Prop where
  trees : ∀ tree, grove.Has tree → tree.Sound grove.memo
  fresh : grove.memo.Fresh
  numbered : ∀ (address : Address) (kept : Node), grove.memo[address]? = some kept →
    address.tree < grove.trees.length
  handles : ∀ handle ∈ grove.handles, ∃ tree, grove.Has tree ∧ handle.Lives tree grove.memo

theorem sound_empty : empty.Sound where
  trees tree has := by cases has
  fresh := Memo.fresh_empty
  numbered address kept h := by simp [empty] at h
  handles handle hmem := absurd hmem List.not_mem_nil

/-- Only green nodes that are tidy at every depth are put up. -/
def Move.WellFormed : Move → Prop
  | plant _ green => green.WellFormed
  | _ => True

section

variable {grove : Grove} {tree : Tree} {move : Move}

/-! ## What a move adds to the memo -/

theorem query_pure {data : List (Datum Handle)} (hnone : handlesOf data = []) :
    (grove.query (pure data)).2 = grove := by
  change (⟨grove.trees, grove.memo, grove.handles ++ handlesOf data⟩ : Grove) = grove
  rw [hnone, List.append_nil]

theorem memo_query (grove : Grove) (query : Query (List (Datum Handle))) :
    (grove.query query).2.memo = query.leaves grove.memo := by
  unfold Grove.query Query.leaves
  cases query grove.memo <;> rfl

theorem asking_fills {memo : Memo} {found : Option Handle} {kind : HandleKind}
    {ask : kind.Held → Query (List (Datum Handle))}
    (lives : ∀ handle, found = some handle → handle.Lives tree memo)
    (fills : ∀ held, kind.Lives tree memo held →
      Query.Fills tree memo (ask held) (GivesLiving tree)) :
    Query.Fills tree memo (asking found kind ask) (GivesLiving tree) := by
  cases found with
  | none => exact Query.Fills.plain rfl
  | some handle =>
    have hlives := lives handle rfl
    obtain ⟨actual, held⟩ := handle
    unfold asking
    dsimp only
    split_ifs with hfitting
    · subst hfitting
      exact fills held hlives
    · exact Query.Fills.plain rfl

theorem make_ask_eq (handles : List Handle) (i : Nat) (kind : HandleKind) (question : kind.Question) :
    (Call.ask i kind question).make handles =
      asking handles[i]? kind fun held => kind.ask held question := by
  unfold Call.make
  dsimp only
  cases handles[i]? with
  | none => rfl
  | some handle =>
    obtain ⟨actual, held⟩ := handle
    unfold asking
    by_cases hfitting : kind = actual
    · subst hfitting
      simp
    · simp [hfitting, Ne.symm hfitting]

theorem make_placedAt_eq (handles : List Handle) (i slot : Nat) :
    (Call.placedAt i slot).make handles = asking handles[i]? .node fun node => do
      return dataOf ((← Node.placedAt? node slot).toList.map .node) := by
  unfold Call.make
  dsimp only
  cases handles[i]? with
  | none => rfl
  | some handle =>
    obtain ⟨actual, held⟩ := handle
    cases actual <;> rfl

theorem make_placedElement_eq (handles : List Handle) (i index : Nat) :
    (Call.placedElement i index).make handles = asking handles[i]? .list fun list => do
      return dataOf ((← ListView.placed? list index).toList.map .node) := by
  unfold Call.make
  dsimp only
  cases handles[i]? with
  | none => rfl
  | some handle =>
    obtain ⟨actual, held⟩ := handle
    cases actual <;> rfl

/-- **A call asks one handle**, or compares two without a query. -/
theorem make_eq (grove : Grove) (call : Call) :
    (∃ data, call.make grove.handles = pure data ∧ handlesOf data = []) ∨
    ∃ kind ask, call.make grove.handles = asking (grove.asked? (.call call)) kind ask ∧
      ∀ tree memo held, kind.Lives tree memo held →
        Query.Fills tree memo (ask held) (GivesLiving tree) := by
  cases call with
  | ask i kind question =>
    exact .inr ⟨kind, _, make_ask_eq _ i kind question, fun _ _ _ h => HandleKind.ask_fills h question⟩
  | same a b =>
    refine .inl ⟨_, rfl, ?_⟩
    cases grove.handles[a]?.bind fun x => grove.handles[b]?.bind x.same? <;> rfl
  | placedAt i slot =>
    exact .inr ⟨.node, _, make_placedAt_eq _ i slot,
      fun _ _ _ h => Query.Fills.foundNode (Node.placedAt?_fills h slot)⟩
  | placedElement i index =>
    exact .inr ⟨.list, _, make_placedElement_eq _ i index,
      fun _ _ _ h => Query.Fills.foundNode (ListView.placed?_fills h index)⟩

/-- **What a move does**: it puts up a tree, or leaves all as it is, or asks a handle. -/
theorem step_cases (grove : Grove) (move : Move) :
    (∃ start green, move = .plant start green) ∨ (grove.step move).2 = grove ∨
    ∃ handle kind ask, grove.asked? move = some handle ∧
      grove.step move = grove.query (asking (some handle) kind ask) ∧
      ∀ tree memo held, kind.Lives tree memo held →
        Query.Fills tree memo (ask held) (GivesLiving tree) := by
  have hask : ∀ {kind : HandleKind} {ask : kind.Held → Query (List (Datum Handle))},
      grove.step move = grove.query (asking (grove.asked? move) kind ask) →
      (∀ tree memo held, kind.Lives tree memo held →
        Query.Fills tree memo (ask held) (GivesLiving tree)) →
      (grove.step move).2 = grove ∨ ∃ handle kind ask, grove.asked? move = some handle ∧
        grove.step move = grove.query (asking (some handle) kind ask) ∧
        ∀ tree memo held, kind.Lives tree memo held →
          Query.Fills tree memo (ask held) (GivesLiving tree) := by
    intro kind ask hstep hfills
    cases hasked : grove.asked? move with
    | none =>
      rw [hasked] at hstep
      rw [hstep]
      exact .inl (query_pure rfl)
    | some handle =>
      rw [hasked] at hstep
      exact .inr ⟨handle, kind, ask, rfl, hstep, hfills⟩
  cases move with
  | plant start green => exact .inl ⟨start, green, rfl⟩
  | replace => exact .inr (.inl rfl)
  | ask i kind question =>
    exact .inr (hask rfl fun _ _ _ h => Typed.Question.ask_fills h question)
  | call call =>
    rcases make_eq grove call with ⟨data, hmake, hnone⟩ | ⟨kind, ask, hmake, hfills⟩
    · refine .inr (.inl ?_)
      change (grove.query (call.make grove.handles)).2 = grove
      rw [hmake]
      exact query_pure hnone
    · refine .inr (hask ?_ hfills)
      change grove.query (call.make grove.handles) = _
      rw [hmake]

/-- **What a move adds to the memo**: at most nodes of the tree whose handle is asked, each below a
node that is there. -/
theorem step_extends (sound : tree.Sound grove.memo)
    (lives : ∀ handle, grove.asked? move = some handle → handle.Lives tree grove.memo) :
    tree.Extends grove.memo (grove.step move).2.memo := by
  rcases step_cases grove move with
    ⟨start, green, rfl⟩ | hsame | ⟨handle, kind, ask, hasked, hstep, hfills⟩
  · exact Tree.Extends.refl tree grove.memo
  · rw [hsame]
    exact Tree.Extends.refl tree grove.memo
  · rw [hstep, memo_query]
    have fills := asking_fills (fun _ hsome => Option.some.inj hsome ▸ lives handle hasked)
      (hfills tree grove.memo)
    exact fills.extends_leaves sound

theorem memo_step_of_unasked (h : grove.asked? move = none) :
    (grove.step move).2.memo = grove.memo := by
  rcases step_cases grove move with ⟨start, green, rfl⟩ | hsame | ⟨handle, _, _, hasked, _⟩
  · rfl
  · rw [hsame]
  · rw [h] at hasked
    cases hasked

/-! ## What a caller can have -/

theorem mem_of_asked? {handle : Handle} (h : grove.asked? move = some handle) :
    handle ∈ grove.handles := by
  cases move with
  | plant => cases h
  | call call =>
    cases call with
    | same a b => cases h
    | ask | placedAt | placedElement => exact List.mem_of_getElem? h
  | ask | replace => exact List.mem_of_getElem? h

theorem Has.lt (h : grove.Has tree) : tree.number < grove.trees.length :=
  (List.getElem?_eq_some_iff.1 h).1

theorem Has.eq_of_number {other : Tree} (h : grove.Has tree) (hother : grove.Has other)
    (hnumber : other.number = tree.number) : other = tree := by
  have hsame : some (other.start, other.green) = some (tree.start, tree.green) := by
    rw [← h, ← hnumber]
    exact hother.symm
  obtain ⟨number, start, green⟩ := other
  obtain ⟨number', start', green'⟩ := tree
  cases hnumber
  cases hsame
  rfl

/-- A caller holds a node of one of its trees. -/
structure Holds (grove : Grove) (tree : Tree) (node : Node) : Prop where
  has : grove.Has tree
  held : ⟨.node, node⟩ ∈ grove.handles
  number : node.tree = tree.number

theorem holds_root (start : Nat) (green : Green.Node) :
    (empty.after [.plant start green]).Holds ⟨0, start, green⟩ (Tree.root ⟨0, start, green⟩) :=
  ⟨rfl, List.mem_singleton_self _, rfl⟩

namespace Sound

theorem lives (h : grove.Sound) {node : Node} (holds : grove.Holds tree node) :
    node.Lives tree grove.memo := by
  obtain ⟨other, hother, hlives⟩ := h.handles _ holds.held
  have hnumber : other.number = tree.number := hlives.standing.address_tree.symm.trans holds.number
  rwa [holds.has.eq_of_number hother hnumber] at hlives

theorem fits (h : grove.Sound) (has : grove.Has tree)
    (room : tree.start + tree.green.width ≤ maxSize) : tree.Fits :=
  ⟨(h.trees tree has).wellFormed, room⟩

theorem asked (h : grove.Sound) {handle : Handle} (hasked : grove.asked? move = some handle) :
    ∃ tree, grove.Has tree ∧ handle.Lives tree grove.memo :=
  h.handles handle (mem_of_asked? hasked)

theorem query (h : grove.Sound) (has : grove.Has tree) {query : Query (List (Datum Handle))}
    (fills : Query.Fills tree grove.memo query (GivesLiving tree)) :
    (grove.query query).2.Sound := by
  have sound := h.trees tree has
  have hquery := fills sound
  -- whatever the query comes to, the memo has grown by nodes of one tree
  have hgrown : ∀ memo handles, tree.Extends grove.memo memo →
      (∀ handle ∈ handles, ∃ tree, grove.Has tree ∧ handle.Lives tree memo) →
      Sound ⟨grove.trees, memo, handles⟩ := by
    intro memo handles hext hhandles
    refine ⟨fun other hother => ?_, hext.fresh h.fresh, fun address kept hkept => ?_, hhandles⟩
    · by_cases hnumber : other.number = tree.number
      · rw [has.eq_of_number hother hnumber]
        exact sound.extend hext
      · exact hext.sound_other hnumber (h.trees other hother)
    · cases hbefore : grove.memo[address]? with
      | some kept' => exact h.numbered address kept' hbefore
      | none =>
        rw [(hext.added address kept hkept hbefore).tree_eq]
        exact has.lt
  have hold : ∀ memo, tree.Extends grove.memo memo → ∀ handle ∈ grove.handles,
      ∃ tree, grove.Has tree ∧ handle.Lives tree memo := fun memo hext handle hmem => by
    obtain ⟨other, hother, hlives⟩ := h.handles handle hmem
    exact ⟨other, hother, hlives.mono hext.grows⟩
  unfold Grove.query
  cases hrun : query grove.memo with
  | error violation memo =>
    rw [hrun] at hquery
    exact hgrown memo _ hquery (hold memo hquery)
  | ok data memo =>
    rw [hrun] at hquery
    refine hgrown memo _ hquery.1 fun handle hmem => ?_
    rcases List.mem_append.1 hmem with hmem | hmem
    · exact hold memo hquery.1 handle hmem
    · exact ⟨tree, has, hquery.2 handle hmem⟩

theorem plant (h : grove.Sound) (start : Nat) {green : Green.Node} (wellFormed : green.WellFormed) :
    (grove.step (.plant start green)).2.Sound := by
  have hnew : ∀ tree : Tree, (grove.step (.plant start green)).2.Has tree →
      grove.Has tree ∨ tree = ⟨grove.trees.length, start, green⟩ := by
    intro tree has
    change (grove.trees ++ [(start, green)])[tree.number]? = _ at has
    rcases Nat.lt_trichotomy tree.number grove.trees.length with hlt | heq | hgt
    · rw [List.getElem?_append_left hlt] at has
      exact .inl has
    · rw [heq, List.getElem?_concat_length] at has
      obtain ⟨number, start', green'⟩ := tree
      cases has
      exact .inr (by rw [← heq])
    · rw [List.getElem?_eq_none (by simp; omega)] at has
      cases has
  have hhas : ∀ tree : Tree, grove.Has tree → (grove.step (.plant start green)).2.Has tree := by
    intro tree has
    change (grove.trees ++ [(start, green)])[tree.number]? = _
    rw [List.getElem?_append_left has.lt]
    exact has
  refine ⟨fun tree has => ?_, h.fresh, fun address kept hkept => ?_, fun handle hmem => ?_⟩
  · rcases hnew tree has with hold | rfl
    · exact h.trees tree hold
    · refine Tree.sound_of_none wellFormed h.fresh fun address htree => ?_
      cases hkept : grove.memo[address]? with
      | none => exact hkept
      | some kept => exact absurd htree (Nat.ne_of_lt (h.numbered address kept hkept))
  · have hlt := h.numbered address kept hkept
    change address.tree < (grove.trees ++ [(start, green)]).length
    rw [List.length_append]
    omega
  · rcases List.mem_append.1 hmem with hmem | hmem
    · obtain ⟨tree, has, hlives⟩ := h.handles handle hmem
      exact ⟨tree, hhas tree has, hlives⟩
    · rw [List.mem_singleton.1 hmem]
      refine ⟨⟨grove.trees.length, start, green⟩, ?_, Node.lives_root _ _⟩
      exact List.getElem?_concat_length

/-- **A move keeps it so.** -/
theorem step (h : grove.Sound) (wellFormed : move.WellFormed) : (grove.step move).2.Sound := by
  rcases step_cases grove move with
    ⟨start, green, rfl⟩ | hsame | ⟨handle, kind, ask, hasked, hstep, hfills⟩
  · exact h.plant start wellFormed
  · rw [hsame]
    exact h
  · obtain ⟨tree, has, hlives⟩ := h.asked hasked
    rw [hstep]
    refine h.query has (asking_fills (fun _ hsome => Option.some.inj hsome ▸ hlives) ?_)
    exact hfills tree grove.memo

/-- **So do any number of moves.** -/
theorem after (h : grove.Sound) {moves : List Move} (wellFormed : ∀ move ∈ moves, move.WellFormed) :
    (grove.after moves).Sound := by
  induction moves generalizing grove with
  | nil => exact h
  | cons move moves ih =>
    obtain ⟨hfirst, hrest⟩ := List.forall_mem_cons.1 wellFormed
    exact ih (h.step hfirst) hrest

end Sound

/-! ## What stays -/

theorem grows_step (h : grove.Sound) (move : Move) :
    Memo.Grows grove.memo (grove.step move).2.memo := by
  cases hasked : grove.asked? move with
  | none =>
    rw [memo_step_of_unasked hasked]
    exact Memo.Grows.refl grove.memo
  | some handle =>
    obtain ⟨tree, has, hlives⟩ := h.asked hasked
    refine (step_extends (h.trees tree has) fun other hother => ?_).grows
    rw [hasked] at hother
    exact Option.some.inj hother ▸ hlives

theorem grows_after (h : grove.Sound) {moves : List Move}
    (wellFormed : ∀ move ∈ moves, move.WellFormed) :
    Memo.Grows grove.memo (grove.after moves).memo := by
  induction moves generalizing grove with
  | nil => exact Memo.Grows.refl grove.memo
  | cons move moves ih =>
    obtain ⟨hfirst, hrest⟩ := List.forall_mem_cons.1 wellFormed
    exact (grows_step h move).trans (ih (h.step hfirst) hrest)

theorem prefix_step (grove : Grove) (move : Move) :
    grove.trees <+: (grove.step move).2.trees ∧ grove.handles <+: (grove.step move).2.handles := by
  have hquery : ∀ query, grove.trees <+: (grove.query query).2.trees ∧
      grove.handles <+: (grove.query query).2.handles := by
    intro query
    unfold Grove.query
    cases query grove.memo with
    | ok data memo => exact ⟨List.prefix_refl _, List.prefix_append _ _⟩
    | error violation memo => exact ⟨List.prefix_refl _, List.prefix_refl _⟩
  cases move with
  | plant start green => exact ⟨List.prefix_append _ _, List.prefix_append _ _⟩
  | replace => exact ⟨List.prefix_refl _, List.prefix_refl _⟩
  | call | ask => exact hquery _

theorem prefix_after (grove : Grove) (moves : List Move) :
    grove.trees <+: (grove.after moves).trees ∧ grove.handles <+: (grove.after moves).handles := by
  induction moves generalizing grove with
  | nil => exact ⟨List.prefix_refl _, List.prefix_refl _⟩
  | cons move moves ih =>
    obtain ⟨htrees, hhandles⟩ := prefix_step grove move
    obtain ⟨htrees', hhandles'⟩ := ih (grove.step move).2
    exact ⟨htrees.trans htrees', hhandles.trans hhandles'⟩

end

end Grove

end LosslessSyntax.Placed
