import LosslessSyntax.Proofs.Facade
import LosslessSyntax.Proofs.Lists
import LosslessSyntax.Proofs.Placed.Looks
import LosslessSyntax.Proofs.Placed.Trail

/-!
# Placing in all sessions

Whatever trees a caller puts up, over green nodes that they share or not, and whatever it asks of them:
nodes are placed from the top, each slot is filled once and stays as it is, and what is asked of one
tree leaves the others alone. A search by offset places what it goes through, and nothing else.

* `Placed.Grove.Closed`, `Placed.Grove.FillsOnly`, `Placed.Grove.FindsPlaced`, `Placed.Grove.Apart`:
  what holds of the memo, of a slot, of a look into it, and of the other trees;
* **`Session.placing_monotone`**: they hold wherever a series of moves leads;
* **`Session.searches_place_their_way`**: the searches in a node that a caller holds.
-/

namespace LosslessSyntax

namespace Placed.Grove

/-- What was placed is closed under the nodes above: whatever the memo keeps is a node of one of the
trees, kept in its own slot, and the node above it was placed; and so was the node of each handle. -/
structure Closed (grove : Grove) : Prop where
  memo : ∀ (address : Address) (kept : Node), grove.memo[address]? = some kept → ∃ tree parent,
    grove.Has tree ∧ kept.Lives tree grove.memo ∧ kept.address = address ∧
    kept.parent? = some parent ∧ parent.Lives tree grove.memo
  handles : ∀ handle ∈ grove.handles, ∃ tree, grove.Has tree ∧ handle.Lives tree grove.memo

/-- Asking for a slot fills it if it holds a node, and no other slot. The node is placed unless its
offset or its slot is out of bounds; just then it is not given. -/
def FillsOnly (grove : Grove) (i : Nat) (node : Node) (slot : Nat) : Prop :=
  let (reply, next) := grove.step (.slotAt i slot)
  match node.below? slot with
  | some (.node below) =>
    (next.memo[node.address.child slot]? = some below ↔ below.start ≤ maxSize ∧ slot ≤ maxSlot) ∧
    (next.memo[node.address.child slot]? = some below ↔ reply = .ok (dataOf [.node below])) ∧
    ∀ address, address ≠ node.address.child slot → next.memo[address]? = grove.memo[address]?
  | some (.token _) => next.memo = grove.memo
  | none => next.memo = grove.memo

/-- A look into a slot finds the node in it just if one of the moves has placed it. Who asks for the
slot is then given this node, and nothing is placed. -/
def FindsPlaced (moves : List Move) (i : Nat) (node : Node) (slot : Nat) : Prop :=
  let grove := empty.after moves
  match node.below? slot with
  | some (.node below) =>
    (PlacedBy moves (node.address.child slot) →
      (grove.step (.placedAt i slot)).1 = .ok (dataOf [.node below]) ∧
      grove.step (.slotAt i slot) = grove.given (.node below) grove.memo) ∧
    (¬ PlacedBy moves (node.address.child slot) → (grove.step (.placedAt i slot)).1 = .ok [])
  | some (.token _) => (grove.step (.placedAt i slot)).1 = .ok []
  | none => (grove.step (.placedAt i slot)).1 = .error (.violated (node.green.noSlot slot))

/-- A move that asks no handle places nothing; one that asks a handle places nothing of a tree that
the handle is not of. -/
def Apart (grove : Grove) (move : Move) : Prop :=
  match grove.asked? move with
  | none => (grove.step move).2.memo = grove.memo
  | some handle => ∃ tree, grove.Has tree ∧ handle.Lives tree grove.memo ∧
    ∀ address : Address, address.tree ≠ tree.number →
      (grove.step move).2.memo[address]? = grove.memo[address]?

section

variable {grove : Grove} {node : Node} {i slot : Nat} {moves : List Move}

theorem Sound.closed (h : grove.Sound) : grove.Closed := by
  refine ⟨fun address kept hkept => ?_, h.handles⟩
  -- the address has a number of a tree that was put up
  obtain ⟨⟨start, green⟩, hget⟩ : ∃ entry, grove.trees[address.tree]? = some entry :=
    ⟨_, List.getElem?_eq_getElem (h.numbered address kept hkept)⟩
  have has : grove.Has ⟨address.tree, start, green⟩ := hget
  obtain ⟨hstands, haddress, parent, hparent, hlives⟩ :=
    ((h.trees _ has).entries address kept hkept rfl).stands
  refine ⟨_, parent, has, ⟨hstands, .inr ?_⟩, haddress, hparent, hlives⟩
  rw [haddress]
  exact Memo.mem_iff.2 ⟨kept, hkept⟩

theorem Sound.fillsOnly (h : grove.Sound) (hheld : grove.handles[i]? = some ⟨.node, node⟩)
    (slot : Nat) : grove.FillsOnly i node slot := by
  obtain ⟨tree, has, standing, -⟩ := h.handles _ (List.mem_of_getElem? hheld)
  have sound := h.trees tree has
  unfold FillsOnly
  rw [step_slotAt sound standing hheld]
  cases hbelow : node.below? slot with
  | none => rfl
  | some part =>
    cases part with
    | token token =>
      dsimp only
      cases node.offsetBelow slot <;> rfl
    | node below =>
      have hfound := Node.below?_green hbelow
      have hbounds := Node.fill_ok_iff sound standing hfound below.green
      rw [← (Node.below?_start hbelow : below.start = _)] at hbounds
      dsimp only
      cases hfill : node.fill slot below.green grove.memo with
      | ok memo =>
        obtain ⟨-, hother⟩ := Node.getElem?_fill hfill
        have hkept := Node.getElem?_fill_self sound standing hbelow hfill
        exact ⟨iff_of_true hkept (hbounds.1 ⟨memo, hfill⟩), iff_of_true hkept rfl, hother⟩
      | error violation =>
        have hbefore : grove.memo[node.address.child slot]? ≠ some below := fun hkept => by
          rw [Node.fill_of_mem (Memo.mem_iff.2 ⟨below, hkept⟩)] at hfill
          cases hfill
        refine ⟨iff_of_false hbefore fun hin => ?_, iff_of_false hbefore nofun, fun _ _ => rfl⟩
        obtain ⟨memo, hok⟩ := hbounds.2 hin
        rw [hfill] at hok
        cases hok

theorem findsPlaced (wellFormed : ∀ move ∈ moves, move.WellFormed)
    (hheld : (empty.after moves).handles[i]? = some ⟨.node, node⟩) (slot : Nat) :
    FindsPlaced moves i node slot := by
  have h := sound_empty.after wellFormed
  obtain ⟨tree, has, standing, -⟩ := h.handles _ (List.mem_of_getElem? hheld)
  have sound := h.trees tree has
  unfold FindsPlaced
  simp only [← mem_iff_placedBy wellFormed]
  rw [step_placedAt sound standing hheld]
  cases hbelow : node.below? slot with
  | none => rfl
  | some part =>
    cases part with
    | token token => rfl
    | node below =>
      rw [← Node.below?_address hbelow]
      refine ⟨fun hmem => ⟨?_, step_slotAt_of_ready sound standing hheld hbelow hmem⟩, fun hnone => ?_⟩
      · simp only [if_pos hmem, given]
      · simp only [if_neg hnone]

theorem Sound.apart (h : grove.Sound) (move : Move) : grove.Apart move := by
  unfold Apart
  cases hasked : grove.asked? move with
  | none => exact memo_step_of_unasked hasked
  | some handle =>
    obtain ⟨tree, has, hlives⟩ := h.asked hasked
    have hext := step_extends (h.trees tree has) fun other hother =>
      Option.some.inj (hasked.symm.trans hother) ▸ hlives
    exact ⟨tree, has, hlives, fun address hother => hext.other hother⟩

end

end Placed.Grove

namespace Session

open Placed

/-- Only green nodes that a caller has made are put up. -/
def Plants (s : Session) (moves : List Grove.Move) : Prop :=
  ∀ start green, .plant start green ∈ moves → green.toElement ∈ s.parts

theorem Plants.wellFormed {s : Session} {moves : List Grove.Move} (h : s.Plants moves)
    (reached : s.Reachable) : ∀ move ∈ moves, move.WellFormed := by
  obtain ⟨parts, hstock⟩ := reached.exists_stock
  intro move hmem
  cases move with
  | plant start green => exact hstock.stock.wellFormed (hstock.held _ (h start green hmem))
  | call | ask | replace => trivial

theorem Plants.single {s : Session} {green : Green.Node} (held : green.toElement ∈ s.parts)
    (start : Nat) : s.Plants [.plant start green] := by
  intro start' green' hmem
  cases List.mem_singleton.1 hmem
  exact held

theorem Plants.single_call {s : Session} {green : Green.Node} (held : green.toElement ∈ s.parts)
    (start : Nat) (call : Call) : s.Plants [.plant start green, .call call] := by
  intro start' green' hmem
  refine Plants.single held start start' green' ?_
  exact (List.mem_cons.1 hmem).elim (· ▸ List.mem_cons_self) fun h => nomatch List.mem_singleton.1 h

/-- **Placing only goes forward.** Wherever a series of moves leads, what was placed is closed under
the nodes above, and stays as it is whatever comes after. Asking for a slot fills just this slot, if
it holds a node; a handle that was given for a slot is given again, whoever asks for the slot later.
A look finds a node just if one of the moves has placed it. Moves that are mere looks place nothing,
and no move changes what was placed of a tree that is not asked. -/
theorem placing_monotone {s : Session} (reached : s.Reachable) {moves : List Grove.Move}
    (planted : s.Plants moves) :
    let grove := Grove.empty.after moves
    grove.Closed ∧
    (∀ more, s.Plants more → Memo.Grows grove.memo (grove.after more).memo) ∧
    (∀ i node slot, grove.handles[i]? = some ⟨.node, node⟩ →
      grove.FillsOnly i node slot ∧ Grove.FindsPlaced moves i node slot ∧
      ∀ data, (grove.step (.slotAt i slot)).1 = .ok data → ∀ more, s.Plants more →
        let later := (grove.step (.slotAt i slot)).2.after more
        ∀ j other, later.handles[j]? = some ⟨.node, other⟩ → node.same other = true →
          (later.step (.slotAt j slot)).1 = .ok data ∧
          (later.step (.slotAt j slot)).2.memo = later.memo) ∧
    ∀ move, grove.Apart move ∧ (move.looks = true → (grove.step move).2.memo = grove.memo) := by
  have wellFormed := planted.wellFormed reached
  have h := Grove.sound_empty.after wellFormed
  refine ⟨h.closed, fun more hmore => Grove.grows_after h (hmore.wellFormed reached), ?_,
    fun move => ⟨h.apart move, h.memo_step_of_looks⟩⟩
  intro i node slot hheld
  refine ⟨h.fillsOnly hheld slot, Grove.findsPlaced wellFormed hheld slot, ?_⟩
  intro data hgiven more hmore later j other hother hsame
  exact h.again hheld hgiven (hmore.wellFormed reached) hother hsame

/-- A name. -/
def total : Green.Token := ⟨0, .name, .none, "total", .none, by decide, by decide, by decide⟩

/-- A reference to it. -/
def totalRef : Green.Node := ⟨⟨1, .nameRef, .plain, 5, #[0], none⟩, #[.token total]⟩

/-- A statement that is the reference. -/
def statement : Green.Node := ⟨⟨2, .exprStmt, .plain, 5, #[0], none⟩, #[totalRef.toElement]⟩

theorem statement_reachable : ∃ s : Session, s.Reachable ∧ statement.toElement ∈ s.parts := by
  have h1 := Reachable.step .start (.token .none .name "total" .none)
  have href : ∀ e ∈ totalRef.slots, e ∈ [Green.Element.token total] := by simp [totalRef]
  have h2 : Reachable ⟨2, [totalRef.toElement, .token total], [], []⟩ :=
    .step h1 (.node (.plain .nameRef totalRef.slots href))
  have hslots : ∀ e ∈ statement.slots, e ∈ [totalRef.toElement, .token total] := by
    simp [statement]
  have h3 : Reachable ⟨3, [statement.toElement, totalRef.toElement, .token total], [], []⟩ :=
    .step h2 (.node (.plain .exprStmt statement.slots hslots))
  exact ⟨_, h3, List.mem_cons_self⟩

/-- Of two trees over one statement the first is asked for the name; then a look finds it there, and
finds nothing in the second tree. -/
theorem placing_monotone_statement : ∃ s : Session, s.Reachable ∧ statement.toElement ∈ s.parts ∧
    ∃ name : Node,
      let grove := Grove.empty.after ([.plant 0 statement, .plant 5 statement] ++ [.slotAt 0 0])
      (grove.step (.placedAt 0 0)).1 = .ok (dataOf [.node name]) ∧
      (grove.step (.placedAt 1 0)).1 = .ok [] := by
  obtain ⟨s, reached, held⟩ := statement_reachable
  have hplants : s.Plants [.plant 0 statement, .plant 5 statement] := by
    intro start green hmem
    simp only [List.mem_cons, Grove.Move.plant.injEq, List.not_mem_nil, or_false] at hmem
    rcases hmem with ⟨-, rfl⟩ | ⟨-, rfl⟩ <;> exact held
  have hasks : s.Plants ([.plant 0 statement, .plant 5 statement] ++ [.slotAt 0 0]) := by
    intro start green hmem
    rcases List.mem_append.1 hmem with hmem | hmem
    · exact hplants start green hmem
    · cases List.mem_singleton.1 hmem
  let first : Node := .root 0 0 statement
  let second : Node := .root 1 5 statement
  let name (root : Node) : Node := root.nodeBelow 0 totalRef
  have hfirst : first.below? 0 = some (.node (name first)) := rfl
  have hsecond : second.below? 0 = some (.node (name second)) := rfl
  -- the name of the first tree is placed, and that of the second is not
  let asked : List Grove.Move := [.plant 0 statement, .plant 5 statement] ++ [.slotAt 0 0]
  obtain ⟨-, -, hslots, -⟩ := placing_monotone reached hplants
  have hfills := (hslots 0 first 0 rfl).1
  unfold Grove.FillsOnly at hfills
  rw [hfirst] at hfills
  obtain ⟨hbounds, -, hothers⟩ := hfills
  have hplaced : (name first).address ∈ (Grove.empty.after asked).memo :=
    Memo.mem_iff.2 ⟨name first, hbounds.2 ⟨by decide, by decide⟩⟩
  have hnone : (name second).address ∉ (Grove.empty.after asked).memo := by
    intro hmem
    obtain ⟨kept, hkept⟩ := Memo.mem_iff.1 hmem
    have hne : (name second).address ≠ (name first).address := fun h =>
      Nat.one_ne_zero (congrArg Address.tree h)
    have hbefore := (hothers _ hne).symm.trans hkept
    exact absurd hbefore (by simp [Grove.after, Grove.step, Grove.empty])
  -- so looks find the one and not the other
  obtain ⟨rest, hrest⟩ :=
    (Grove.prefix_step (Grove.empty.after [.plant 0 statement, .plant 5 statement]) (.slotAt 0 0)).2
  have hheld : (Grove.empty.after asked).handles[0]? = some ⟨.node, first⟩ :=
    (congrArg (·[0]?) hrest).symm
  have hheldToo : (Grove.empty.after asked).handles[1]? = some ⟨.node, second⟩ :=
    (congrArg (·[1]?) hrest).symm
  obtain ⟨-, -, hlooks, -⟩ := placing_monotone reached hasks
  have hfinds := (hlooks 0 first 0 hheld).2.1
  have hmisses := (hlooks 1 second 0 hheldToo).2.1
  unfold Grove.FindsPlaced at hfinds hmisses
  rw [hfirst] at hfinds
  rw [hsecond] at hmisses
  have hplacedBy := @Grove.mem_iff_placedBy asked (hasks.wellFormed reached)
  exact ⟨s, reached, held, name first, (hfinds.1 (hplacedBy.1 hplaced)).1,
    hmisses.2 (hplacedBy.not.1 hnone)⟩

end Session

end LosslessSyntax

/-! ## What searches leave behind -/

namespace LosslessSyntax.Session

open Placed

/-- **Searches place just what is on their way.** Wherever a series of moves leads: the search for an
offset places the nodes with text below the node that touch it, so none if the offset is outside; and
the search for a stretch of text within the node places the nodes from this node down to the part that
it finds. All else stays as it is. They can fail only where there are more slots than can be
numbered. -/
theorem searches_place_their_way {s : Session} (reached : s.Reachable) {moves : List Grove.Move}
    (planted : s.Plants moves) {tree : Tree} {node : Node}
    (holds : (Grove.empty.after moves).Holds tree node)
    (room : tree.start + tree.green.width ≤ maxSize) :
    let memo := (Grove.empty.after moves).memo
    (∀ offset,
      ((∃ found memo', node.tokensAt offset memo = .ok found memo' ∧
          Memo.Gains memo memo' (node.TouchedBelow offset)) ∨
        ¬ tree.Narrow ∧ ∃ memo', node.tokensAt offset memo = .error .slotTooLarge memo') ∧
      (offset < node.start ∨ node.start + node.width < offset →
        node.tokensAt offset memo = .ok .none memo)) ∧
    ∃ whole, node.span = .ok whole ∧ ∀ span, whole.covers span = true →
      (∃ element memo', node.covering span memo = .ok element memo' ∧
          Memo.Gains memo memo' (node.OnWay element)) ∨
        ¬ tree.Narrow ∧ ∃ memo', node.covering span memo = .error .slotTooLarge memo' := by
  intro memo
  have h := Grove.sound_empty.after (planted.wellFormed reached)
  have sound : tree.Sound memo := h.trees tree holds.has
  have lives : node.Lives tree memo := h.lives holds
  have fits := h.fits holds.has room
  have standing := lives.standing
  refine ⟨fun offset => ⟨?_, fun houtside => ?_⟩, _, standing.span_ok fits, fun span hcovers => ?_⟩
  · obtain ⟨found, hgives, -⟩ := node.tokensAt_gives standing fits offset
    refine (hgives.run_fills (Node.tokensAt_gains lives fits offset) sound).imp_left ?_
    exact fun hfound => ⟨found, hfound⟩
  · rw [Node.tokensAt_eq standing fits, if_pos (.inr houtside)]
    rfl
  · have hinside : node.start ≤ span.start ∧ span.stop ≤ node.start + node.width := by
      simpa [Span.covers] using hcovers
    have hcovering := node.covering_gives standing fits span
    rw [if_pos hinside] at hcovering
    obtain ⟨element, -, hgives⟩ := hcovering
    refine (hgives.run_fills (Node.covering_gains lives span) sound).imp_left ?_
    exact fun hfound => ⟨element, hfound⟩

/-- At the start of two arguments the search places the first, and not the second. -/
theorem searches_place_their_way_arguments : ∃ s : Session, s.Reachable ∧
    arguments.toElement ∈ s.parts ∧ ∃ first last : Node,
      (Tree.root ⟨0, 5, arguments⟩).below? 0 = some (.node first) ∧
      (Tree.root ⟨0, 5, arguments⟩).below? 2 = some (.node last) ∧
      ∃ found memo, (Tree.root ⟨0, 5, arguments⟩).tokensAt 5 ∅ = .ok found memo ∧
        memo[first.address]? = some first ∧ first.start = 5 ∧ memo[last.address]? = none := by
  obtain ⟨s, reached, -, -, held⟩ := arguments_reachable
  let root : Node := Tree.root ⟨0, 5, arguments⟩
  obtain ⟨hsearch, -⟩ := searches_place_their_way reached (.single held 5)
    (Grove.holds_root 5 arguments) (by decide)
  let first : Node := root.nodeBelow 0 argument
  let last : Node := root.nodeBelow 2 argument
  have hfirst : root.below? 0 = some (.node first) := rfl
  have standing : root.Stands ⟨0, 5, arguments⟩ := (Node.lives_root _ ∅).standing
  have hlastStands : last.Stands ⟨0, 5, arguments⟩ :=
    standing.below? (show root.below? 2 = some (.node last) from rfl)
  refine ⟨s, reached, held, first, last, hfirst, rfl, ?_⟩
  obtain ⟨found, memo, hrun, hgains⟩ | ⟨hwide, -⟩ := (hsearch 5).1
  · refine ⟨found, memo, hrun, hgains.placed first ⟨?_, by decide, by decide, by decide⟩, rfl, ?_⟩
    · exact Node.mem_parts.2 ⟨0, _, hfirst, Element.mem_parts_self _⟩
    · refine (hgains.kept last.address fun other htouched hsame => ?_).trans
        (Memo.getElem?_empty _)
      -- a node with this address would be the second argument, which begins after the offset
      have hother : other.Stands _ := standing.of_mem_parts htouched.1
      have hpath := (hother.address_eq_iff hlastStands).1 hsame
      rw [hother.eq_of_path hlastStands hpath] at htouched
      exact absurd htouched.2.2.1 (by decide)
  · exact absurd (arguments_narrow 5) hwide

end LosslessSyntax.Session
