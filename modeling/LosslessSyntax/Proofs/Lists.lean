import LosslessSyntax.Proofs.Facade
import LosslessSyntax.Proofs.Green.Edit
import LosslessSyntax.Proofs.Green.ListRows
import LosslessSyntax.Proofs.Placed.Asking
import LosslessSyntax.Proofs.Placed.Taking

/-!
# Lists and their views

A list that is made from elements and separators shows just these, in order, wherever it is put up; and
every list without annotations is equal to the one that is made from what its view shows. The parts
in the slots of a node, the nodes among them and the elements of a list are given once each and in
order, at whichever end a caller asks. Every edit of a node that a caller holds can be taken back by
one more edit, be the node a list or not, and whether a list can be edited depends on nothing but the
row that the edit would give.

* `Placed.ListView.Shows`: what the view of a list shows, element by element;
* **`Placed.ListView.Valid.shows`**: the nodes and the tokens in its slots;
* `Green.Node.ViewedAs`: a green list of which all views show the same;
* **`Session.list_views_inverse`**: making lists and viewing them are inverse to each other;
* **`Session.taken_from_both_ends`**: cursors over every node that a caller can get, with every plan;
* **`Session.edits_taken_back`**: what comes of an edit, and of the one that takes it back.
-/

namespace LosslessSyntax

open Green (nodesOf tokensOf)

namespace Placed

/-! ## What stands in the slots -/

theorem Node.children_green (node : Node) :
    node.children.map Element.green = node.green.slots.toList := by
  have hslot (slot : Nat) : (node.below? slot).map Element.green = node.green.slots[slot]? := by
    cases hbelow : node.below? slot with
    | none => exact (Array.getElem?_eq_none (Node.below?_eq_none_iff.1 hbelow)).symm
    | some element => exact (Node.below?_green hbelow).symm
  have hrow : node.children.map Element.green =
      (List.range node.arity).filterMap (node.green.slots[·]?) := by
    rw [Node.children, Node.partsAt, List.map_filterMap]
    exact List.filterMap_congr fun slot _ => hslot slot
  have hslots : ∀ slot < node.arity, (node.green.slots[slot]?).isSome := fun slot hlt => by
    rw [Array.getElem?_eq_getElem hlt]
    rfl
  have hget := (getElem?_filterMap_range hslots).2
  refine List.ext_getElem? fun slot => ?_
  rw [hrow, hget, Array.getElem?_toList]
  split_ifs with hlt
  · rfl
  · exact (Array.getElem?_eq_none (Nat.not_lt.1 hlt)).symm

theorem Node.nodes_green (node : Node) :
    node.nodes.map Node.green = nodesOf node.green.slots.toList := by
  have hnodes : node.nodes = node.children.filterMap Element.node? := by
    rw [children, partsAt, List.filterMap_filterMap]
    rfl
  rw [hnodes, ← node.children_green, nodesOf, List.filterMap_map, List.map_filterMap]
  refine List.filterMap_congr fun element _ => ?_
  cases element <;> rfl

theorem Node.slotTokens_green (node : Node) :
    node.slotTokens.map Token.green = tokensOf node.green.slots.toList := by
  rw [slotTokens, ← node.children_green, tokensOf, List.filterMap_map, List.map_filterMap]
  refine List.filterMap_congr fun element _ => ?_
  cases element <;> rfl

/-! ## What a view shows -/

namespace ListView

variable {tree : Tree} {memo : Memo} {list : ListView}

/-- From a memo, a list view shows elements one by one, and nothing after them, and separators. This
can fail only where there are more slots than can be numbered. -/
structure Shows (tree : Tree) (memo : Memo) (list : ListView) (elements : List Node)
    (separators : List Token) : Prop where
  elements : ∀ count, Query.SettlesFrom tree memo (Query.asking Cursor.next count list.cursor)
    ((List.range count).map (elements[·]?))
  separators : Query.SettlesFrom tree memo list.separators separators

theorem Valid.elements_settle (h : list.Valid tree) (fits : tree.Fits) (count : Nat) :
    Query.Settles tree (Query.asking Cursor.next count list.cursor)
      (.ok ((List.range count).map (list.node.nodes[·]?))) := by
  let Left (cursor : Cursor) (row : List Node) : Prop := cursor.Valid tree ∧ cursor.left = row
  have step : ∀ cursor row, Left cursor row → ∃ rest,
      Query.Settles tree cursor.next (.ok (row.head?, rest)) ∧ Left rest row.tail := by
    rintro cursor _ ⟨hvalid, rfl⟩
    obtain ⟨rest, hrest, hleft, hnext⟩ := hvalid.next_settles fits
    exact ⟨rest, hnext, hrest, hleft⟩
  have left : Left list.cursor list.node.nodes :=
    ⟨Cursor.valid_cursor h, Cursor.cursor_left h fits⟩
  exact (Query.chains_settles tree).asking_row step left count

/-- **A list view shows the nodes and the tokens in the slots of its list.** -/
theorem Valid.shows (h : list.Valid tree) (fits : tree.Fits) (hmemo : tree.Keeps memo) :
    list.Shows tree memo list.node.nodes list.node.slotTokens where
  elements count := (h.elements_settle fits count).settlesFrom hmemo
  separators := (h.separators_settles fits).settlesFrom hmemo

end ListView

theorem Node.Stands.shows_list {tree : Tree} {node : Node} (standing : node.Stands tree)
    (fits : tree.Fits) {memo : Memo} (hmemo : tree.Keeps memo) {shape : Green.ListShape}
    (hshape : node.green.listShape? = some shape) :
    node.asList? = some ⟨node, shape⟩ ∧
      ListView.Shows tree memo ⟨node, shape⟩ node.nodes node.slotTokens := by
  have hvalid : ListView.Valid tree ⟨node, shape⟩ := ⟨standing, hshape⟩
  refine ⟨?_, hvalid.shows fits hmemo⟩
  rw [Node.asList?, hshape]
  rfl

end Placed

open Placed

/-- Wherever a green node is put up, and whatever was asked there, its list view shows elements over
`elements` and separators over `separators`. -/
def Green.Node.ViewedAs (green : Green.Node) (elements : List Green.Node)
    (separators : List Green.Token) : Prop :=
  ∀ number start, start + green.width ≤ maxSize → ∀ calls : List Call,
    let tree : Tree := ⟨number, start, green⟩
    ∃ list shownElements shownSeparators, tree.root.asList? = some list ∧
      list.Shows tree ((Facade.start tree.root).after calls).memo shownElements shownSeparators ∧
      shownElements.map Placed.Node.green = elements ∧
      shownSeparators.map Placed.Token.green = separators

namespace Session

section

variable {s : Session}

/-- A list that a caller holds is viewed as the rows it was made over. -/
theorem viewedAs_of_listOver (reached : s.Reachable) {kind : Kind} {elements : List Green.Node}
    {separators : List Green.Token} (few : separators.length ≤ elements.length) {made : Green.Node}
    (held : made.toElement ∈ s.parts)
    (listed : Green.Node.ListOver kind (Green.interleave elements separators) made) :
    made.ViewedAs elements separators := by
  intro number start room calls tree
  have fits : tree.Fits := fits_of_reachable reached held room
  have valid := (Facade.valid_start tree).after fits calls
  obtain ⟨shape, -, hlist⟩ := listed.shape_eq
  have hshape : tree.root.green.listShape? = some shape := by
    change made.listShape? = some shape
    rw [Green.Node.listShape?, hlist]
  obtain ⟨hview, hshows⟩ := Node.Stands.root.shows_list fits valid.memo hshape
  have hslots : tree.root.green.slots.toList = Green.interleave elements separators := by
    change made.slots.toList = _
    rw [listed.slots_eq]
  refine ⟨_, _, _, hview, hshows, ?_, ?_⟩
  · rw [Node.nodes_green, hslots, Green.nodesOf_interleave]
  · rw [Node.slotTokens_green, hslots, Green.tokensOf_interleave few]

/-- **To make lists and to view them are inverse to each other.** Separators make a list with elements
if there are as many or one fewer; elements alone always make one. All views of it show just these
elements and separators. And wherever a list without annotations stands, it is equal to the list that
is made from what its view shows: from the elements if there are many and no separators, else from
elements and separators. -/
theorem list_views_inverse (reached : s.Reachable) :
    (∀ (kind : Kind) (elements : List Green.Node) (separators : List Green.Token),
      kind.isList = true → (∀ n ∈ elements, n.toElement ∈ s.parts) →
      (∀ t ∈ separators, .token t ∈ s.parts) →
      (elements.map Green.Node.width).sum + (separators.map Green.Token.width).sum ≤ maxSize →
      ((∃ made supply, Green.Node.separated kind elements separators s.supply = .ok made supply) ↔
        separators.length = elements.length ∨ separators.length + 1 = elements.length) ∧
      ∀ made supply, Green.Node.separated kind elements separators s.supply = .ok made supply →
        made.ViewedAs elements separators) ∧
    (∀ (kind : Kind) (elements : List Green.Node), kind.isList = true →
      (∀ n ∈ elements, n.toElement ∈ s.parts) → (elements.map Green.Node.width).sum ≤ maxSize →
      ∃ made supply, Green.Node.list kind elements s.supply = .ok made supply ∧
        made.ViewedAs elements []) ∧
    ∀ tree : Tree, tree.green.toElement ∈ s.parts → tree.start + tree.green.width ≤ maxSize →
      ∀ (calls : List Call) (node : Placed.Node),
      ⟨.node, node⟩ ∈ ((Facade.start tree.root).after calls).handles →
      ∀ shape, node.green.listShape? = some shape → node.green.annotations = [] →
      (node.asList? = some ⟨node, shape⟩ ∧ ListView.Shows tree
        ((Facade.start tree.root).after calls).memo ⟨node, shape⟩ node.nodes node.slotTokens) ∧
      ∃ made supply, (if shape = .many then
          Green.Node.list node.green.kind (node.nodes.map Placed.Node.green)
        else Green.Node.separated node.green.kind (node.nodes.map Placed.Node.green)
          (node.slotTokens.map Placed.Token.green)) s.supply = .ok made supply ∧
        made.toElement.equal node.green.toElement = true := by
  refine ⟨fun kind elements separators isList held heldToo fits => ?_,
    fun kind elements isList held fits => ?_,
    fun tree held room calls node given shape hshape bare => ?_⟩
  · by_cases fit : separators.length = elements.length ∨ separators.length + 1 = elements.length
    · obtain ⟨made, hrun, listed⟩ := Green.Node.separated_ok isList fit fits s.supply
      refine ⟨⟨fun _ => fit, fun _ => ⟨made, _, hrun⟩⟩, fun made' supply hrun' => ?_⟩
      cases hrun.symm.trans hrun'
      have next := reached.step (.node (.separated kind held heldToo))
      refine viewedAs_of_listOver next (by omega) ?_ listed
      rw [makes, hrun]
      exact List.mem_cons_self
    · have hrefused := @Green.Node.separated_refused kind _ _ fit s.supply
      refine ⟨⟨fun ⟨made, supply, hrun⟩ => ?_, fun h => absurd h fit⟩, fun made supply hrun => ?_⟩
      · cases hrefused.symm.trans hrun
      · cases hrefused.symm.trans hrun
  · obtain ⟨made, hrun, listed⟩ := Green.Node.list_ok isList fits s.supply
    have next := reached.step (.node (.list kind held))
    refine ⟨made, _, hrun, viewedAs_of_listOver next (Nat.zero_le _) ?_ listed⟩
    rw [makes, hrun]
    exact List.mem_cons_self
  · have fits := fits_of_reachable reached held room
    have valid := (Facade.valid_start tree).after fits calls
    have standing : node.Stands tree := valid.handles _ given
    have tidy := (standing.wellFormed fits).tidy
    obtain ⟨made, hrun, hequal⟩ := tidy.list_again hshape bare s.supply
    rw [Node.nodes_green, Node.slotTokens_green]
    exact ⟨standing.shows_list fits valid.memo hshape, made, _, hrun, hequal⟩

end

/-! ## A small list -/

/-- A name that stands as an argument. -/
def argument : Green.Node :=
  ⟨⟨2, .nameRef, .plain, 1, #[0], none⟩,
    #[.token ⟨0, .name, .none, "a", .none, by decide, by decide, by decide⟩]⟩

/-- A comma between arguments. -/
def comma : Green.Token := ⟨1, .comma, .none, ",", .none, by decide, by decide, by decide⟩

/-- The same argument twice, with the comma between. -/
def arguments : Green.Node :=
  ⟨⟨3, .argList, .list .separated, 3, #[0, 1, 2], none⟩,
    #[argument.toElement, .token comma, argument.toElement]⟩

theorem arguments_run :
    Green.Node.separated .argList [argument, argument] [comma] 3 = .ok arguments 4 := by
  have hshape : Green.listShapeOf .argList
      (Green.interleave [argument, argument] [comma]).toArray = .ok .separated := by
    unfold Green.listShapeOf
    rw [List.any_toArray, Green.any_interleave (by decide)]
    rfl
  rw [Green.Node.separated_eq, if_neg (by decide)]
  unfold Green.Node.ofListSlots
  rw [hshape]
  rfl

theorem arguments_reachable : ∃ s : Session, s.Reachable ∧ argument.toElement ∈ s.parts ∧
    .token comma ∈ s.parts ∧ arguments.toElement ∈ s.parts := by
  have h1 := Reachable.step .start (.token .none .name "a" .none)
  have h2 := Reachable.step h1 (.token .none .comma "," .none)
  have hslots : ∀ e ∈ argument.slots, e ∈ Green.Element.token comma :: argument.slots.toList :=
    fun e he => List.mem_cons_of_mem _ (Array.mem_toList_iff.2 he)
  have h3 : Reachable ⟨3, argument.toElement :: .token comma :: argument.slots.toList, [], []⟩ :=
    .step h2 (.node (.plain .nameRef argument.slots hslots))
  have h4 := h3.step (.node (@Offers.separated _ .argList [argument, argument] [comma] (by simp)
    (by simp)))
  rw [makes, arguments_run] at h4
  exact ⟨_, h4, by simp, by simp, List.mem_cons_self⟩

theorem argument_narrow : argument.toElement.AllNodes fun node => node.arity ≤ UInt32.size :=
  Green.Element.allNodes_of_tokens
    (by simp [argument, Green.Element.isNode, Green.Element.node?])
    (Nat.le_of_lt_succ (by decide : 1 < UInt32.size + 1))

theorem arguments_narrow (start : Nat) : Tree.Narrow ⟨0, start, arguments⟩ := by
  refine Green.Element.allNodes_of_slots (Nat.le_of_lt_succ (by decide : 3 < UInt32.size + 1)) ?_
  intro e he
  simp only [arguments, List.mem_toArray, List.mem_cons, List.not_mem_nil, or_false] at he
  rcases he with rfl | rfl | rfl
  · exact argument_narrow
  · exact Green.Element.allNodes_token comma
  · exact argument_narrow

/-- The view of the two arguments shows them and the comma, and the list that is made of these again
is equal; without the comma they make no separated list, but a list. -/
theorem list_views_inverse_arguments : ∃ s : Session, s.Reachable ∧ arguments.toElement ∈ s.parts ∧
    (∃ shown memo, Query.asking ListView.Cursor.next 3
        (ListView.cursor ⟨Tree.root ⟨0, 0, arguments⟩, .separated⟩) ∅ = .ok shown memo ∧
      shown.map (Option.map Placed.Node.green) = [some argument, some argument, none]) ∧
    (∃ made supply, Green.Node.separated .argList [argument, argument] [comma] s.supply =
      .ok made supply ∧ made.toElement.equal arguments.toElement = true) ∧
    (¬ ∃ made supply, Green.Node.separated .argList [argument, argument] [] s.supply =
      .ok made supply) ∧
    ∃ made supply, Green.Node.list .argList [argument, argument] s.supply = .ok made supply := by
  obtain ⟨s, reached, heldArgument, heldComma, held⟩ := arguments_reachable
  have heldBoth : ∀ n ∈ [argument, argument], n.toElement ∈ s.parts := by simpa using heldArgument
  obtain ⟨hseparated, hlist, hview⟩ := list_views_inverse reached
  have hroot : ⟨.node, Tree.root ⟨0, 0, arguments⟩⟩ ∈
      ((Facade.start (Tree.root ⟨0, 0, arguments⟩)).after []).handles := List.mem_cons_self
  obtain ⟨⟨-, hshows⟩, made, supply, hrun, hequal⟩ :=
    hview ⟨0, 0, arguments⟩ held (by decide) [] _ hroot .separated rfl rfl
  have hnodes : (Tree.root ⟨0, 0, arguments⟩).nodes.map Placed.Node.green = [argument, argument] :=
    Node.nodes_green _
  have htokens : (Tree.root ⟨0, 0, arguments⟩).slotTokens.map Placed.Token.green = [comma] :=
    Node.slotTokens_green _
  rw [hnodes, htokens, if_neg (by decide)] at hrun
  refine ⟨s, reached, held, ?_, ⟨made, supply, hrun, hequal⟩, ?_, ?_⟩
  · obtain ⟨memo, hshown⟩ := (hshows.elements 3).run (arguments_narrow 0)
    refine ⟨_, memo, hshown, ?_⟩
    rw [List.map_map]
    refine (List.map_congr_left fun i _ => ?_).trans
      (show (List.range 3).map ([argument, argument][·]?) = _ from rfl)
    rw [Function.comp_apply, ← hnodes, List.getElem?_map]
  · rw [(hseparated .argList [argument, argument] [] rfl heldBoth (by simp) (by decide)).1]
    decide
  · obtain ⟨made, supply, hrun, -⟩ := hlist .argList [argument, argument] rfl heldBoth (by decide)
    exact ⟨made, supply, hrun⟩

end Session

end LosslessSyntax

/-! ## Rows taken from both ends -/

namespace LosslessSyntax.Session

open Placed

section

variable {s : Session} {tree : Placed.Tree}

/-- **Rows are taken from both ends, and nothing is lost or given twice.** A plan tells at which end
to ask. By every plan the parts in the slots of a node are taken apart, and the nodes among them, and
the elements if the node is a list; a cursor over slots or elements tells how many are left. This can
fail only where there are more slots than can be numbered. -/
theorem taken_from_both_ends (reached : s.Reachable) (held : tree.green.toElement ∈ s.parts)
    (room : tree.start + tree.green.width ≤ maxSize) (calls : List Call) {node : Placed.Node}
    (given : ⟨.node, node⟩ ∈ ((Facade.start tree.root).after calls).handles) (plan : List End) :
    let memo := ((Facade.start tree.root).after calls).memo
    (∃ answers rest left,
      Query.GivesFrom tree memo (Query.taking Cursor.next Cursor.nextBack plan node.cursor)
        (answers, rest) ∧
      Dismantles plan node.children answers left ∧ rest.length = left.length) ∧
    (∃ answers rest left,
      Query.GivesFrom tree memo (Query.taking Cursor.nextNode Cursor.nextNodeBack plan node.cursor)
        (answers, rest) ∧
      Dismantles plan node.nodes answers left) ∧
    ∀ list, node.asList? = some list → ∃ answers rest left,
      Query.SettlesFrom tree memo
        (Query.taking ListView.Cursor.next ListView.Cursor.nextBack plan list.cursor)
        (answers, rest) ∧
      Dismantles plan node.nodes answers left ∧ rest.length = left.length := by
  intro memo
  have fits := fits_of_reachable reached held room
  have valid := (Facade.valid_start tree).after fits calls
  have standing : node.Stands tree := valid.handles _ given
  refine ⟨?_, ?_, fun list hlist => ?_⟩
  · obtain ⟨answers, rest, left, hgives, hrow⟩ := standing.takes fits plan
    exact ⟨answers, rest, left, hgives.givesFrom valid.memo, hrow⟩
  · obtain ⟨answers, rest, left, hgives, hrow⟩ := standing.takesNodes fits plan
    exact ⟨answers, rest, left, hgives.givesFrom valid.memo, hrow⟩
  · obtain ⟨shape, hshape, rfl⟩ := Option.map_eq_some_iff.1 hlist
    have hview : ListView.Valid tree ⟨node, shape⟩ := ⟨standing, hshape⟩
    obtain ⟨answers, rest, left, hsettles, hrow⟩ := hview.takes fits plan
    exact ⟨answers, rest, left, hsettles.settlesFrom valid.memo, hrow⟩

/-- Four questions take two arguments and the comma between them, the last one in vain; the two
arguments are taken with one question each. -/
theorem taken_from_both_ends_arguments : ∃ s : Session, s.Reachable ∧
    arguments.toElement ∈ s.parts ∧
    (∃ answers rest memo, Query.taking Cursor.next Cursor.nextBack [.back, .front, .front, .back]
        (Tree.root ⟨0, 0, arguments⟩).cursor ∅ = .ok (answers, rest) memo ∧
      (takenAt .front answers ++ (takenAt .back answers).reverse).map Element.green =
        [argument.toElement, .token comma, argument.toElement] ∧ rest.length = 0) ∧
    ∃ answers rest memo, Query.taking ListView.Cursor.next ListView.Cursor.nextBack [.back, .front]
        (ListView.cursor ⟨Tree.root ⟨0, 0, arguments⟩, .separated⟩) ∅ = .ok (answers, rest) memo ∧
      (takenAt .front answers ++ (takenAt .back answers).reverse).map Node.green =
        [argument, argument] ∧ rest.length = 0 := by
  obtain ⟨s, reached, -, -, held⟩ := arguments_reachable
  have hroot : ⟨.node, Tree.root ⟨0, 0, arguments⟩⟩ ∈
      ((Facade.start (Tree.root ⟨0, 0, arguments⟩)).after []).handles := List.mem_cons_self
  have htaken := taken_from_both_ends reached held (by decide) [] hroot
  have hchildren : (Tree.root ⟨0, 0, arguments⟩).children.map Element.green =
      [argument.toElement, .token comma, argument.toElement] := Node.children_green _
  have hnodes : (Tree.root ⟨0, 0, arguments⟩).nodes.map Node.green = [argument, argument] :=
    Node.nodes_green _
  refine ⟨s, reached, held, ?_, ?_⟩
  · obtain ⟨⟨answers, rest, left, hgives, hrow, hlength⟩, -, -⟩ :=
      htaken [.back, .front, .front, .back]
    obtain ⟨memo, hrun⟩ := hgives.run (arguments_narrow 0)
    obtain ⟨rfl, hwhole⟩ := hrow.all (by rw [← List.length_map Element.green, hchildren]; decide)
    exact ⟨answers, rest, memo, hrun, hwhole ▸ hchildren, hlength⟩
  · obtain ⟨-, -, hlist⟩ := htaken [.back, .front]
    obtain ⟨answers, rest, left, hsettles, hrow, hlength⟩ := hlist _ rfl
    obtain ⟨memo, hrun⟩ := hsettles.run (arguments_narrow 0)
    obtain ⟨rfl, hwhole⟩ := hrow.all (by rw [← List.length_map Node.green, hnodes]; decide)
    exact ⟨answers, rest, memo, hrun, hwhole ▸ hnodes, hlength⟩

end

end LosslessSyntax.Session

/-! ## Edits of nodes -/

namespace LosslessSyntax.Session

open Green
open Green.Node (Edit)

/-- **Edits are checked and can be taken back.** The edits of a slot that is there change one slot of
the row and keep all others, in order. If there is room for the changed row, only a list can refuse
it, and does so as the row is refused when a list is made of it; else a node over this very row
is made, and the edit that changes the row back gives the old node again, but for its
annotations. -/
theorem edits_taken_back {s : Session} (reached : s.Reachable) {node : Node}
    (held : node.toElement ∈ s.parts) (edit : Edit) :
    (edit.InRange node ↔ ∃ row back, Edit.Changes node.slots.toList edit row back) ∧
    ∀ row back, Edit.Changes node.slots.toList edit row back →
      (row.map Element.width).sum ≤ maxSize → ∀ supply,
      match node.listShape?, listShapeOf node.kind row.toArray with
      | some _, .error error => edit.apply node supply = .error (.rejected error) supply
      | _, _ => ∃ made, edit.apply node supply = .ok made (supply + 1) ∧
          made.slots.toList = row ∧ back.TakesBack made node := by
  obtain ⟨parts, h⟩ := reached.exists_stock
  have tidy : node.Tidy := h.stock.tidy (h.held _ held)
  exact ⟨Edit.inRange_iff, fun row back changes fits supply => changes.outcome tidy fits supply⟩

/-- A comma after the last argument can be put in and taken out again; an argument without a comma
before it can not be put there. -/
theorem edits_taken_back_arguments : ∃ s : Session, s.Reachable ∧ arguments.toElement ∈ s.parts ∧
    (∃ made, arguments.insertSlot 3 (.token comma) s.supply = .ok made (s.supply + 1) ∧
      made.slots.toList =
        [argument.toElement, .token comma, argument.toElement, .token comma] ∧
      (Edit.remove 3).TakesBack made arguments) ∧
    arguments.insertSlot 3 argument.toElement s.supply =
      .error (.rejected (.nodeAsSeparator 3 .nameRef)) s.supply := by
  obtain ⟨s, reached, -, -, held⟩ := arguments_reachable
  have hedit (element : Element) := (edits_taken_back reached held (.insert 3 element)).2 _ _
    (.insert [argument.toElement, .token comma, argument.toElement] element [])
  have hlist : arguments.listShape? = some .separated := rfl
  refine ⟨s, reached, held, ?_, ?_⟩
  · have hrow : listShapeOf arguments.kind
        [argument.toElement, .token comma, argument.toElement, .token comma].toArray =
          .ok .separated := by
      unfold listShapeOf
      rw [List.any_toArray]
      rfl
    have hout := hedit (.token comma) (by decide) s.supply
    rw [hlist] at hout
    simp only [List.cons_append, List.nil_append] at hout
    rw [hrow] at hout
    exact hout
  · have hrow : listShapeOf arguments.kind
        [argument.toElement, .token comma, argument.toElement, argument.toElement].toArray =
          .error (.nodeAsSeparator 3 .nameRef) := by
      unfold listShapeOf
      rw [List.any_toArray]
      rfl
    have hout := hedit argument.toElement (by decide) s.supply
    rw [hlist] at hout
    simp only [List.cons_append, List.nil_append] at hout
    rw [hrow] at hout
    exact hout

end LosslessSyntax.Session
