import LosslessSyntax.Proofs.Placed.FillsLists
import LosslessSyntax.Proofs.Placed.FillsRows
import LosslessSyntax.Proofs.Placed.Replies

/-!
# Whatever is asked fills only its own tree

A handle of a tree whose nodes were placed may be asked anything: the memo grows by nodes of the tree
only, and the handles that are given are of nodes that were placed.

* `Placed.Handle.Lives`: the handles among what was placed of a tree;
* **`Placed.HandleKind.ask_fills`**: whatever a handle is asked;
* `Typed.Question`, **`Typed.Question.ask_fills`**: so too for typed nodes and lists, and for the
  listing of a node.
-/

namespace LosslessSyntax

namespace Placed

/-- What a handle is, among what was placed of a tree. -/
def HandleKind.Lives (tree : Tree) (memo : Memo) : (kind : HandleKind) → kind.Held → Prop
  | node => Node.Lives tree memo
  | token => Token.Lives tree memo
  | list => ListView.Lives tree memo
  | slots => Cursor.Lives tree memo
  | nodes => Cursor.Lives tree memo
  | elements => ListView.Cursor.Lives tree memo
  | walk => Walk.Lives tree memo

/-- A handle among what was placed of a tree. -/
def Handle.Lives (tree : Tree) (memo : Memo) (handle : Handle) : Prop :=
  handle.kind.Lives tree memo handle.held

/-- An answer that gives only such handles. -/
def GivesLiving (tree : Tree) (memo : Memo) (data : List (Datum Handle)) : Prop :=
  ∀ handle ∈ handlesOf data, handle.Lives tree memo

section

variable {tree : Tree} {memo memo' : Memo} {α : Type}

theorem Handle.Lives.mono {handle : Handle} (h : handle.Lives tree memo)
    (hgrows : Memo.Grows memo memo') : handle.Lives tree memo' := by
  obtain ⟨kind, held⟩ := handle
  cases kind with
  | node => exact Node.Lives.mono h hgrows
  | token => exact Token.Lives.mono h hgrows
  | list => exact ListView.Lives.mono h hgrows
  | slots => exact Cursor.Lives.mono h hgrows
  | nodes => exact Cursor.Lives.mono h hgrows
  | elements => exact ListView.Cursor.Lives.mono h hgrows
  | walk => exact Walk.Lives.mono h hgrows

theorem givesLiving_dataOf {row : List Element} (h : ∀ part ∈ row, part.Lives tree memo) :
    GivesLiving tree memo (dataOf row) := by
  intro handle hmem
  rw [handlesOf_dataOf] at hmem
  obtain ⟨part, hpart, rfl⟩ := List.mem_map.1 hmem
  have hlives := h part hpart
  cases part <;> exact hlives

theorem givesLiving_found {part : α → Element} {found : Option α}
    (h : ∀ x ∈ found, (part x).Lives tree memo) :
    GivesLiving tree memo (dataOf (found.toList.map part)) := by
  refine givesLiving_dataOf fun y hy => ?_
  obtain ⟨x, hx, rfl⟩ := List.mem_map.1 hy
  exact h x (Option.mem_toList.1 hx)

theorem GivesLiving.snoc {data : List (Datum Handle)} (h : GivesLiving tree memo data)
    {handle : Handle} (hhandle : handle.Lives tree memo) :
    GivesLiving tree memo (data ++ [.handle handle]) := by
  intro given hmem
  rw [handlesOf_append, List.mem_append] at hmem
  rcases hmem with hmem | hmem
  · exact h given hmem
  · rw [List.mem_singleton.1 hmem]
    exact hhandle

namespace Query.Fills

theorem plain {data : List (Datum Handle)} (hnone : handlesOf data = []) :
    Fills tree memo (Pure.pure data) (GivesLiving tree) :=
  pure fun _ hmem => absurd (hnone ▸ hmem) List.not_mem_nil

theorem handle {handle : Handle} (h : handle.Lives tree memo) :
    Fills tree memo (Pure.pure [.handle handle]) (GivesLiving tree) :=
  pure (List.forall_mem_singleton.2 h)

theorem told {answer : Except Violation α} {f : α → List (Datum Handle)}
    (hnone : ∀ value, handlesOf (f value) = []) :
    Fills tree memo (do return f (← answer)) (GivesLiving tree) :=
  lift_bind fun value _ => plain (hnone value)

theorem parts {query : Query α} {claim : Memo → α → Prop} {f : α → List Element}
    (h : Fills tree memo query claim)
    (himp : ∀ memo' value, claim memo' value → ∀ part ∈ f value, part.Lives tree memo') :
    Fills tree memo (do return dataOf (f (← query))) (GivesLiving tree) :=
  h.bind fun value memo' _ hvalue => pure (givesLiving_dataOf (himp memo' value hvalue))

theorem found {query : Query (Option α)} {Lives : Memo → α → Prop} {part : α → Element}
    (h : Fills tree memo query fun memo' found => ∀ x ∈ found, Lives memo' x)
    (himp : ∀ memo' x, Lives memo' x → (part x).Lives tree memo') :
    Fills tree memo (do return dataOf ((← query).toList.map part)) (GivesLiving tree) := by
  exact h.bind fun found memo' _ hfound =>
    pure (givesLiving_found fun x hx => himp memo' x (hfound x hx))

theorem foundNode {query : Query (Option Node)}
    (h : Fills tree memo query fun memo' found => ∀ n ∈ found, n.Lives tree memo') :
    Fills tree memo (do return dataOf ((← query).toList.map .node)) (GivesLiving tree) :=
  found h fun _ _ hn => hn

theorem foundToken {query : Query (Option Token)}
    (h : Fills tree memo query fun memo' found => ∀ t ∈ found, t.Lives tree memo') :
    Fills tree memo (do return dataOf ((← query).toList.map .token)) (GivesLiving tree) :=
  found h fun _ _ ht => ht

theorem foundElement {query : Query (Option Element)}
    (h : Fills tree memo query fun memo' found => ∀ part ∈ found, part.Lives tree memo') :
    Fills tree memo (do return dataOf (← query).toList) (GivesLiving tree) :=
  parts h fun _ _ hfound part hpart => hfound part (Option.mem_toList.1 hpart)

theorem step {C : Type} {query : Query (Option α × C)} {claim : Memo → Option α × C → Prop}
    (tell : Option α → List (Datum Handle)) (wrap : C → Handle) (h : Fills tree memo query claim)
    (himp : ∀ memo' found rest, claim memo' (found, rest) →
      GivesLiving tree memo' (tell found) ∧ (wrap rest).Lives tree memo') :
    Fills tree memo (do
      let (found, rest) ← query
      return tell found ++ [.handle (wrap rest)]) (GivesLiving tree) := by
  refine h.bind fun answer memo' _ hanswer => pure ?_
  obtain ⟨hfound, hrest⟩ := himp memo' answer.1 answer.2 hanswer
  exact hfound.snoc hrest

end Query.Fills

/-! ## Questions -/

theorem NodeQuestion.ask_fills {node : Node} (h : node.Lives tree memo) (question : NodeQuestion) :
    Query.Fills tree memo (question.ask node) (GivesLiving tree) := by
  have helement : (Element.node node).Lives tree memo := h
  cases question with
  | kind | text | width | start | index | arity | green => exact Query.Fills.plain rfl
  | stop | span => exact Query.Fills.told fun _ => rfl
  | annotations => exact Query.Fills.told handlesOf_notes
  | parent =>
    refine Query.Fills.ofSound fun sound => Query.Fills.pure (givesLiving_dataOf fun part hpart => ?_)
    obtain ⟨parent, hparent, rfl⟩ := List.mem_map.1 hpart
    exact h.parent sound (Option.mem_toList.1 hparent)
  | ancestors =>
    refine Query.Fills.ofSound fun sound => Query.Fills.pure (givesLiving_dataOf fun part hpart => ?_)
    obtain ⟨above, habove, rfl⟩ := List.mem_map.1 hpart
    exact h.of_mem_ancestors sound habove
  | slotAt slot =>
    exact Query.Fills.parts (f := fun element => [element]) (Node.slotAt_fills h slot)
      fun _ _ helement => List.forall_mem_singleton.2 helement
  | getSlot slot => exact Query.Fills.foundElement (Node.slot?_fills h slot)
  | cursor => exact Query.Fills.handle h
  | nodeCursor => exact Query.Fills.handle h
  | firstNode => exact Query.Fills.foundNode (Node.firstNode?_fills h)
  | lastNode => exact Query.Fills.foundNode (Node.lastNode?_fills h)
  | nextNode => exact Query.Fills.foundNode (Node.nextNode?_fills h)
  | previousNode => exact Query.Fills.foundNode (Node.previousNode?_fills h)
  | next => exact Query.Fills.foundElement (Element.next?_fills helement)
  | previous => exact Query.Fills.foundElement (Element.previous?_fills helement)
  | firstToken => exact Query.Fills.foundToken (Node.firstTokenFrom?_fills h 0)
  | lastToken => exact Query.Fills.foundToken (Node.lastTokenBefore?_fills h _)
  | descendants =>
    refine Query.Fills.parts (f := List.map Element.node) (Node.descendants_fills h)
      fun memo' found hfound part hpart => ?_
    obtain ⟨n, hn, rfl⟩ := List.mem_map.1 hpart
    exact hfound n hn
  | walk =>
    refine Query.Fills.handle ⟨?_, List.forall_mem_nil _⟩
    rintro _ ⟨⟩
    exact h
  | tokensAt offset =>
    refine Query.Fills.parts (f := fun found => found.toList.map Element.token)
      (Node.tokensAt_fills h offset) fun memo' found hfound part hpart => ?_
    obtain ⟨t, ht, rfl⟩ := List.mem_map.1 hpart
    exact hfound t ht
  | covering stretch =>
    exact Query.Fills.parts (f := fun element => [element]) (Node.covering_fills h stretch)
      fun _ _ helement => List.forall_mem_singleton.2 helement
  | asList =>
    refine Query.Fills.pure fun handle hmem => ?_
    cases hlist : node.asList? with
    | none =>
      rw [hlist] at hmem
      cases hmem
    | some list =>
      rw [hlist] at hmem
      rw [List.mem_singleton.1 hmem]
      exact Typed.asList?_lives h hlist

theorem TokenQuestion.ask_fills {token : Token} (h : token.Lives tree memo)
    (question : TokenQuestion) :
    Query.Fills tree memo (question.ask token) (GivesLiving tree) := by
  have helement : (Element.token token).Lives tree memo := h
  cases question with
  | kind | text | start | index | green => exact Query.Fills.plain rfl
  | stop | span | trimmedSpan => exact Query.Fills.told fun _ => rfl
  | parent =>
    exact Query.Fills.pure (givesLiving_dataOf (List.forall_mem_singleton.2 h.parent))
  | ancestors =>
    refine Query.Fills.ofSound fun sound => Query.Fills.pure (givesLiving_dataOf fun part hpart => ?_)
    obtain ⟨above, habove, rfl⟩ := List.mem_map.1 hpart
    exact h.parent.of_mem_ancestors sound habove
  | next => exact Query.Fills.foundElement (Element.next?_fills helement)
  | previous => exact Query.Fills.foundElement (Element.previous?_fills helement)
  | nextToken => exact Query.Fills.foundToken (Node.tokenFrom?_fills h.parent _)
  | previousToken => exact Query.Fills.foundToken (Node.tokenBefore?_fills h.parent _)

theorem ListQuestion.ask_fills {list : ListView} (h : list.Lives tree memo)
    (question : ListQuestion) : Query.Fills tree memo (question.ask list) (GivesLiving tree) := by
  cases question with
  | node => exact Query.Fills.pure (givesLiving_dataOf (List.forall_mem_singleton.2 h.node))
  | shape | length | isEmpty | separatorCount | endsInSeparator => exact Query.Fills.plain rfl
  | slotOf index => exact Query.Fills.told fun _ => rfl
  | elementOf slot =>
    refine Query.Fills.plain ?_
    cases list.elementOf? slot <;> rfl
  | element index =>
    exact Query.Fills.parts (f := fun n => [.node n]) (ListView.element_fills h index)
      fun _ _ hn => List.forall_mem_singleton.2 hn
  | get index => exact Query.Fills.foundNode (ListView.get?_fills h index)
  | separator index => exact Query.Fills.foundToken (ListView.separator?_fills h index)
  | separators =>
    refine Query.Fills.parts (f := List.map Element.token) (ListView.separators_fills h)
      fun memo' found hfound part hpart => ?_
    obtain ⟨t, ht, rfl⟩ := List.mem_map.1 hpart
    exact hfound t ht
  | cursor => exact Query.Fills.handle h

theorem Cursor.ask_fills {cursor : Cursor} (h : cursor.Lives tree memo) (question : RowQuestion) :
    Query.Fills tree memo (cursor.ask question) (GivesLiving tree) := by
  have hgiven : ∀ memo' (found : Option Element) (rest : Cursor),
      (∀ part ∈ found, part.Lives tree memo') ∧ rest.Lives tree memo' →
      GivesLiving tree memo' (dataOf found.toList) ∧ rest.Lives tree memo' :=
    fun memo' found rest hfound =>
      ⟨givesLiving_dataOf fun part hpart => hfound.1 part (Option.mem_toList.1 hpart), hfound.2⟩
  cases question with
  | length => exact Query.Fills.plain rfl
  | next =>
    exact Query.Fills.step (fun found => dataOf found.toList) (fun rest => ⟨.slots, rest⟩)
      (next_fills h) hgiven
  | nextBack =>
    exact Query.Fills.step (fun found => dataOf found.toList) (fun rest => ⟨.slots, rest⟩)
      (nextBack_fills h) hgiven

theorem Cursor.askNodes_fills {cursor : Cursor} (h : cursor.Lives tree memo)
    (question : NodesQuestion) :
    Query.Fills tree memo (cursor.askNodes question) (GivesLiving tree) := by
  have hgiven : ∀ memo' (found : Option Node) (rest : Cursor),
      (∀ n ∈ found, n.Lives tree memo') ∧ rest.Lives tree memo' →
      GivesLiving tree memo' (dataOf (found.toList.map .node)) ∧ rest.Lives tree memo' :=
    fun memo' found rest hfound => ⟨givesLiving_found hfound.1, hfound.2⟩
  cases question with
  | next =>
    exact Query.Fills.step (fun found => dataOf (found.toList.map .node))
      (fun rest => ⟨.nodes, rest⟩) (nextNode_fills h) hgiven
  | nextBack =>
    exact Query.Fills.step (fun found => dataOf (found.toList.map .node))
      (fun rest => ⟨.nodes, rest⟩) (nextNodeBack_fills h) hgiven

theorem ListView.Cursor.ask_fills {cursor : ListView.Cursor} (h : cursor.Lives tree memo)
    (question : RowQuestion) :
    Query.Fills tree memo (cursor.ask question) (GivesLiving tree) := by
  have hgiven : ∀ memo' (found : Option Node) (rest : ListView.Cursor),
      (∀ n ∈ found, n.Lives tree memo') ∧ rest.Lives tree memo' →
      GivesLiving tree memo' (dataOf (found.toList.map .node)) ∧ rest.Lives tree memo' :=
    fun memo' found rest hfound => ⟨givesLiving_found hfound.1, hfound.2⟩
  cases question with
  | length => exact Query.Fills.plain rfl
  | next =>
    exact Query.Fills.step (fun found => dataOf (found.toList.map .node))
      (fun rest => ⟨.elements, rest⟩) (next_fills h) hgiven
  | nextBack =>
    exact Query.Fills.step (fun found => dataOf (found.toList.map .node))
      (fun rest => ⟨.elements, rest⟩) (nextBack_fills h) hgiven

theorem Walk.Event.givesLiving_data {event : Option Walk.Event}
    (h : ∀ e ∈ event, e.Lives tree memo) :
    GivesLiving tree memo ((event.map Walk.Event.data).getD []) := by
  intro handle hmem
  cases event with
  | none => cases hmem
  | some event =>
    have hevent := h event rfl
    change handle ∈ handlesOf event.data at hmem
    rw [Walk.Event.handlesOf_data] at hmem
    rw [List.mem_singleton.1 hmem]
    cases event <;> exact hevent

theorem Walk.ask_fills {walk : Walk} (h : walk.Lives tree memo) (question : WalkQuestion) :
    Query.Fills tree memo (walk.ask question) (GivesLiving tree) := by
  have hgiven : ∀ memo' (event : Option Walk.Event) (rest : Walk),
      (∀ e ∈ event, e.Lives tree memo') ∧ rest.Lives tree memo' →
      GivesLiving tree memo' ((event.map Walk.Event.data).getD []) ∧ rest.Lives tree memo' :=
    fun memo' event rest hevent => ⟨Walk.Event.givesLiving_data hevent.1, hevent.2⟩
  cases question with
  | next =>
    exact Query.Fills.step (fun event => (event.map Walk.Event.data).getD [])
      (fun rest => ⟨.walk, rest⟩) (next_fills h) hgiven
  | nextOfNode =>
    exact Query.Fills.step (fun event => (event.map Walk.Event.data).getD [])
      (fun rest => ⟨.walk, rest⟩) (passTokens_fills h _) hgiven
  | skip =>
    exact Query.Fills.lift_bind fun rest hskip => Query.Fills.handle (Walk.skip_lives h hskip)

/-- **Whatever a handle is asked, the memo grows by nodes of its tree only.** -/
theorem HandleKind.ask_fills {kind : HandleKind} {held : kind.Held} (h : kind.Lives tree memo held)
    (question : kind.Question) :
    Query.Fills tree memo (kind.ask held question) (GivesLiving tree) := by
  cases kind with
  | node => exact NodeQuestion.ask_fills h question
  | token => exact TokenQuestion.ask_fills h question
  | list => exact ListQuestion.ask_fills h question
  | slots => exact Cursor.ask_fills h question
  | nodes => exact Cursor.askNodes_fills h question
  | elements => exact ListView.Cursor.ask_fills h question
  | walk => exact Walk.ask_fills h question

end

end Placed

/-! ## Typed questions -/

namespace Typed

open Placed

/-- What can be asked of a handle by forms, and the listing of a node. -/
inductive Question : HandleKind → Type
  | listing : Question .node
  | child (form : Form) (first : Nat) : Question .node
  | token (wanted : Kind → Bool) : Question .node
  | list (form : Form) (kind : Kind) : Question .node
  | rhs : Question .node
  | placedChild (form : Form) (slot : Nat) : Question .node
  | get (form : Form) (index : Nat) : Question .list
  | placed (form : Form) (index : Nat) : Question .list
  | next (form : Form) : Question .elements
  | nextBack (form : Form) : Question .elements

/-- The right operand of a node, if the node has one. -/
def rightOperand? (node : Placed.Node) : Query (Option (Node .expr)) :=
  match cast? .binaryExpr node with
  | none => return none
  | some typed => typed.rhs?

/-- Asks a handle; typed nodes and lists are given as what they are of. -/
def Question.ask : {kind : HandleKind} → kind.Held → Question kind → Query (List (Datum Handle))
  | _, node, listing => return [.text (← Placed.Node.listing node)]
  | _, node, child form first =>
    return dataOf ((← childFrom? form node first).toList.map (.node ·.node))
  | _, node, token wanted => return dataOf ((← token? wanted node).toList.map .token)
  | _, node, list form kind =>
    return (← listOf? form kind node).toList.map fun list => .handle ⟨.list, list.view⟩
  | _, node, rhs => return dataOf ((← rightOperand? node).toList.map (.node ·.node))
  | _, node, placedChild form slot =>
    return dataOf (((← Placed.Node.placedAt? node slot).bind (cast? form)).toList.map (.node ·.node))
  | _, view, get form index =>
    return dataOf ((← (⟨view⟩ : ListOf form).get? index).toList.map (.node ·.node))
  | _, view, placed form index =>
    return dataOf ((← (⟨view⟩ : ListOf form).placed? index).toList.map (.node ·.node))
  | _, cursor, next form => do
    let (found, rest) ← (ListOf.next cursor : Query (Option (Node form) × ListView.Cursor))
    return dataOf (found.toList.map (.node ·.node)) ++ [.handle ⟨.elements, rest⟩]
  | _, cursor, nextBack form => do
    let (found, rest) ← (ListOf.nextBack cursor : Query (Option (Node form) × ListView.Cursor))
    return dataOf (found.toList.map (.node ·.node)) ++ [.handle ⟨.elements, rest⟩]

section

variable {tree : Tree} {memo : Memo}

theorem foundTyped {form : Form} {query : Query (Option (Node form))}
    (h : Query.Fills tree memo query fun memo' found => ∀ typed ∈ found, typed.Lives tree memo') :
    Query.Fills tree memo (do return dataOf ((← query).toList.map (.node ·.node)))
      (GivesLiving tree) :=
  Query.Fills.found h fun _ _ htyped => htyped

theorem givesLiving_typed {form : Form} {found : Option (Node form)}
    (h : ∀ typed ∈ found, typed.Lives tree memo) :
    GivesLiving tree memo (dataOf (found.toList.map (.node ·.node))) :=
  givesLiving_found h

/-- **So does it by forms, and for a listing.** -/
theorem Question.ask_fills {kind : HandleKind} {held : kind.Held} (h : kind.Lives tree memo held)
    (question : Question kind) :
    Query.Fills tree memo (question.ask held) (GivesLiving tree) := by
  cases question with
  | listing => exact (Node.listing_fills h).bind fun _ _ _ _ => Query.Fills.plain rfl
  | child form first => exact foundTyped (childFrom?_fills h first)
  | token wanted => exact Query.Fills.foundToken (token?_fills wanted h)
  | list form kind =>
    refine (listOf?_fills kind h).bind fun found memo' _ hfound => Query.Fills.pure ?_
    cases found with
    | none => exact List.forall_mem_nil _
    | some list => exact List.forall_mem_singleton.2 (hfound list rfl)
  | rhs =>
    have hfills : Query.Fills tree memo (rightOperand? held) fun memo' found =>
        ∀ typed ∈ found, typed.Lives tree memo' := by
      unfold rightOperand?
      cases hcast : cast? .binaryExpr held with
      | none => exact Query.Fills.pure forall_mem_none
      | some typed => exact Node.rhs?_fills (cast?_lives h hcast)
    exact foundTyped hfills
  | placedChild form slot =>
    refine (Placed.Node.placedAt?_fills h slot).bind fun found memo' _ hfound => ?_
    refine Query.Fills.pure (givesLiving_found fun typed htyped => ?_)
    obtain ⟨n, hn, hcast⟩ := Option.bind_eq_some_iff.1 htyped
    exact cast?_lives (hfound n hn) hcast
  | get form index => exact foundTyped (ListOf.get?_fills h index)
  | placed form index => exact foundTyped (ListOf.placed?_fills h index)
  | next form =>
    exact Query.Fills.step
      (fun found : Option (Node form) => dataOf (found.toList.map (.node ·.node)))
      (fun rest => ⟨.elements, rest⟩) (ListOf.pick_fills ListView.Cursor.next_fills h _)
      fun _ _ _ hfound => ⟨givesLiving_typed hfound.1, hfound.2⟩
  | nextBack form =>
    exact Query.Fills.step
      (fun found : Option (Node form) => dataOf (found.toList.map (.node ·.node)))
      (fun rest => ⟨.elements, rest⟩) (ListOf.pick_fills ListView.Cursor.nextBack_fills h _)
      fun _ _ _ hfound => ⟨givesLiving_typed hfound.1, hfound.2⟩

end

end Typed

end LosslessSyntax
