import LosslessSyntax.Proofs.Placed.Agree

/-!
# All handles agree

Tokens, lists, cursors and walks answer as the reference does, and so do all handles.

* `Placed.TokenQuestion.agrees`, `Placed.ListQuestion.agrees`: tokens and lists;
* `Placed.Cursor.ask_agrees` and its like: rows, from either end;
* `Placed.Walk.ask_agrees`: walks;
* **`Placed.HandleKind.ask_agrees`**: whatever a handle of a tree is asked.
-/

namespace LosslessSyntax.Placed

variable {tree : Tree}

/-! ## Tokens -/

section

variable {token : Token}

theorem Token.Stands.part?_eq (standing : token.Stands tree) :
    tree.part? token.path = some (.token token.green) := standing.at?

theorem Token.Stands.startOf_eq (standing : token.Stands tree) :
    tree.startOf token.path = token.start := standing.start_eq.symm

theorem Token.Stands.stopOf_eq (standing : token.Stands tree) :
    tree.stopOf token.path = token.start + token.green.width := by
  rw [Tree.stopOf, standing.startOf_eq, Tree.widthOf, standing.part?_eq]
  rfl

theorem Token.Stands.span_eq (standing : token.Stands tree) (fits : tree.Fits) :
    token.span = .ok (tree.spanOf token.path) := by
  have hspan : token.span =
      .ok ⟨token.start, token.start + token.green.width, Nat.le_add_right _ _⟩ :=
    if_pos (standing.stop_le fits)
  simp only [hspan, Tree.spanOf, standing.stopOf_eq, standing.startOf_eq]

theorem Token.Stands.stop_eq (standing : token.Stands tree) (fits : tree.Fits) :
    token.stop = .ok (tree.stopOf token.path) := by
  rw [Token.stop, standing.span_eq fits]
  rfl

theorem Token.Stands.parent (standing : token.Stands tree) : token.parent.Stands tree := by
  cases standing with
  | child standing found => exact standing

theorem Token.path_dropLast (token : Token) : token.path.dropLast = token.parent.path :=
  List.dropLast_concat

theorem TokenQuestion.agrees (standing : token.Stands tree) (fits : tree.Fits)
    (question : TokenQuestion) : Agrees tree (question.ask token)
      (question.answer tree token.path token.green) := by
  have helement : (Element.token token).Stands tree := standing
  cases question with
  | kind => exact Agrees.plain rfl rfl
  | text => exact Agrees.plain rfl rfl
  | start => exact Agrees.plain rfl (by rw [standing.startOf_eq]; rfl)
  | stop => exact Agrees.lift (fun _ => rfl) (by rw [standing.stop_eq fits]; rfl)
  | span => exact Agrees.lift (fun _ => rfl) (by rw [standing.span_eq fits]; rfl)
  | trimmedSpan =>
    refine Agrees.lift (fun _ => rfl) ?_
    unfold answer
    rw [standing.startOf_eq, Token.trimmedSpan]
    cases token.green.trimmedSpan.shift token.start <;> rfl
  | index =>
    have hindex : token.slot = token.path.getLast?.getD 0 := helement.index_eq
    exact Agrees.plain rfl (by rw [← hindex]; rfl)
  | green => exact Agrees.plain rfl rfl
  | parent =>
    refine Agrees.known (fun part hpart => ?_) ?_
    · rw [List.mem_singleton.1 hpart]
      exact standing.parent
    · rw [Token.path_dropLast]
      rfl
  | ancestors =>
    refine Agrees.known (fun part hpart => ?_) ?_
    · obtain ⟨n, hmem, rfl⟩ := List.mem_map.1 hpart
      exact standing.parent.of_mem_ancestors hmem
    · rw [List.map_map, Token.path_dropLast]
      exact standing.parent.ancestors_path
  | next => exact Agrees.foundElement (helement.beside_finds fits).1
  | previous => exact Agrees.foundElement (helement.beside_finds fits).2
  | nextToken => exact Agrees.found (standing.beside_finds fits).1
  | previousToken => exact Agrees.found (standing.beside_finds fits).2

end

/-! ## Lists -/

namespace ListView.Valid

variable {list : ListView}

theorem isEmpty_eq (h : Valid tree list) (fits : tree.Fits) :
    list.isEmpty = (tree.children list.node.path).isEmpty := by
  have hempty := (h.standing.wellFormed fits).tidy.shape_eq_empty_iff h.shape
  have hlength : (tree.children list.node.path).length = list.node.arity := by
    rw [Tree.children, List.length_map, List.length_range, h.standing.arityOf_eq]
  rw [Bool.eq_iff_iff, isEmpty, beq_iff_eq, hempty, List.isEmpty_iff_length_eq_zero, hlength]
  rfl

theorem endsInSeparator_eq (h : Valid tree list) (fits : tree.Fits) : list.endsInSeparator =
    (tree.children list.node.path).getLast?.any fun below => !tree.holdsNode below := by
  rw [Bool.eq_iff_iff, (h.laid fits).endsInSeparator_iff, ← h.standing.children_path,
    List.getLast?_map, Node.children_getLast?]
  cases hbelow : list.node.below? (list.node.arity - 1) with
  | none => simp
  | some last =>
    rw [Option.map_some, Option.any_some, (h.standing.below? hbelow).holdsNode_eq]
    cases last <;> simp [Element.node?]

theorem slotOf_agrees (list : ListView) (index : Nat) :
    Agrees tree (do return [.number (← list.slotOf index)])
      (if list.shape = .separated then
        if index * 2 < slotBound then .ok [.number (index * 2)] else .error .slotOverflow
      else .ok [.number index]) := by
  refine Agrees.lift (fun _ => rfl) ?_
  rw [slotOf_eq]
  split_ifs <;> rfl

theorem elementOf_agrees (list : ListView) (slot : Nat) :
    Agrees tree (pure ((list.elementOf? slot).toList.map .number))
      (.ok (if list.shape = .separated then if slot % 2 = 0 then [.number (slot / 2)] else []
        else [.number slot])) := by
  refine Agrees.plain ?_ ?_
  · cases list.elementOf? slot <;> rfl
  · rw [elementOf?_eq]
    split_ifs <;> rfl

theorem getElem?_nodes_path (h : Valid tree list) (index : Nat) :
    (tree.nodes list.node.path)[index]? = list.node.nodes[index]?.map Node.path := by
  rw [← h.standing.nodes_path, List.getElem?_map]

theorem element_agrees (h : Valid tree list) (fits : tree.Fits) (index : Nat) :
    Agrees tree (do return dataOf [.node (← list.element index)])
      (match (tree.nodes list.node.path)[index]? with
      | some below => .ok (tree.dataOf [below])
      | none => .error (.noSuchElement index (tree.nodes list.node.path).length)) := by
  have hsettles := h.element_settles fits index
  rw [h.getElem?_nodes_path]
  cases hnode : list.node.nodes[index]? with
  | some n =>
    rw [hnode] at hsettles
    refine Agrees.parts (f := fun n => [.node n]) hsettles (fun part hpart => ?_) rfl
    rw [List.mem_singleton.1 hpart]
    exact h.standing.of_mem_nodes (List.mem_of_getElem? hnode)
  | none =>
    have hlength : (tree.nodes list.node.path).length = list.length := by
      rw [← h.standing.nodes_path, List.length_map]
      exact (h.laid fits).nodes_get.1
    rw [hnode, ← hlength] at hsettles
    exact Agrees.error hsettles.bind_error

theorem get_agrees (h : Valid tree list) (fits : tree.Fits) (index : Nat) :
    Agrees tree (do return dataOf ((← list.get? index).toList.map .node))
      (.ok (tree.dataOf (tree.nodes list.node.path)[index]?.toList)) := by
  refine Agrees.parts (f := fun n => n.toList.map Element.node) (h.get?_settles fits index)
    (fun part hpart => ?_) ?_
  · obtain ⟨n, hn, rfl⟩ := List.mem_map.1 hpart
    exact h.standing.of_mem_nodes (List.mem_of_getElem? (Option.mem_toList.1 hn))
  · rw [h.getElem?_nodes_path]
    cases list.node.nodes[index]? <;> rfl

theorem of_mem_slotTokens (h : Valid tree list) {token : Token}
    (hmem : token ∈ list.node.slotTokens) : token.Stands tree := by
  obtain ⟨part, hpart, htoken⟩ := List.mem_filterMap.1 hmem
  have hstanding := h.standing.of_mem_children hpart
  cases part with
  | node n => cases htoken
  | token t =>
    cases htoken
    exact hstanding

theorem separator_agrees (h : Valid tree list) (fits : tree.Fits) (index : Nat) :
    Agrees tree (do return dataOf ((← list.separator? index).toList.map .token))
      (if list.shape = .separated ∧ slotBound ≤ index * 2 then .error .slotOverflow
      else .ok (tree.dataOf (tree.slotTokens list.node.path)[index]?.toList)) := by
  have hgives := h.separator?_gives fits index
  split_ifs at hgives ⊢ with hbound
  · exact Agrees.error hgives.bind_error.settles
  · refine Agrees.parts (f := fun t => t.toList.map Element.token) hgives.settles
      (fun part hpart => ?_) ?_
    · obtain ⟨t, ht, rfl⟩ := List.mem_map.1 hpart
      exact h.of_mem_slotTokens (List.mem_of_getElem? (Option.mem_toList.1 ht))
    · rw [← h.standing.slotTokens_path, List.getElem?_map]
      cases list.node.slotTokens[index]? <;> rfl

theorem separators_agrees (h : Valid tree list) (fits : tree.Fits) :
    Agrees tree (do return dataOf ((← list.separators).map .token))
      (.ok (tree.dataOf (tree.slotTokens list.node.path))) := by
  refine Agrees.parts (f := List.map Element.token) (h.separators_settles fits)
    (fun part hpart => ?_) ?_
  · obtain ⟨t, ht, rfl⟩ := List.mem_map.1 hpart
    exact h.of_mem_slotTokens ht
  · rw [List.map_map]
    exact h.standing.slotTokens_path

end ListView.Valid

theorem ListQuestion.agrees {list : ListView} (h : list.Valid tree) (fits : tree.Fits)
    (question : ListQuestion) : Agrees tree (question.ask list)
      (question.answer tree list.node.path list.shape) := by
  have hnodes : list.node.nodes.map Node.path = tree.nodes list.node.path := h.standing.nodes_path
  cases question with
  | node =>
    refine Agrees.known (fun part hpart => ?_) rfl
    rw [List.mem_singleton.1 hpart]
    exact h.standing
  | shape => exact Agrees.plain rfl rfl
  | length =>
    have hlength : (tree.nodes list.node.path).length = list.length := by
      rw [← hnodes, List.length_map]
      exact (h.laid fits).nodes_get.1
    exact Agrees.plain rfl (by rw [hlength]; rfl)
  | isEmpty => exact Agrees.plain rfl (by rw [← h.isEmpty_eq fits]; rfl)
  | separatorCount =>
    have hcount : (tree.slotTokens list.node.path).length = list.separatorCount := by
      rw [← h.standing.slotTokens_path, List.length_map]
      exact h.length_slotTokens fits
    exact Agrees.plain rfl (by rw [hcount]; rfl)
  | endsInSeparator => exact Agrees.plain rfl (by rw [← h.endsInSeparator_eq fits]; rfl)
  | slotOf index => exact ListView.Valid.slotOf_agrees list index
  | elementOf slot => exact ListView.Valid.elementOf_agrees list slot
  | element index => exact h.element_agrees fits index
  | get index => exact h.get_agrees fits index
  | separator index => exact h.separator_agrees fits index
  | separators => exact h.separators_agrees fits
  | cursor =>
    refine Agrees.handle (ListView.Cursor.valid_cursor h) (congrArg (Ref.mk .elements) ?_)
    rw [← hnodes, ← ListView.Cursor.cursor_left h fits]
    rfl

/-! ## Rows -/

theorem Agrees.step {α C : Type} {query : Query (Option α × C)} {part : α → Element}
    {wrap : C → Handle} {x : Option α} {rest : C} {path : Option (List Nat)} {ref : Ref}
    (h : Query.Settles tree query (.ok (x, rest))) (standing : ∀ y, x = some y → (part y).Stands tree)
    (hpath : x.map (fun y => (part y).path) = path) (valid : (wrap rest).Valid tree)
    (told : (wrap rest).told tree = ref) :
    Agrees tree (do
      let (x, rest) ← query
      return dataOf (x.toList.map part) ++ [.handle (wrap rest)])
      (.ok (tree.dataOf path.toList ++ [.handle ref])) := by
  have hrow : ∀ y ∈ x.toList.map part, y.Stands tree := by
    intro y hy
    obtain ⟨z, hz, rfl⟩ := List.mem_map.1 hy
    exact standing z (Option.mem_toList.1 hz)
  refine Agrees.ok (h.bind_ok (Query.Settles.pure _)) (fun handle hmem => ?_) ?_
  · rw [handlesOf_append, List.mem_append] at hmem
    rcases hmem with hmem | hmem
    · exact valid_dataOf hrow handle hmem
    · rw [List.mem_singleton.1 hmem]
      exact valid
  · subst hpath told
    have hdata := told_dataOf hrow
    rw [toldData, List.map_append]
    refine congrArg₂ (· ++ ·) (hdata.trans ?_) rfl
    cases x <;> rfl

section

variable {α C : Type} {query : Query (Option α × C)} (part : α → Element) (wrap : C → Handle)
  {row : List α} {rest : C} {left : List (List Nat)} {ref : Ref}

theorem Agrees.first (h : Query.Settles tree query (.ok (row.head?, rest)))
    (standing : ∀ y ∈ row, (part y).Stands tree) (hleft : row.map (fun y => (part y).path) = left)
    (valid : (wrap rest).Valid tree) (told : (wrap rest).told tree = ref) :
    Agrees tree (do
      let (x, rest) ← query
      return dataOf (x.toList.map part) ++ [.handle (wrap rest)])
      (.ok (tree.dataOf left.head?.toList ++ [.handle ref])) :=
  Agrees.step h (fun y hy => standing y (List.mem_of_head? hy)) (by rw [← hleft, List.head?_map])
    valid told

theorem Agrees.last (h : Query.Settles tree query (.ok (row.getLast?, rest)))
    (standing : ∀ y ∈ row, (part y).Stands tree) (hleft : row.map (fun y => (part y).path) = left)
    (valid : (wrap rest).Valid tree) (told : (wrap rest).told tree = ref) :
    Agrees tree (do
      let (x, rest) ← query
      return dataOf (x.toList.map part) ++ [.handle (wrap rest)])
      (.ok (tree.dataOf left.getLast?.toList ++ [.handle ref])) :=
  Agrees.step h (fun y hy => standing y (List.mem_of_getLast? hy))
    (by rw [← hleft, List.getLast?_map]) valid told

end

theorem Cursor.ask_agrees {cursor : Cursor} (h : cursor.Valid tree) (fits : tree.Fits)
    (question : RowQuestion) : Agrees tree (cursor.ask question)
      (question.answer tree (cursor.left.map Element.path) (⟨.slots, ·⟩)) := by
  cases question with
  | length => exact Agrees.plain rfl (by rw [← h.length_left, ← List.length_map]; rfl)
  | next =>
    obtain ⟨rest, hvalid, hrest, hgives⟩ := h.next_gives fits
    have hagrees := Agrees.first id (fun rest => ⟨.slots, rest⟩) hgives.settles
      (fun _ hmem => h.of_mem_left hmem) rfl hvalid rfl
    simp only [List.map_id] at hagrees
    rw [RowQuestion.answer, ← List.map_tail, ← hrest]
    exact hagrees
  | nextBack =>
    obtain ⟨rest, hvalid, hrest, hgives⟩ := h.nextBack_gives fits
    have hagrees := Agrees.last id (fun rest => ⟨.slots, rest⟩) hgives.settles
      (fun _ hmem => h.of_mem_left hmem) rfl hvalid rfl
    simp only [List.map_id] at hagrees
    rw [RowQuestion.answer, ← List.map_dropLast, ← hrest]
    exact hagrees

theorem Cursor.askNodes_agrees {cursor : Cursor} (h : cursor.Valid tree) (fits : tree.Fits)
    (question : NodesQuestion) : Agrees tree (cursor.askNodes question)
      (question.answer tree (cursor.nodesLeft.map Node.path)) := by
  cases question with
  | next =>
    obtain ⟨rest, hvalid, hrest, hgives⟩ := h.nextNode_gives fits
    rw [NodesQuestion.answer, ← List.map_tail, ← hrest]
    exact Agrees.first Element.node (fun rest => ⟨.nodes, rest⟩) hgives.settles
      (fun _ hmem => h.of_mem_nodesLeft hmem) rfl hvalid rfl
  | nextBack =>
    obtain ⟨rest, hvalid, hrest, hgives⟩ := h.nextNodeBack_gives fits
    rw [NodesQuestion.answer, ← List.map_dropLast, ← hrest]
    exact Agrees.last Element.node (fun rest => ⟨.nodes, rest⟩) hgives.settles
      (fun _ hmem => h.of_mem_nodesLeft hmem) rfl hvalid rfl

theorem ListView.Cursor.ask_agrees {cursor : ListView.Cursor} (h : cursor.Valid tree)
    (fits : tree.Fits) (question : RowQuestion) : Agrees tree (cursor.ask question)
      (question.answer tree (cursor.left.map Node.path) (⟨.elements, ·⟩)) := by
  cases question with
  | length => exact Agrees.plain rfl (by rw [← h.length_left fits, ← List.length_map]; rfl)
  | next =>
    obtain ⟨rest, hvalid, hrest, hsettles⟩ := h.next_settles fits
    rw [RowQuestion.answer, ← List.map_tail, ← hrest]
    exact Agrees.first Element.node (fun rest => ⟨.elements, rest⟩) hsettles
      (fun _ hmem => h.of_mem_left hmem) rfl hvalid rfl
  | nextBack =>
    obtain ⟨rest, hvalid, hrest, hsettles⟩ := h.nextBack_settles fits
    rw [RowQuestion.answer, ← List.map_dropLast, ← hrest]
    exact Agrees.last Element.node (fun rest => ⟨.elements, rest⟩) hsettles
      (fun _ hmem => h.of_mem_left hmem) rfl hvalid rfl

/-! ## Walks -/

theorem Walk.Event.handlesOf_data (event : Walk.Event) :
    handlesOf event.data = [Handle.part event.part] := by
  cases event <;> rfl

theorem Walk.Event.told_data {event : Walk.Event} (standing : event.part.Stands tree) :
    toldData tree event.data = tree.visitData event.visit := by
  have hpart : Handle.told tree (.part event.part) = tree.ref event.part.path := standing.told_part
  cases event with
  | enter n | leave n => exact congrArg (fun ref => [Datum.flag _, Datum.handle ref]) hpart
  | token t => exact congrArg (fun ref => [Datum.handle ref]) hpart

theorem Walk.Takes.agrees {query : Query (Option Walk.Event × Walk)} {row : List Visit}
    {event : Option Walk.Event} {rest : Walk} (h : Walk.Takes tree query row event rest) :
    Agrees tree (do
      let (event, rest) ← query
      return (event.map Walk.Event.data).getD [] ++ [.handle ⟨.walk, rest⟩])
      (.ok (tree.firstVisit row)) := by
  refine Agrees.ok (h.gives.settles.bind_ok (Query.Settles.pure _)) (fun handle hmem => ?_) ?_
  · rw [handlesOf_append, List.mem_append] at hmem
    rcases hmem with hmem | hmem
    · cases event with
      | none => cases hmem
      | some e =>
        change handle ∈ handlesOf e.data at hmem
        rw [Walk.Event.handlesOf_data] at hmem
        rw [List.mem_singleton.1 hmem]
        exact (h.standing e rfl).valid_part
    · rw [List.mem_singleton.1 hmem]
      exact h.valid
  · have hrest : toldData tree [.handle ⟨.walk, rest⟩] = [.handle ⟨.walk, row.tail⟩] := by
      rw [← h.left_eq]
      rfl
    have hfirst : toldData tree ((event.map Walk.Event.data).getD []) =
        (row.head?.map tree.visitData).getD [] := by
      rw [← h.first]
      cases event with
      | none => rfl
      | some e => exact Walk.Event.told_data (h.standing e rfl)
    rw [Tree.firstVisit, ← hfirst, ← hrest]
    exact List.map_append

theorem Walk.ask_agrees {walk : Walk} (h : walk.Valid tree) (fits : tree.Fits)
    (question : WalkQuestion) : Agrees tree (walk.ask question)
      (question.answer tree (walk.left tree)) := by
  cases question with
  | next =>
    obtain ⟨event, rest, htakes⟩ := h.next_takes fits
    exact htakes.agrees
  | nextOfNode =>
    obtain ⟨event, rest, htakes⟩ := h.nextOfNode_takes fits
    exact htakes.agrees
  | skip =>
    rw [WalkQuestion.answer]
    change Agrees tree (do return [.handle ⟨.walk, ← walk.skip⟩]) _
    rcases h.skip_eq with ⟨hskip, hleft⟩ | ⟨rest, hskip, hvalid, hleft⟩
    · rw [hskip, hleft]
      exact Agrees.error (Query.Gives.lift _).bind_error.settles
    · rw [hskip, hleft]
      have hhandle : Handle.Valid tree ⟨.walk, rest⟩ := hvalid
      exact Agrees.handle hhandle rfl

/-! ## All handles -/

theorem Node.Stands.node?_eq {node : Node} (standing : node.Stands tree) :
    tree.node? node.path = some node.green := by
  rw [Tree.node?, standing.part?_eq]
  rfl

theorem Token.Stands.token?_eq {token : Token} (standing : token.Stands tree) :
    tree.token? token.path = some token.green := by
  rw [Tree.token?, standing.part?_eq]
  rfl

theorem ListView.Valid.listShape?_eq {list : ListView} (h : list.Valid tree) :
    (tree.node? list.node.path).bind (·.listShape?) = some list.shape := by
  rw [h.standing.node?_eq]
  exact h.shape

/-- **Whatever a handle of a tree is asked, it answers as the reference does.** -/
theorem HandleKind.ask_agrees {kind : HandleKind} {held : kind.Held} (h : kind.Valid tree held)
    (fits : tree.Fits) (question : kind.Question) :
    Agrees tree (kind.ask held question) (kind.answer tree (kind.told tree held) question) := by
  cases kind with
  | node =>
    have hagrees := NodeQuestion.agrees h fits question
    have hnode : tree.node? (Node.path held) = some (Node.green held) := Node.Stands.node?_eq h
    simp only [HandleKind.answer, HandleKind.told, hnode]
    exact hagrees
  | token =>
    have htoken : tree.token? (Token.path held) = some (Token.green held) :=
      Token.Stands.token?_eq h
    simp only [HandleKind.answer, HandleKind.told, htoken]
    exact TokenQuestion.agrees h fits question
  | list =>
    have hlist := ListView.Valid.listShape?_eq h
    simp only [HandleKind.answer, HandleKind.told, hlist]
    exact ListQuestion.agrees h fits question
  | slots => exact Cursor.ask_agrees h fits question
  | nodes => exact Cursor.askNodes_agrees h fits question
  | elements => exact ListView.Cursor.ask_agrees h fits question
  | walk => exact Walk.ask_agrees h fits question

end LosslessSyntax.Placed
