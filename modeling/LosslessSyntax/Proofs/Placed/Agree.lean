import LosslessSyntax.Proofs.Green.Pending
import LosslessSyntax.Proofs.Placed.Beside
import LosslessSyntax.Proofs.Placed.Covering
import LosslessSyntax.Proofs.Placed.ListView
import LosslessSyntax.Proofs.Placed.Reference
import LosslessSyntax.Proofs.Placed.Touching

/-!
# The answers agree

Whatever a handle of a tree is asked, its answer, told by paths, is the one of the reference.

* `Placed.Handle.Valid`: the handles of a tree;
* `Placed.Handle.told`: what stands for a handle;
* `Placed.Agrees`: a query whose answer is that of the reference;
* `Placed.NodeQuestion.agrees` and its like: the questions to one kind of handle;
* **`Placed.HandleKind.ask_agrees`**: all questions.
-/

namespace LosslessSyntax.Placed

/-- What a handle of the tree is. -/
def HandleKind.Valid (tree : Tree) : (kind : HandleKind) → kind.Held → Prop
  | node => Node.Stands tree
  | token => Token.Stands tree
  | list => ListView.Valid tree
  | slots => Cursor.Valid tree
  | nodes => Cursor.Valid tree
  | elements => ListView.Cursor.Valid tree
  | walk => Walk.Valid tree

/-- What stands for what a handle is. -/
def HandleKind.told (tree : Tree) : (kind : HandleKind) → kind.Held → kind.Told
  | node => Node.path
  | token => Token.path
  | list => fun list => Node.path (ListView.node list)
  | slots => fun cursor => (Cursor.left cursor).map Element.path
  | nodes => fun cursor => (Cursor.nodesLeft cursor).map Node.path
  | elements => fun cursor => (ListView.Cursor.left cursor).map Node.path
  | walk => Walk.left tree

/-- The handles of a tree. -/
def Handle.Valid (tree : Tree) (handle : Handle) : Prop := handle.kind.Valid tree handle.held

/-- What stands for a handle. -/
def Handle.told (tree : Tree) (handle : Handle) : Ref :=
  ⟨handle.kind, handle.kind.told tree handle.held⟩

/-- A datum with its handles replaced. -/
def Datum.map {H H' : Type} (f : H → H') : Datum H → Datum H'
  | handle h => handle (f h)
  | kind k => kind k
  | text t => text t
  | number n => number n
  | flag b => flag b
  | span s => span s
  | green e => green e
  | shape s => shape s
  | note a => note a

/-- An answer told by paths. -/
def toldData (tree : Tree) (data : List (Datum Handle)) : List (Datum Ref) :=
  data.map (Datum.map (Handle.told tree))

/-- The query has the answer of the reference, and gives only handles of the tree. -/
def Agrees (tree : Tree) (query : Query (List (Datum Handle)))
    (answer : Except Violation (List (Datum Ref))) : Prop :=
  ∃ given, Query.Settles tree query given ∧
    (∀ data, given = .ok data → ∀ handle ∈ handlesOf data, handle.Valid tree) ∧
    given.map (toldData tree) = answer

section

variable {tree : Tree} {α : Type} {row : List Element}

theorem Element.Stands.valid_part {element : Element} (standing : element.Stands tree) :
    (Handle.part element).Valid tree := by
  cases element <;> exact standing

theorem Element.Stands.told_part {element : Element} (standing : element.Stands tree) :
    (Handle.part element).told tree = tree.ref element.path := by
  rw [Tree.ref, standing.holdsNode_eq]
  cases element <;> rfl

theorem handlesOf_append {H : Type} (a b : List (Datum H)) :
    handlesOf (a ++ b) = handlesOf a ++ handlesOf b := List.filterMap_append

theorem handlesOf_dataOf (row : List Element) : handlesOf (dataOf row) = row.map Handle.part := by
  rw [handlesOf, dataOf, List.filterMap_map, ← List.filterMap_eq_map]
  rfl

theorem valid_dataOf (standing : ∀ part ∈ row, part.Stands tree) :
    ∀ handle ∈ handlesOf (dataOf row), handle.Valid tree := by
  intro handle hmem
  rw [handlesOf_dataOf, List.mem_map] at hmem
  obtain ⟨part, hpart, rfl⟩ := hmem
  exact (standing part hpart).valid_part

theorem told_dataOf (standing : ∀ part ∈ row, part.Stands tree) :
    toldData tree (dataOf row) = tree.dataOf (row.map Element.path) := by
  rw [toldData, dataOf, List.map_map, Tree.dataOf, List.map_map]
  exact List.map_congr_left fun part hpart => congrArg Datum.handle (standing part hpart).told_part

namespace Agrees

theorem ok {query : Query (List (Datum Handle))} {data : List (Datum Handle)}
    {answer : List (Datum Ref)} (h : Query.Settles tree query (.ok data))
    (valid : ∀ handle ∈ handlesOf data, handle.Valid tree) (told : toldData tree data = answer) :
    Agrees tree query (.ok answer) := by
  refine ⟨.ok data, h, fun data' hdata => ?_, congrArg Except.ok told⟩
  cases hdata
  exact valid

theorem error {query : Query (List (Datum Handle))} {violation : Violation}
    (h : Query.Settles tree query (.error violation)) : Agrees tree query (.error violation) :=
  ⟨.error violation, h, fun _ hdata => absurd hdata nofun, rfl⟩

theorem plain {data : List (Datum Handle)} {answer : List (Datum Ref)} (hnone : handlesOf data = [])
    (told : toldData tree data = answer) : Agrees tree (pure data) (.ok answer) :=
  ok (Query.Settles.pure data) (by rw [hnone]; exact fun _ hmem => nomatch hmem) told

theorem parts {query : Query α} {value : α} {f : α → List Element} {paths : List (List Nat)}
    (h : Query.Settles tree query (.ok value)) (standing : ∀ part ∈ f value, part.Stands tree)
    (hpaths : (f value).map Element.path = paths) :
    Agrees tree (do return dataOf (f (← query))) (.ok (tree.dataOf paths)) :=
  ok (h.bind_ok (Query.Settles.pure _)) (valid_dataOf standing) (hpaths ▸ told_dataOf standing)

theorem found {part : α → Element} {query : Query (Option α)} {path : Option (List Nat)}
    (h : Finds tree part query path) :
    Agrees tree (do return dataOf ((← query).toList.map part)) (.ok (tree.dataOf path.toList)) := by
  obtain ⟨found, hgives, hstanding, rfl⟩ := h
  refine parts hgives.settles (fun x hx => ?_) ?_
  · obtain ⟨y, hy, rfl⟩ := List.mem_map.1 hx
    exact hstanding y (Option.mem_toList.1 hy)
  · cases found <;> rfl

theorem foundElement {query : Query (Option Element)} {path : Option (List Nat)}
    (h : Finds tree id query path) :
    Agrees tree (do return dataOf (← query).toList) (.ok (tree.dataOf path.toList)) := by
  have hfound := found h
  simpa only [List.map_id] using hfound

theorem known {paths : List (List Nat)}
    (standing : ∀ part ∈ row, part.Stands tree) (hpaths : row.map Element.path = paths) :
    Agrees tree (pure (dataOf row)) (.ok (tree.dataOf paths)) :=
  ok (Query.Settles.pure _) (valid_dataOf standing) (hpaths ▸ told_dataOf standing)

theorem handle {handle : Handle} {ref : Ref} (valid : handle.Valid tree)
    (told : handle.told tree = ref) : Agrees tree (pure [.handle handle]) (.ok [.handle ref]) := by
  refine ok (Query.Settles.pure _) (fun h hmem => ?_) (congrArg (fun r => [Datum.handle r]) told)
  rw [List.mem_singleton.1 hmem]
  exact valid

theorem lift {value? : Except Violation α} {f : α → List (Datum Handle)}
    {answer : Except Violation (List (Datum Ref))} (hnone : ∀ value, handlesOf (f value) = [])
    (told : value?.map (fun value => toldData tree (f value)) = answer) :
    Agrees tree (do return f (← value?)) answer := by
  subst told
  cases value? with
  | error violation => exact error (Query.Gives.lift _).bind_error.settles
  | ok value =>
    have hvalue : Query.Gives tree (do return f (← liftM (Except.ok value))) (.ok (f value)) :=
      (Query.Gives.lift (.ok value)).bind_ok (Query.Gives.pure _)
    refine ok hvalue.settles ?_ rfl
    rw [hnone]
    exact fun _ hmem => nomatch hmem

end Agrees

end

/-! ## Nodes -/

section

variable {tree : Tree} {node : Node}

theorem Node.Stands.widthOf_eq (standing : node.Stands tree) :
    tree.widthOf node.path = node.width := by
  rw [Tree.widthOf, standing.part?_eq]
  rfl

theorem Node.Stands.startOf_eq (standing : node.Stands tree) :
    tree.startOf node.path = node.start := standing.start_eq.symm

theorem Node.Stands.stopOf_eq (standing : node.Stands tree) :
    tree.stopOf node.path = node.start + node.width := by
  rw [Tree.stopOf, standing.startOf_eq, standing.widthOf_eq]

theorem Node.Stands.span_eq (standing : node.Stands tree) (fits : tree.Fits) :
    node.span = .ok (tree.spanOf node.path) := by
  simp only [standing.span_ok fits, Tree.spanOf, standing.stopOf_eq, standing.startOf_eq]

theorem Node.Stands.stop_eq (standing : node.Stands tree) (fits : tree.Fits) :
    node.stop = .ok (tree.stopOf node.path) := by
  rw [Node.stop, standing.span_eq fits]
  rfl

theorem handlesOf_notes {H : Type} (notes : List Green.Annotation) :
    handlesOf (notes.map fun note => (Datum.note note : Datum H)) = [] := by
  rw [handlesOf, List.filterMap_map]
  exact List.filterMap_eq_nil_iff.2 fun _ _ => rfl

theorem Node.annotations_agrees (standing : node.Stands tree) :
    Agrees tree (do return (← node.annotations).map .note) (do
      let notes ← node.green.annotations.mapM fun note => do
        return { note with span := ← note.span.shift (tree.startOf node.path) }
      return notes.map .note) := by
  refine Agrees.lift handlesOf_notes ?_
  rw [standing.startOf_eq, Node.annotations]
  cases List.mapM (m := Except Violation) _ node.green.annotations with
  | error violation => rfl
  | ok notes =>
    change Except.ok (toldData tree (notes.map Datum.note)) = .ok (notes.map Datum.note)
    rw [toldData, List.map_map]
    rfl

theorem Node.slotAt_agrees (standing : node.Stands tree) (fits : tree.Fits) (slot : Nat) :
    Agrees tree (do return dataOf [← node.slotAt slot])
      (if slot < node.arity then .ok (tree.dataOf [node.path ++ [slot]])
      else .error (node.green.noSlot slot)) := by
  cases hbelow : node.below? slot with
  | some below =>
    rw [if_pos (Node.below?_isSome.1 (hbelow ▸ rfl)), ← Node.below?_path hbelow]
    refine Agrees.parts (f := fun part => [part]) (Node.slotAt_gives standing fits hbelow).settles
      ?_ rfl
    intro part hpart
    rw [List.mem_singleton.1 hpart]
    exact standing.below? hbelow
  | none =>
    rw [if_neg (Nat.not_lt.2 (Node.below?_eq_none_iff.1 hbelow))]
    have hanswer := node.slotAt_answers standing fits slot
    rw [hbelow] at hanswer
    exact Agrees.error hanswer.bind_error.gives.settles

theorem Node.slot?_agrees (standing : node.Stands tree) (fits : tree.Fits) (slot : Nat) :
    Agrees tree (do return dataOf (← node.slot? slot).toList)
      (.ok (tree.dataOf (if slot < node.arity then [node.path ++ [slot]] else []))) := by
  have hgives := Node.slot?_gives standing fits slot
  refine Agrees.parts (f := Option.toList) hgives.settles (fun part hpart => ?_) ?_
  · exact standing.below? (Option.mem_toList.1 hpart)
  · cases hbelow : node.below? slot with
    | some below =>
      rw [if_pos (Node.below?_isSome.1 (hbelow ▸ rfl)), ← Node.below?_path hbelow]
      rfl
    | none =>
      rw [if_neg (Nat.not_lt.2 (Node.below?_eq_none_iff.1 hbelow))]
      rfl

theorem map_filter_path {α : Type} {path : α → List Nat} {p : α → Bool} {q : List Nat → Bool}
    {row : List α} (h : ∀ x ∈ row, p x = q (path x)) :
    (row.filter p).map path = (row.map path).filter q := by
  rw [List.filter_map]
  exact congrArg (List.map path) (List.filter_congr h)

theorem Token.Stands.touches_iff {token : Token} (standing : token.Stands tree) (offset : Nat) :
    token.Touches offset ↔ tree.Touches offset token.path := by
  have hpart : tree.part? token.path = some (.token token.green) := standing.at?
  have hwidth : tree.widthOf token.path = token.green.width := by
    rw [Tree.widthOf, hpart]
    rfl
  have htext : token.text ≠ "" ↔ token.green.width ≠ 0 :=
    ⟨Token.width_ne_zero, fun h htext => h (String.utf8ByteSize_eq_zero_iff.2 htext)⟩
  rw [Token.Touches, Tree.Touches, Tree.stopOf, hwidth, htext, standing.start_eq]
  rfl

theorem Node.tokensAt_agrees (standing : node.Stands tree) (fits : tree.Fits) (offset : Nat) :
    Agrees tree (do return dataOf ((← node.tokensAt offset).toList.map .token))
      (.ok (tree.dataOf ((tree.tokens node.path).filter (tree.Touches offset ·)))) := by
  obtain ⟨found, hgives, hrow⟩ := Node.tokensAt_gives standing fits offset
  refine Agrees.parts (f := fun found => found.toList.map Element.token) hgives.settles ?_ ?_
  · intro part hpart
    obtain ⟨token, htoken, rfl⟩ := List.mem_map.1 hpart
    rw [hrow] at htoken
    exact standing.of_mem_tokens (List.mem_of_mem_filter htoken)
  · have hpaths : (found.toList.map Element.token).map Element.path = found.toList.map Token.path :=
      List.map_map
    rw [hpaths, hrow, Node.touching, ← Node.tokens_path standing]
    refine map_filter_path fun token htoken => ?_
    have htouches := (standing.of_mem_tokens htoken).touches_iff offset
    exact decide_eq_decide.2 htouches

theorem Element.Stands.holds_iff {element : Element} (standing : element.Stands tree) (span : Span)
    (stop : Nat) : element.Holds span.start span.stop stop ↔ tree.Holds span stop element.path := by
  have hwidth : tree.widthOf element.path = element.width := by
    rw [Tree.widthOf, standing.part?_eq]
    rfl
  rw [Element.Holds, Tree.Holds, Tree.stopOf, hwidth, standing.startOf_eq]

theorem Node.covering_agrees (standing : node.Stands tree) (fits : tree.Fits) (stretch : Span) :
    Agrees tree (do return dataOf [← node.covering stretch])
      (if tree.startOf node.path ≤ stretch.start ∧ stretch.stop ≤ tree.stopOf node.path then
        .ok (tree.dataOf ((tree.parts node.path).filter
          (tree.Holds stretch (tree.stopOf node.path) ·)).getLast?.toList)
      else .error (.spanOutsideNode stretch node.kind (tree.spanOf node.path))) := by
  have helement : (Element.node node).Stands tree := standing
  have hgives := Node.covering_gives standing fits stretch
  have hspan : tree.spanOf node.path =
      ⟨node.start, node.start + node.width, Nat.le_add_right _ _⟩ := by
    simp only [Tree.spanOf, standing.stopOf_eq, standing.startOf_eq]
  rw [standing.startOf_eq, standing.stopOf_eq, hspan]
  by_cases hinside : node.start ≤ stretch.start ∧ stretch.stop ≤ node.start + node.width
  · rw [if_pos hinside] at hgives ⊢
    obtain ⟨element, hlast, hgives⟩ := hgives
    have hparts : element ∈ (Element.node node).parts :=
      (List.mem_filter.1 (List.mem_of_getLast? hlast)).1
    have hpaths : (node.holding stretch).map Element.path = (tree.parts node.path).filter
        (tree.Holds stretch (node.start + node.width) ·) := by
      have hrow : (Element.node node).parts.map Element.path = tree.parts node.path :=
        helement.parts_path
      rw [← hrow]
      refine map_filter_path fun part hpart => ?_
      exact decide_eq_decide.2 ((helement.of_mem_parts hpart).holds_iff stretch _)
    refine Agrees.parts (f := fun part => [part]) hgives.settles ?_ ?_
    · intro part hpart
      rw [List.mem_singleton.1 hpart]
      exact helement.of_mem_parts hparts
    · rw [← hpaths, List.getLast?_map, hlast]
      rfl
  · rw [if_neg hinside] at hgives ⊢
    exact Agrees.error (Query.Gives.bind_error hgives).settles

theorem Node.asList_agrees (standing : node.Stands tree) :
    Agrees tree (pure (node.asList?.toList.map fun list => .handle ⟨.list, list⟩))
      (.ok (node.green.listShape?.toList.map fun _ => .handle ⟨.list, node.path⟩)) := by
  rw [Node.asList?]
  cases hshape : node.green.listShape? with
  | none => exact Agrees.plain rfl rfl
  | some shape =>
    have hvalid : Handle.Valid tree ⟨.list, ⟨node, shape⟩⟩ := ListView.Valid.mk standing hshape
    exact Agrees.handle hvalid rfl

theorem NodeQuestion.agrees (standing : node.Stands tree) (fits : tree.Fits)
    (question : NodeQuestion) : Agrees tree (question.ask node)
      (question.answer tree node.path node.green) := by
  have helement : (Element.node node).Stands tree := standing
  cases question with
  | kind => exact Agrees.plain rfl rfl
  | text =>
    have htext : node.display = node.green.text := node.green.display_eq
    exact Agrees.plain rfl (by rw [htext]; rfl)
  | width => exact Agrees.plain rfl rfl
  | start => exact Agrees.plain rfl (by rw [standing.startOf_eq]; rfl)
  | stop => exact Agrees.lift (fun _ => rfl) (by rw [standing.stop_eq fits]; rfl)
  | span => exact Agrees.lift (fun _ => rfl) (by rw [standing.span_eq fits]; rfl)
  | index =>
    have hindex : node.index = node.path.getLast?.getD 0 := helement.index_eq
    exact Agrees.plain rfl (by rw [← hindex]; rfl)
  | arity => exact Agrees.plain rfl rfl
  | green => exact Agrees.plain rfl rfl
  | annotations => exact Node.annotations_agrees standing
  | parent =>
    have hparent : node.parent?.map Node.path = _ := helement.parent_path
    refine Agrees.known (fun part hpart => ?_) ?_
    · obtain ⟨parent, hmem, rfl⟩ := List.mem_map.1 hpart
      exact (helement.below?_eq (Option.mem_toList.1 hmem)).1
    · have hpath : (node.parent?.map Node.path).toList =
          if node.path = [] then [] else [node.path.dropLast] := by
        rw [hparent]
        change (if node.path = [] then none else some node.path.dropLast).toList = _
        split_ifs <;> rfl
      rw [← hpath]
      cases node.parent? <;> rfl
  | ancestors =>
    refine Agrees.known (fun part hpart => ?_) ?_
    · obtain ⟨n, hmem, rfl⟩ := List.mem_map.1 hpart
      exact standing.of_mem_ancestors hmem
    · rw [List.map_map]
      exact standing.ancestors_path
  | slotAt slot => exact Node.slotAt_agrees standing fits slot
  | getSlot slot => exact Node.slot?_agrees standing fits slot
  | cursor =>
    refine Agrees.handle (Cursor.valid_cursor standing) (congrArg (Ref.mk .slots) ?_)
    rw [← standing.children_path, ← Cursor.cursor_left]
    rfl
  | nodeCursor =>
    refine Agrees.handle (Cursor.valid_cursor standing) (congrArg (Ref.mk .nodes) ?_)
    rw [← standing.nodes_path, ← Cursor.cursor_nodesLeft]
    rfl
  | firstNode => exact Agrees.found (standing.firstNode?_finds fits)
  | lastNode => exact Agrees.found (standing.lastNode?_finds fits)
  | nextNode => exact Agrees.found (standing.beside_finds fits).1
  | previousNode => exact Agrees.found (standing.beside_finds fits).2
  | next => exact Agrees.foundElement (helement.beside_finds fits).1
  | previous => exact Agrees.foundElement (helement.beside_finds fits).2
  | firstToken => exact Agrees.found (standing.firstToken?_finds fits)
  | lastToken => exact Agrees.found (standing.lastToken?_finds fits)
  | descendants =>
    refine Agrees.parts (f := List.map Element.node) (Node.descendants_gives standing fits).settles
      (fun part hpart => ?_) ?_
    · obtain ⟨n, hmem, rfl⟩ := List.mem_map.1 hpart
      obtain ⟨below, hbelow, hnode⟩ := List.mem_filterMap.1 hmem
      have hstanding := helement.of_mem_parts hbelow
      cases below with
      | token t => cases hnode
      | node m =>
        cases hnode
        exact hstanding
    · rw [List.map_map]
      exact helement.descendants_path
  | walk => exact Agrees.handle (Walk.valid_walk standing) (congrArg (Ref.mk .walk) (Walk.walk_left node))
  | tokensAt offset => exact Node.tokensAt_agrees standing fits offset
  | covering stretch => exact Node.covering_agrees standing fits stretch
  | asList => exact Node.asList_agrees standing

end

end LosslessSyntax.Placed
