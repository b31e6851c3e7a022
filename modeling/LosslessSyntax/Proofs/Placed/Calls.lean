import LosslessSyntax.Proofs.Placed.Replies

/-!
# Calls in any order

A caller of a tree holds handles of the tree and a memo of the tree, whatever it has called so far.
Each reply is one that the reference admits, and so are the replies to a series of calls.

* `Placed.Handle.same?_told`: comparing handles is comparing paths;
* `Placed.Replies`: a query whose reply is admitted, whatever is in the memo;
* `Placed.Node.placedAt?_replies`, `Placed.ListView.placed?_replies`: looks at what was placed before;
* `Placed.Call.replies`: one call;
* `Placed.Facade.Valid`: what a caller can have, and `Placed.Facade.Valid.step` its next call;
* **`Placed.Facade.Valid.run_admits`**: a series of calls.
-/

namespace LosslessSyntax.Placed

variable {tree : Tree}

/-! ## Comparing -/

theorem Node.Stands.same_eq {a b : Node} (ha : a.Stands tree) (hb : b.Stands tree) :
    a.same b = decide (a.path = b.path) := by
  rw [Bool.eq_iff_iff, Node.same, beq_iff_eq, decide_eq_true_iff]
  exact ha.address_eq_iff hb

theorem Token.Stands.same_eq {a b : Token} (ha : a.Stands tree) (hb : b.Stands tree) :
    a.same b = decide (a.path = b.path) := by
  rw [Bool.eq_iff_iff, Token.same, Bool.and_eq_true, ha.parent.same_eq hb.parent,
    decide_eq_true_iff, decide_eq_true_iff, beq_iff_eq]
  constructor
  · rintro ⟨hpath, hslot⟩
    rw [Token.path, hpath, hslot, Token.path]
  · intro h
    obtain ⟨hpath, hslot⟩ := List.append_inj' h rfl
    exact ⟨hpath, (List.cons.inj hslot).1⟩

theorem Node.Stands.path_ne {node : Node} {token : Token} (hn : node.Stands tree)
    (ht : token.Stands tree) : node.path ≠ token.path := by
  intro h
  have hpart := hn.part?_eq
  rw [h, ht.part?_eq] at hpart
  cases hpart

/-- **Handles are of the same part if they have one path.** -/
theorem Handle.same?_told {a b : Handle} (ha : a.Valid tree) (hb : b.Valid tree) :
    a.same? b = (a.told tree).same? (b.told tree) := by
  obtain ⟨kind, held⟩ := a
  obtain ⟨kind', held'⟩ := b
  cases kind with
  | node =>
    cases kind' with
    | node => exact congrArg some (Node.Stands.same_eq ha hb)
    | token => exact congrArg some (decide_eq_false (Node.Stands.path_ne ha hb)).symm
    | list | slots | nodes | elements | walk => rfl
  | token =>
    cases kind' with
    | node => exact congrArg some (decide_eq_false (Ne.symm (Node.Stands.path_ne hb ha))).symm
    | token => exact congrArg some (Token.Stands.same_eq ha hb)
    | list | slots | nodes | elements | walk => rfl
  | list | slots | nodes | elements | walk => cases kind' <;> rfl

/-! ## Replies -/

/-- From every memo of the tree the query gets to a memo of the tree and to a reply that gives only
handles of the tree. If the tree is narrow the reply is one of those admitted. -/
def Replies (tree : Tree) (query : Query (List (Datum Handle)))
    (admits : Except Violation (List (Datum Ref)) → Prop) : Prop :=
  ∀ memo, tree.Keeps memo →
    ∃ (reply : Except Violation (List (Datum Handle))) (memo' : Memo), tree.Keeps memo' ∧
    (query memo = match reply with
      | .ok data => .ok data memo'
      | .error violation => .error violation memo') ∧
    (∀ data, reply = .ok data → ∀ handle ∈ handlesOf data, handle.Valid tree) ∧
    (tree.Narrow → admits (reply.map (toldData tree)))

theorem Agrees.replies {query : Query (List (Datum Handle))}
    {answer : Except Violation (List (Datum Ref))} (h : Agrees tree query answer) :
    Replies tree query (· = answer) := by
  intro memo hmemo
  obtain ⟨given, ⟨reply, hanswers, hreply⟩, hvalid, hanswer⟩ := h
  obtain ⟨memo', -, hmemo', hrun⟩ := hanswers memo hmemo
  refine ⟨reply, memo', hmemo', hrun.trans (by cases reply <;> rfl), ?_, fun narrow => ?_⟩
  · rcases hreply with rfl | ⟨⟨violation, rfl⟩, -⟩
    · exact hvalid
    · exact fun _ hdata => absurd hdata nofun
  · rcases hreply with rfl | ⟨-, hwide⟩
    · exact hanswer
    · exact absurd narrow hwide

theorem Replies.nothing : Replies tree (pure []) (· = .ok []) := (Agrees.plain rfl rfl).replies

/-! ## What was placed before -/

theorem Node.Stands.below?_of_kept {node kept : Node} (standing : node.Stands tree)
    (fits : tree.Fits) {memo : Memo} (hmemo : tree.Keeps memo) {slot : Nat}
    (h : memo[node.address.child slot]? = some kept) : node.below? slot = some (.node kept) := by
  obtain ⟨start, head, slots, hfound, hplacing, rfl⟩ := hmemo.placed node standing slot kept h
  rw [Node.placing_eq standing fits hfound] at hplacing
  cases hslot : checkSlot slot with
  | ok _ =>
    rw [hslot] at hplacing
    rw [Node.below?_of_node hfound, ← Except.ok.inj hplacing]
    rfl
  | error violation =>
    rw [hslot] at hplacing
    cases hplacing

/-- **A look into a slot finds what is in it, or nothing.** -/
theorem Node.placedAt?_run {node : Node} (standing : node.Stands tree) (fits : tree.Fits)
    (slot : Nat) {memo : Memo} (hmemo : tree.Keeps memo) :
    match node.below? slot with
    | none => node.placedAt? slot memo = .error (node.green.noSlot slot) memo
    | some below =>
      ∃ found, (found = none ∨ found.map Element.node = some below) ∧
        node.placedAt? slot memo = .ok found memo := by
  cases hfound : node.green.slots[slot]? with
  | none =>
    rw [below?, hfound]
    exact placedAt?_of_none hfound memo
  | some e =>
    have hroom := standing.checkRoom_eq fits (Green.Node.lt_arity_of_slot hfound)
    rw [placedAt?_of_room hroom hfound]
    obtain ⟨below, hbelow⟩ := Option.isSome_iff_exists.1
      (below?_isSome.2 (Green.Node.lt_arity_of_slot hfound))
    rw [hbelow]
    refine ⟨_, ?_, rfl⟩
    cases hkept : memo[node.address.child slot]? with
    | none => exact .inl rfl
    | some kept =>
      rw [standing.below?_of_kept fits hmemo hkept] at hbelow
      exact .inr hbelow

theorem Replies.ofFound {query : Query (Option Node)} {below : Element} (standing : below.Stands tree)
    (h : ∀ memo, tree.Keeps memo → ∃ found : Option Node,
      (found = none ∨ found.map Element.node = some below) ∧ query memo = .ok found memo) :
    Replies tree (do return dataOf ((← query).toList.map .node)) (tree.Finds below.path) := by
  intro memo hmemo
  obtain ⟨found, hfound, hrun⟩ := h memo hmemo
  have hquery : (do return dataOf ((← query).toList.map .node)) memo =
      EStateM.Result.ok (dataOf (found.toList.map .node)) memo := by
    change EStateM.bind query _ memo = _
    rw [EStateM.bind, hrun]
    rfl
  refine ⟨.ok (dataOf (found.toList.map .node)), memo, hmemo, hquery, ?_, fun _ => ?_⟩
  · rintro _ ⟨⟩
    rcases hfound with rfl | hsome
    · exact fun _ hmem => nomatch hmem
    · obtain ⟨n, rfl, rfl⟩ := Option.map_eq_some_iff.1 hsome
      exact valid_dataOf (List.forall_mem_singleton.2 standing)
  · rcases hfound with rfl | hsome
    · exact .inl rfl
    · obtain ⟨n, rfl, rfl⟩ := Option.map_eq_some_iff.1 hsome
      refine .inr ⟨standing.holdsNode_eq, congrArg Except.ok ?_⟩
      exact told_dataOf (List.forall_mem_singleton.2 standing)

theorem Replies.ofError {query : Query (List (Datum Handle))}
    {admits : Except Violation (List (Datum Ref)) → Prop} (violation : Violation)
    (h : ∀ memo, tree.Keeps memo → query memo = .error violation memo)
    (hadmits : tree.Narrow → admits (.error violation)) : Replies tree query admits := by
  intro memo hmemo
  exact ⟨.error violation, memo, hmemo, h memo hmemo, fun _ hdata => absurd hdata nofun, hadmits⟩

theorem Node.placedAt?_replies {node : Node} (standing : node.Stands tree) (fits : tree.Fits)
    (slot : Nat) : Replies tree (do return dataOf ((← node.placedAt? slot).toList.map .node))
      (tree.FindsSlot node.path slot) := by
  have hrun := fun memo (hmemo : tree.Keeps memo) => node.placedAt?_run standing fits slot hmemo
  cases hbelow : node.below? slot with
  | none =>
    rw [hbelow] at hrun
    have hslot : ¬ slot < node.green.slots.size := Nat.not_lt.2 (Node.below?_eq_none_iff.1 hbelow)
    refine Replies.ofError (node.green.noSlot slot) (fun memo hmemo => ?_) fun _ => ?_
    · change EStateM.bind (node.placedAt? slot) _ memo = _
      rw [EStateM.bind, hrun memo hmemo]
    · simp only [Tree.FindsSlot, standing.node?_eq, if_neg hslot]
      rfl
  | some below =>
    rw [hbelow] at hrun
    have hslot : slot < node.green.slots.size := Node.below?_isSome.1 (hbelow ▸ rfl)
    have hfinds : tree.FindsSlot node.path slot = tree.Finds below.path := by
      funext reply
      simp only [Tree.FindsSlot, standing.node?_eq, if_pos hslot, Node.below?_path hbelow]
    rw [hfinds]
    exact Replies.ofFound (standing.below? hbelow) hrun

theorem ListView.placed?_replies {list : ListView} (h : list.Valid tree) (fits : tree.Fits)
    (index : Nat) : Replies tree (do return dataOf ((← list.placed? index).toList.map .node))
      (tree.FindsElement list.node.path index) := by
  have hnodes := (h.laid fits).nodes_get.2 index
  have hfinds : tree.FindsElement list.node.path index = fun reply =>
      list.node.nodes[index]?.elim (reply = .ok []) fun below => tree.Finds below.path reply := by
    funext reply
    rw [Tree.FindsElement, h.getElem?_nodes_path]
    cases list.node.nodes[index]? <;> rfl
  rw [hfinds, hnodes]
  unfold placed?
  by_cases hindex : index < list.length
  · obtain ⟨hplace, hsome⟩ := (h.laid fits).nodeBelow?_placeOf hindex
    obtain ⟨n, hnode⟩ := Option.isSome_iff_exists.1 hsome
    have hbelow := Node.below?_of_nodeBelow? hnode
    have hrun := fun memo (hmemo : tree.Keeps memo) =>
      list.node.placedAt?_run h.standing fits (list.placeOf index) hmemo
    rw [hbelow] at hrun
    rw [if_pos hindex, if_pos hindex, hnode]
    rcases h.slotOf_cases hplace with hslot | ⟨⟨violation, hslot⟩, hwide⟩
    · rw [hslot]
      refine Replies.ofFound (h.standing.below? hbelow) fun memo hmemo => ?_
      rw [Query.lift_bind_run]
      exact hrun memo hmemo
    · rw [hslot]
      exact Replies.ofError violation (fun _ _ => rfl) fun narrow => absurd narrow hwide
  · rw [if_neg hindex, if_neg hindex]
    exact Replies.nothing

/-! ## One call -/

section

variable {found : Option Handle}

theorem Call.ask_replies (fits : tree.Fits) (kind : HandleKind) (question : kind.Question) :
    (∀ handle, found = some handle → handle.Valid tree) → Replies tree
      (match found with
      | none => return []
      | some ⟨actual, held⟩ =>
        if fitting : kind = actual then actual.ask held (fitting ▸ question) else return [])
      fun reply => match found.map (Handle.told tree) with
      | none => reply = .ok []
      | some ⟨actual, told⟩ =>
        if fitting : kind = actual then reply = actual.answer tree told (fitting ▸ question)
        else reply = .ok [] := by
  intro valid
  cases found with
  | none => exact Replies.nothing
  | some handle =>
    have hvalid := valid handle rfl
    obtain ⟨actual, held⟩ := handle
    simp only [Option.map_some, Handle.told]
    by_cases hfitting : kind = actual
    · subst hfitting
      simp only [dite_true]
      exact (HandleKind.ask_agrees hvalid fits question).replies
    · simp only [dif_neg hfitting]
      exact Replies.nothing

theorem Call.same_replies {flag? told? : Option Bool} (h : flag? = told?) :
    Replies tree (pure (flag?.toList.map .flag)) (· = .ok (told?.toList.map .flag)) := by
  subst h
  cases flag? with
  | none => exact Replies.nothing
  | some flag => exact (Agrees.plain rfl rfl).replies

theorem Call.placedAt_replies (fits : tree.Fits) (slot : Nat) :
    (∀ handle, found = some handle → handle.Valid tree) → Replies tree
      (match found with
      | some ⟨.node, node⟩ => return dataOf ((← Node.placedAt? node slot).toList.map .node)
      | _ => return [])
      fun reply => match found.map (Handle.told tree) with
      | some ⟨.node, path⟩ => tree.FindsSlot path slot reply
      | _ => reply = .ok [] := by
  intro valid
  cases found with
  | none => exact Replies.nothing
  | some handle =>
    have hvalid := valid handle rfl
    obtain ⟨actual, held⟩ := handle
    cases actual with
    | node => exact Node.placedAt?_replies hvalid fits slot
    | token | list | slots | nodes | elements | walk => exact Replies.nothing

theorem Call.placedElement_replies (fits : tree.Fits) (index : Nat) :
    (∀ handle, found = some handle → handle.Valid tree) → Replies tree
      (match found with
      | some ⟨.list, list⟩ => return dataOf ((← ListView.placed? list index).toList.map .node)
      | _ => return [])
      fun reply => match found.map (Handle.told tree) with
      | some ⟨.list, path⟩ => tree.FindsElement path index reply
      | _ => reply = .ok [] := by
  intro valid
  cases found with
  | none => exact Replies.nothing
  | some handle =>
    have hvalid := valid handle rfl
    obtain ⟨actual, held⟩ := handle
    cases actual with
    | list => exact ListView.placed?_replies hvalid fits index
    | node | token | slots | nodes | elements | walk => exact Replies.nothing

end

/-- **The reply to a call is one that the reference admits.** -/
theorem Call.replies {handles : List Handle} (valid : ∀ handle ∈ handles, handle.Valid tree)
    (fits : tree.Fits) (call : Call) :
    Replies tree (call.make handles) (call.Admits tree (handles.map (Handle.told tree))) := by
  have hfind (i : Nat) : (handles.map (Handle.told tree))[i]? = handles[i]?.map (Handle.told tree) :=
    List.getElem?_map
  have hvalid (i : Nat) : ∀ handle, handles[i]? = some handle → handle.Valid tree :=
    fun handle hhandle => valid handle (List.mem_of_getElem? hhandle)
  cases call with
  | ask i kind question =>
    have h := Call.ask_replies fits kind question (hvalid i)
    rw [← hfind] at h
    exact h
  | same a b =>
    have hsame : (handles[a]?.bind fun x => handles[b]?.bind x.same?) =
        (handles.map (Handle.told tree))[a]?.bind fun x =>
          (handles.map (Handle.told tree))[b]?.bind x.same? := by
      rw [hfind, hfind]
      cases ha : handles[a]? with
      | none => rfl
      | some x =>
        cases hb : handles[b]? with
        | none => rfl
        | some y => exact Handle.same?_told (hvalid a x ha) (hvalid b y hb)
    exact Call.same_replies hsame
  | placedAt i slot =>
    have h := Call.placedAt_replies fits slot (hvalid i)
    rw [← hfind] at h
    exact h
  | placedElement i index =>
    have h := Call.placedElement_replies fits index (hvalid i)
    rw [← hfind] at h
    exact h

/-! ## Series of calls -/

theorem handlesOf_toldData (tree : Tree) (data : List (Datum Handle)) :
    handlesOf (toldData tree data) = (handlesOf data).map (Handle.told tree) := by
  rw [handlesOf, toldData, List.filterMap_map, handlesOf, List.map_filterMap]
  refine List.filterMap_congr fun datum _ => ?_
  cases datum <;> rfl

namespace Facade

/-- A caller that has only handles of the tree, and a memo of it. -/
structure Valid (tree : Tree) (facade : Facade) : Prop where
  memo : tree.Keeps facade.memo
  handles : ∀ handle ∈ facade.handles, handle.Valid tree

/-- What stands for the handles of a caller. -/
def refs (tree : Tree) (facade : Facade) : List Ref := facade.handles.map (Handle.told tree)

variable {facade : Facade}

theorem valid_start (tree : Tree) : Valid tree (start tree.root) where
  memo := tree.keeps_empty
  handles handle hmem := by
    rw [List.mem_singleton.1 hmem]
    exact .root

/-- **A call leaves the caller with handles and a memo of the tree**, and in a narrow tree it has a
reply that is admitted. -/
theorem Valid.step (h : facade.Valid tree) (fits : tree.Fits) (call : Call) :
    (facade.step call).2.Valid tree ∧
      (tree.Narrow → call.Admits tree (facade.refs tree)
        ((facade.step call).1.map (toldData tree))) ∧
      (facade.step call).2.refs tree = facade.refs tree ++
        ((((facade.step call).1.map (toldData tree)).toOption.map handlesOf).getD []) := by
  obtain ⟨reply, memo, hmemo, hrun, hvalid, hadmits⟩ :=
    Call.replies h.handles fits call facade.memo h.memo
  unfold Facade.step
  rw [hrun]
  cases reply with
  | ok data =>
    refine ⟨⟨hmemo, fun handle hmem => ?_⟩, hadmits, ?_⟩
    · rcases List.mem_append.1 hmem with hmem | hmem
      · exact h.handles handle hmem
      · exact hvalid data rfl handle hmem
    · have hrefs : handlesOf (toldData tree data) = (handlesOf data).map (Handle.told tree) :=
        handlesOf_toldData tree data
      change (facade.handles ++ handlesOf data).map _ = _ ++ handlesOf (toldData tree data)
      rw [hrefs, List.map_append]
      rfl
  | error violation =>
    exact ⟨⟨hmemo, h.handles⟩, hadmits, (List.append_nil _).symm⟩

/-- **Whatever is called in whatever order, the replies are admitted.** -/
theorem Valid.run_admits (h : facade.Valid tree) (fits : tree.Fits) (narrow : tree.Narrow)
    (calls : List Call) :
    tree.Admits (facade.refs tree) calls ((facade.run calls).map (Except.map (toldData tree))) := by
  induction calls generalizing facade with
  | nil => exact rfl
  | cons call calls ih =>
    obtain ⟨hvalid, hadmits, hrefs⟩ := h.step fits call
    have hrest := ih hvalid
    rw [hrefs] at hrest
    exact ⟨hadmits narrow, hrest⟩

theorem Valid.after (h : facade.Valid tree) (fits : tree.Fits) (calls : List Call) :
    (facade.after calls).Valid tree := by
  induction calls generalizing facade with
  | nil => exact h
  | cons call calls ih => exact ih (h.step fits call).1

end Facade

end LosslessSyntax.Placed
