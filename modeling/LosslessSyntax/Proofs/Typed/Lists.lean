import LosslessSyntax.Proofs.Elements
import LosslessSyntax.Proofs.Placed.Taking

/-!
# Typed lists and the lists they are views of

A part that is a list is found by its kind among the children. That its kind is one of lists is enough:
a tidy node of such a kind has a shape, so the child that is found always has a view.

A typed list has as many elements as the list itself, but those that do not belong to the form are
absent. Who asks for them by their numbers, looks for them or takes them from both ends is given the
same nodes as from the list itself, the others left out.

* `Typed.GivesFirst`, **`Typed.listOf?_givesFirst`**: the list of a kind;
* `Typed.ListOf.nth?`, `Typed.ListOf.nodes_eq`: the elements of a form, by number and in a row;
* **`Typed.ListOf.pick_takes`**: the next element of a form from one end;
* **`Typed.ListOf.takes`**: elements of a form, taken from both ends;
* `Typed.ListOf.Agrees`, **`Typed.ListOf.Lives.agrees`**: what a typed list answers.
-/

namespace LosslessSyntax

open Placed

theorem Placed.Query.bind_pure_run {α β : Type} {query : Query α} {value : α} {memo memo' : Memo}
    (h : query memo = .ok value memo') (f : α → β) :
    (do return f (← query) : Query β) memo = .ok (f value) memo' := by
  change EStateM.bind query _ memo = _
  rw [EStateM.bind, h]
  rfl

namespace Typed

section

variable {form : Form} {n : Placed.Node} {tree : Tree} {memo : Memo}

theorem cast?_isSome : (cast? form n).isSome = form.admits n.kind := by
  rw [cast?_eq]
  split_ifs with h
  · exact h.symm
  · exact (Bool.eq_false_of_not_eq_true h).symm

theorem cast?_eq_some_iff {typed : Node form} : cast? form n = some typed ↔ n = typed.node := by
  rw [cast?_eq]
  split_ifs with h
  · rw [Option.some.injEq]
    refine ⟨fun same => same ▸ rfl, ?_⟩
    rintro rfl
    rfl
  · refine iff_of_false not_false ?_
    rintro rfl
    exact h typed.admitted

/-! ## The list of a kind -/

/-- A query for the list of a kind: nothing is given exactly if no child has the kind, and else a view
of the first child that has. -/
def GivesFirst (tree : Tree) (memo : Memo) (parent : Placed.Node) (kind : Kind)
    (query : Query (Option (ListOf form))) : Prop :=
  ∃ found, Query.GivesFrom tree memo query found ∧
    (found = none ↔ ∀ child ∈ parent.nodes, child.kind ≠ kind) ∧
    ∀ list, found = some list → list.view.node.asList? = some list.view ∧
      list.view.node.kind = kind ∧ ∃ before after,
        parent.nodes = before ++ list.view.node :: after ∧ ∀ child ∈ before, child.kind ≠ kind

theorem findSome?_slots (parent : Placed.Node) (wanted : Placed.Node → Bool) :
    (slotsFrom parent 0).findSome? (fun slot => (parent.nodeBelow? slot).filter wanted) =
      parent.nodes.find? wanted := by
  rw [slotsFrom, Nat.sub_zero, ← List.range_eq_range', ← List.head?_filterMap, ← List.head?_filter,
    ← List.filterMap_eq_filter, Node.nodes, Node.nodesAt, List.filterMap_filterMap]
  simp only [Option.bind_guard]

variable (form) in
theorem listOf?_gives {parent : Placed.Node} (standing : parent.Stands tree) (fits : tree.Fits)
    (kind : Kind) : Query.Gives tree (listOf? form kind parent)
      (.ok (((parent.nodes.find? (·.kind == kind)).bind (·.asList?)).map (⟨·⟩))) := by
  have hchains := Query.chains_gives tree
  have hslot : ∀ slot ∈ slotsFrom parent 0, Query.Gives tree
      (do return (← parent.nodeAt slot).filter (·.kind == kind))
      (.ok ((parent.nodeBelow? slot).filter (·.kind == kind))) := fun slot hslot => by
    rw [slotsFrom, Nat.sub_zero, ← List.range_eq_range', List.mem_range] at hslot
    exact hchains.bind (Node.nodeAt_some standing fits hslot) (hchains.pure _)
  have hfound := hchains.findSomeM? hslot
  rw [findSome?_slots] at hfound
  exact hchains.bind hfound (hchains.pure _)

/-- **The list of a kind is the first child of the kind**, which always has a view. -/
theorem listOf?_givesFirst {parent : Placed.Node} (standing : parent.Stands tree) (fits : tree.Fits)
    (keeps : tree.Keeps memo) {kind : Kind} (isList : kind.isList = true) :
    GivesFirst tree memo parent kind (listOf? form kind parent) := by
  have hgives := (listOf?_gives form standing fits kind).givesFrom keeps
  refine ⟨_, hgives, ?_⟩
  cases hfind : parent.nodes.find? (·.kind == kind) with
  | none =>
    rw [List.find?_eq_none] at hfind
    refine ⟨iff_of_true rfl (by simpa using hfind), fun list hlist => ?_⟩
    cases hlist
  | some child =>
    obtain ⟨hkind, before, after, hcut, hbefore⟩ := List.find?_eq_some_iff_append.1 hfind
    rw [beq_iff_eq] at hkind
    have hmem : child ∈ parent.nodes := List.mem_of_find?_eq_some hfind
    obtain ⟨slot, -, hbelow⟩ := List.mem_filterMap.1 hmem
    have tidy := ((standing.nodeBelow? hbelow).wellFormed fits).tidy
    obtain ⟨shape, hshape⟩ := tidy.exists_listShape (hkind ▸ isList : child.kind.isList = true)
    have hview : child.asList? = some ⟨child, shape⟩ := by
      rw [Placed.Node.asList?, hshape]
      rfl
    rw [Option.bind_some, hview]
    refine ⟨iff_of_false (Option.some_ne_none _) fun hnone => hnone child hmem hkind, ?_⟩
    rintro _ ⟨⟩
    exact ⟨hview, hkind, before, after, hcut, by simpa using hbefore⟩

/-! ## Elements of a form -/

namespace ListOf

/-- The element of a number, if it belongs to the form. -/
def nth? (list : ListOf form) (i : Nat) : Option (Node form) :=
  list.view.node.nodes[i]?.bind (cast? form)

variable {list : ListOf form}

theorem nth?_eq_some_iff {i : Nat} {typed : Node form} :
    list.nth? i = some typed ↔ list.view.node.nodes[i]? = some typed.node := by
  simp [nth?, Option.bind_eq_some_iff, cast?_eq_some_iff]

theorem nth?_isSome {i : Nat} : (list.nth? i).isSome = true ↔
    ∃ n, list.view.node.nodes[i]? = some n ∧ form.admits n.kind = true := by
  simp [nth?, Option.isSome_bind, cast?_isSome, Option.any_eq_true]

theorem nodes_eq (laid : list.view.Laid) : list.view.node.nodes.filterMap (cast? form) =
    (List.range list.view.length).filterMap list.nth? := by
  conv_lhs => rw [laid.nodes_eq, List.filterMap_filterMap]
  refine List.filterMap_congr fun i hi => ?_
  rw [nth?, laid.nodes_get.2, if_pos (List.mem_range.1 hi)]

/-! ## Elements one by one -/

variable (form) in
/-- **The next element of the form is the first in the row of those that belong to it**, if the row is
given out one by one; the elements before it are passed by. -/
theorem pick_takes {Has : ∀ {α : Type}, Query α → α → Prop} (chains : Query.Chains Has)
    {step : ListView.Cursor → Query (Option Placed.Node × ListView.Cursor)}
    {Valid : ListView.Cursor → Prop} {left : ListView.Cursor → List Placed.Node}
    (first : ∀ cursor, Valid cursor → ∃ rest, Valid rest ∧ left rest = (left cursor).tail ∧
      Has (step cursor) ((left cursor).head?, rest))
    {cursor : ListView.Cursor} (valid : Valid cursor) {count : Nat}
    (enough : (left cursor).length ≤ count) :
    ∃ rest, Valid rest ∧
      (left rest).filterMap (cast? form) = ((left cursor).filterMap (cast? form)).tail ∧
      Has (pick step count cursor) (((left cursor).filterMap (cast? form)).head?, rest) := by
  induction count generalizing cursor with
  | zero =>
    have hnil : left cursor = [] := List.eq_nil_of_length_eq_zero (Nat.le_zero.1 enough)
    refine ⟨cursor, valid, ?_, ?_⟩
    · rw [hnil]
      rfl
    · rw [hnil]
      exact chains.pure _
  | succ count ih =>
    obtain ⟨rest, hrest, htail, hstep⟩ := first cursor valid
    unfold pick
    cases hrow : left cursor with
    | nil =>
      rw [hrow] at hstep htail
      refine ⟨rest, hrest, ?_, chains.bind hstep (chains.pure _)⟩
      rw [htail]
      rfl
    | cons n row =>
      rw [hrow] at hstep htail enough
      rw [List.tail_cons] at htail
      cases hcast : cast? form n with
      | some typed =>
        refine ⟨rest, hrest, ?_, chains.bind hstep ?_⟩
        · rw [htail, List.filterMap_cons_some hcast, List.tail_cons]
        · rw [List.head?_cons, List.filterMap_cons_some hcast, List.head?_cons]
          dsimp only
          rw [hcast]
          exact chains.pure _
      | none =>
        have hfew : (left rest).length ≤ count := htail ▸ Nat.le_of_succ_le_succ enough
        obtain ⟨last, hlast, hleft, hpick⟩ := ih hrest hfew
        rw [htail] at hleft hpick
        refine ⟨last, hlast, ?_, chains.bind hstep ?_⟩
        · rw [hleft, List.filterMap_cons_none hcast]
        · rw [List.head?_cons, List.filterMap_cons_none hcast]
          dsimp only
          rw [hcast]
          exact hpick

variable (form) in
theorem next_settles {cursor : ListView.Cursor} (h : cursor.Valid tree) (fits : tree.Fits) :
    ∃ rest : ListView.Cursor, rest.Valid tree ∧
      rest.left.filterMap (cast? form) = (cursor.left.filterMap (cast? form)).tail ∧
      Query.Settles tree (next cursor) (.ok ((cursor.left.filterMap (cast? form)).head?, rest)) :=
  pick_takes form (Query.chains_settles tree) (fun _ valid => valid.next_settles fits) h
    (Nat.le_of_eq (h.length_left fits))

variable (form) in
/-- From the back the elements that are left are a row, too, the other way round. -/
theorem nextBack_settles {cursor : ListView.Cursor} (h : cursor.Valid tree) (fits : tree.Fits) :
    ∃ rest : ListView.Cursor, rest.Valid tree ∧
      rest.left.filterMap (cast? form) = (cursor.left.filterMap (cast? form)).dropLast ∧
      Query.Settles tree (nextBack cursor)
        (.ok ((cursor.left.filterMap (cast? form)).getLast?, rest)) := by
  have first : ∀ cursor : ListView.Cursor, cursor.Valid tree → ∃ rest : ListView.Cursor,
      rest.Valid tree ∧ rest.left.reverse = cursor.left.reverse.tail ∧
      Query.Settles tree cursor.nextBack (.ok (cursor.left.reverse.head?, rest)) :=
    fun cursor valid => by
      obtain ⟨rest, hrest, hleft, hback⟩ := valid.nextBack_settles fits
      rw [List.tail_reverse, List.head?_reverse]
      exact ⟨rest, hrest, congrArg List.reverse hleft, hback⟩
  have enough : cursor.left.reverse.length ≤ cursor.length :=
    Nat.le_of_eq ((List.length_reverse).trans (h.length_left fits))
  obtain ⟨rest, hrest, hleft, hpick⟩ :=
    pick_takes form (Query.chains_settles tree) first h enough
  rw [List.filterMap_reverse, List.filterMap_reverse, List.tail_reverse] at hleft
  rw [List.filterMap_reverse, List.head?_reverse] at hpick
  exact ⟨rest, hrest, List.reverse_injective hleft, hpick⟩

/-- **The elements of a form are taken apart from both ends**, whatever others stand among them. -/
theorem takes (list : ListOf form) (h : list.view.Valid tree) (fits : tree.Fits) (plan : List End) :
    ∃ answers rest left,
      Query.Settles tree (Query.taking next nextBack plan list.view.cursor) (.ok (answers, rest)) ∧
      Dismantles plan ((List.range list.view.length).filterMap list.nth?) answers left := by
  obtain ⟨answers, rest, hsettles, hdismantles, -⟩ := (Query.chains_settles tree).taking
    (fun _ valid => next_settles form valid fits)
    (fun _ valid => nextBack_settles form valid fits) (ListView.Cursor.valid_cursor h) plan
  rw [ListView.Cursor.cursor_left h fits, nodes_eq (h.laid fits)] at hdismantles
  exact ⟨answers, rest, _, hsettles, hdismantles⟩

/-! ## Answers -/

/-- An element can be placed if its slot number can be kept; where there is no element there is nothing
to place. -/
def InReach (list : ListOf form) (i : Nat) : Prop :=
  i < list.view.length → list.view.placeOf i ≤ maxSlot

/-- From a memo, a typed list answers as the list itself does, with the same nodes, but elements that do
not belong to the form are absent. The length counts them all. Who asks for an element has it placed,
even if it is absent then; who looks for it places nothing, and finds it only if it was placed before.
Those who take elements by a plan from both ends are given what is there by number, in order. -/
structure Agrees (tree : Tree) (memo : Memo) (list : ListOf form) : Prop where
  counts : list.view.node.nodes.length = list.view.length
  same : ∀ i typed, list.nth? i = some typed ↔ list.view.node.nodes[i]? = some typed.node
  some_iff : ∀ i, (list.nth? i).isSome = true ↔
    i < list.view.length ∧ ∃ n, list.view.node.nodes[i]? = some n ∧ form.admits n.kind = true
  gets : ∀ i, list.InReach i → ∃ memo', (∀ n ∈ list.view.node.nodes[i]?, n.address ∈ memo') ∧
    list.view.get? i memo = .ok list.view.node.nodes[i]? memo' ∧
    list.get? i memo = .ok (list.nth? i) memo'
  looks : ∀ i, list.InReach i →
    list.view.placed? i memo =
      .ok (list.view.node.nodes[i]?.filter fun n => n.address ∈ memo) memo ∧
    list.placed? i memo = .ok ((list.nth? i).filter fun typed => typed.node.address ∈ memo) memo
  still : ∀ i, (list.placed? i).leaves memo = memo
  takes : ∀ plan, ∃ answers rest left,
    Query.SettlesFrom tree memo (Query.taking next nextBack plan list.view.cursor) (answers, rest) ∧
    Dismantles plan ((List.range list.view.length).filterMap list.nth?) answers left

theorem bind_filter (found : Option Placed.Node) (wanted : Placed.Node → Bool) :
    (found.filter wanted).bind (cast? form) = (found.bind (cast? form)).filter (wanted ·.node) := by
  cases found with
  | none => rfl
  | some n =>
    rw [Option.filter_some, Option.bind_some]
    cases hcast : cast? form n with
    | none =>
      split_ifs
      · exact hcast
      · rfl
    | some typed =>
      obtain rfl := cast?_eq_some_iff.1 hcast
      rw [Option.filter_some]
      split_ifs
      · exact hcast
      · rfl

theorem InReach.slotOf {i : Nat} (h : list.InReach i) (hi : i < list.view.length) :
    list.view.slotOf i = .ok (list.view.placeOf i) :=
  ListView.slotOf_of_lt (Nat.lt_of_le_of_lt (h hi) (by decide))

section

variable (lives : list.Lives tree memo) (sound : tree.Sound memo)

include lives sound

theorem Lives.run_at (fits : tree.Fits) {i : Nat} (reach : list.InReach i) :
    (∃ memo', (∀ n ∈ list.view.node.nodes[i]?, n.address ∈ memo') ∧
      list.view.get? i memo = .ok list.view.node.nodes[i]? memo') ∧
    list.view.placed? i memo =
      .ok (list.view.node.nodes[i]?.filter fun n => n.address ∈ memo) memo := by
  have laid := ListView.Lives.laid lives sound
  rw [laid.nodes_get.2]
  by_cases hi : i < list.view.length
  · obtain ⟨slot, n, hslot, hbelow, hgiven, hlook⟩ :=
      ListView.Lives.finds_at lives sound hi (reach.slotOf hi)
    rw [reach.slotOf hi] at hslot
    cases hslot
    have hnode : list.view.node.nodeBelow? (list.view.placeOf i) = some n := by
      rw [Placed.Node.nodeBelow?, hbelow]
      rfl
    have hstop := (lives.node.standing.nodeBelow? hnode).stop_le fits
    rw [if_pos ⟨by omega, reach hi⟩] at hgiven
    obtain ⟨memo', hmem, -, hget⟩ := hgiven
    rw [if_pos hi, hnode]
    refine ⟨⟨memo', ?_, hget⟩, ?_⟩
    · rintro _ ⟨⟩
      exact hmem
    · rw [hlook, Option.filter_some]
      simp only [decide_eq_true_eq]
  · rw [if_neg hi, ListView.get?, ListView.placed?, if_neg hi, if_neg hi]
    exact ⟨⟨memo, forall_mem_none, rfl⟩, rfl⟩

/-- **A typed list agrees with the list that it is a view of.** -/
theorem Lives.agrees (fits : tree.Fits) : list.Agrees tree memo where
  counts := (ListView.Lives.laid lives sound).nodes_get.1
  same _ _ := nth?_eq_some_iff
  some_iff i := by
    rw [nth?_isSome, iff_and_self]
    rintro ⟨n, hn, -⟩
    rw [← (ListView.Lives.laid lives sound).nodes_get.1]
    exact (List.getElem?_eq_some_iff.1 hn).1
  gets i reach := by
    obtain ⟨⟨memo', hmem, hget⟩, -⟩ := lives.run_at sound fits reach
    exact ⟨memo', hmem, hget, Query.bind_pure_run hget fun found => found.bind (cast? form)⟩
  looks i reach := by
    obtain ⟨-, hlook⟩ := lives.run_at sound fits reach
    have hrun := Query.bind_pure_run hlook fun found => found.bind (cast? form)
    exact ⟨hlook, hrun.trans (congrArg (EStateM.Result.ok · memo) (bind_filter _ _))⟩
  still i := (Query.leaves_bind_pure _ _).trans (ListView.leaves_placed? lives sound i)
  takes plan := by
    obtain ⟨answers, rest, left, hsettles, hrow⟩ :=
      list.takes ⟨lives.node.standing, lives.shape⟩ fits plan
    exact ⟨answers, rest, left, hsettles.settlesFrom sound.keeps, hrow⟩

end

end ListOf

end

end Typed

end LosslessSyntax
