import LosslessSyntax.Proofs.Placed.Fills
import LosslessSyntax.Proofs.Placed.ListView
import LosslessSyntax.Typed.Part

/-!
# What lists and typed parts add to the memo

The elements of a list and the parts of a typed node are placed as they are asked for. A separator is
a token, and nothing is placed for it; nor is anything for a look at what was placed before.

* `Placed.ListView.Lives`, `Typed.Node.Lives`: lists and typed nodes that were placed;
* `Placed.ListView.get?_fills` and its like: the elements of a list;
* **`Placed.ListView.leaves_separator?`**, `Placed.ListView.leaves_placed?`: separators and looks;
* `Typed.childFrom?_fills` and its like: the parts of a typed node.
-/

namespace LosslessSyntax

namespace Placed

/-! ## Lists -/

section

variable {tree : Tree} {memo memo' : Memo}

/-- A list whose node was placed. -/
structure ListView.Lives (tree : Tree) (memo : Memo) (list : ListView) : Prop where
  node : list.node.Lives tree memo
  shape : list.node.green.listShape? = some list.shape

theorem ListView.Lives.mono {list : ListView} (h : list.Lives tree memo)
    (hgrows : Memo.Grows memo memo') : list.Lives tree memo' := ⟨h.node.mono hgrows, h.shape⟩

theorem ListView.Lives.laid {list : ListView} (h : list.Lives tree memo) (sound : tree.Sound memo) :
    list.Laid := ⟨(h.node.standing.wellFormed_of_sound sound).tidy, h.shape⟩

namespace ListView

variable {list : ListView}

theorem elementNode_fills (h : list.Lives tree memo) (slot : Nat) :
    Query.Fills tree memo (list.elementNode slot) fun memo' n => n.Lives tree memo' := by
  refine (Node.slotAt_fills h.node slot).bind fun element memo' _ helement => ?_
  cases element with
  | node n => exact Query.Fills.pure helement
  | token t => exact Query.Fills.throw _

theorem element_fills (h : list.Lives tree memo) (index : Nat) :
    Query.Fills tree memo (list.element index) fun memo' n => n.Lives tree memo' := by
  unfold element
  split_ifs with hindex
  · exact Query.Fills.lift_bind fun slot _ => elementNode_fills h slot
  · exact Query.Fills.throw _

theorem get?_fills (h : list.Lives tree memo) (index : Nat) :
    Query.Fills tree memo (list.get? index) fun memo' found => ∀ n ∈ found, n.Lives tree memo' := by
  unfold get?
  split_ifs with hindex
  · refine Query.Fills.lift_bind fun slot _ => ?_
    refine (elementNode_fills h slot).bind fun n memo' _ hn => Query.Fills.pure ?_
    rintro _ ⟨⟩
    exact hn
  · exact Query.Fills.pure forall_mem_none

theorem placed?_fills (h : list.Lives tree memo) (index : Nat) :
    Query.Fills tree memo (list.placed? index) fun memo' found =>
      ∀ n ∈ found, n.Lives tree memo' := by
  unfold placed?
  split_ifs with hindex
  · exact Query.Fills.lift_bind fun slot _ => Node.placedAt?_fills h.node slot
  · exact Query.Fills.pure forall_mem_none

theorem separator?_fills (h : list.Lives tree memo) (index : Nat) :
    Query.Fills tree memo (list.separator? index) fun memo' found =>
      ∀ t ∈ found, t.Lives tree memo' := by
  unfold separator?
  split
  · refine Query.Fills.lift_bind fun slot _ => ?_
    refine (Node.slot?_fills h.node (slot + 1)).bind fun found memo' _ hfound => ?_
    refine Query.Fills.pure fun t ht => ?_
    obtain ⟨element, helement, htoken⟩ := Option.bind_eq_some_iff.1 ht
    have hlives := hfound element helement
    cases element with
    | node n => cases htoken
    | token t' =>
      cases htoken
      exact hlives
  all_goals exact Query.Fills.pure forall_mem_none

theorem separators_fills (h : list.Lives tree memo) :
    Query.Fills tree memo list.separators fun memo' found => ∀ t ∈ found, t.Lives tree memo' := by
  have hrow : ∀ (row : List Nat) {memo}, list.Lives tree memo →
      Query.Fills tree memo (row.mapM list.separator?) fun memo' found =>
        ∀ t, some t ∈ found → t.Lives tree memo' := by
    intro row
    induction row with
    | nil => exact fun _ => Query.Fills.pure fun t ht => absurd ht List.not_mem_nil
    | cons index row ih =>
      intro memo h
      rw [List.mapM_cons]
      refine (separator?_fills h index).bind fun first m₁ h₁ hfirst => ?_
      refine (ih (h.mono h₁.grows)).bind fun rest m₂ h₂ hrest => Query.Fills.pure fun t ht => ?_
      rcases List.mem_cons.1 ht with ht | ht
      · exact (hfirst t ht.symm).mono h₂.grows
      · exact hrest t ht
  refine (hrow _ h).bind fun found memo' _ hfound => Query.Fills.pure fun t ht => ?_
  obtain ⟨x, hx, hsome⟩ := List.mem_filterMap.1 ht
  exact hfound t (hsome ▸ hx)

theorem below?_odd (h : list.Lives tree memo) (sound : tree.Sound memo)
    (hshape : list.shape = .separated) {index : Nat} {element : Element}
    (hbelow : list.node.below? (index * 2 + 1) = some element) : ∃ token, element = .token token := by
  have hplace := (h.laid sound).tidy.isNode_slot h.shape (Node.below?_green hbelow)
  cases element with
  | token token => exact ⟨token, rfl⟩
  | node n =>
    rcases hplace.1 rfl with hplain | heven
    · exact absurd hshape hplain
    · omega

/-- **For a separator nothing is placed.** -/
theorem leaves_separator? (h : list.Lives tree memo) (sound : tree.Sound memo) (index : Nat) :
    Query.leaves (list.separator? index) memo = memo := by
  unfold separator?
  cases hshape : list.shape with
  | empty | single | many => rfl
  | separated =>
    dsimp only
    rw [Query.leaves_lift_bind]
    cases htwice : twice index with
    | error violation => rfl
    | ok slot =>
      have hslot : slot = index * 2 := by
        unfold twice at htwice
        split_ifs at htwice
        exact (Except.ok.inj htwice).symm
      dsimp only
      rw [hslot, Query.leaves_bind_pure]
      unfold Node.slot?
      split_ifs with hinside
      · obtain ⟨element, hbelow⟩ := Option.isSome_iff_exists.1 (Node.below?_isSome.2 hinside)
        obtain ⟨token, rfl⟩ := below?_odd h sound hshape hbelow
        rw [Query.leaves_map]
        exact Node.leaves_slotAt_of_token sound h.node.standing hbelow
      · rfl

theorem leaves_placed? (h : list.Lives tree memo) (sound : tree.Sound memo) (index : Nat) :
    Query.leaves (list.placed? index) memo = memo := by
  unfold placed?
  split_ifs with hindex
  · rw [Query.leaves_lift_bind]
    cases list.slotOf index with
    | ok slot => exact Node.leaves_placedAt? sound h.node.standing slot
    | error violation => rfl
  · rfl

/-- A cursor over the elements of a list whose node was placed. -/
def Cursor.Lives (tree : Tree) (memo : Memo) (cursor : Cursor) : Prop :=
  cursor.list.Lives tree memo

namespace Cursor

variable {cursor : Cursor}

theorem Lives.mono (h : cursor.Lives tree memo) (hgrows : Memo.Grows memo memo') :
    cursor.Lives tree memo' := ListView.Lives.mono h hgrows

theorem next_fills (h : cursor.Lives tree memo) :
    Query.Fills tree memo cursor.next fun memo' (found, rest) =>
      (∀ n ∈ found, n.Lives tree memo') ∧ rest.Lives tree memo' := by
  unfold next
  split_ifs with hend
  · exact Query.Fills.pure ⟨forall_mem_none, h⟩
  · refine (element_fills h cursor.front).bind fun n memo' hext hn => ?_
    refine Query.Fills.pure ⟨?_, ListView.Lives.mono h hext.grows⟩
    rintro _ ⟨⟩
    exact hn

theorem nextBack_fills (h : cursor.Lives tree memo) :
    Query.Fills tree memo cursor.nextBack fun memo' (found, rest) =>
      (∀ n ∈ found, n.Lives tree memo') ∧ rest.Lives tree memo' := by
  unfold nextBack
  split_ifs with hend
  · exact Query.Fills.pure ⟨forall_mem_none, h⟩
  · refine (element_fills h (cursor.back - 1)).bind fun n memo' hext hn => ?_
    refine Query.Fills.pure ⟨?_, ListView.Lives.mono h hext.grows⟩
    rintro _ ⟨⟩
    exact hn

end Cursor

end ListView

end

end Placed

/-! ## Typed parts -/

namespace Typed

open Placed

section

variable {tree : Tree} {memo memo' : Memo} {node : Placed.Node} {form : Form}

/-- A typed node that was placed. -/
def Node.Lives (tree : Tree) (memo : Memo) (typed : Node form) : Prop := typed.node.Lives tree memo

theorem cast?_lives {n : Placed.Node} (h : n.Lives tree memo) {typed : Node form}
    (hcast : cast? form n = some typed) : typed.Lives tree memo := by
  rw [cast?_eq] at hcast
  split_ifs at hcast with hadmits
  cases hcast
  exact h

theorem findSomeM?_fills {α : Type} {ask : Nat → Query (Option α)} {claim : Memo → α → Prop}
    (h : ∀ {memo} (slot : Nat), node.Lives tree memo → Query.Fills tree memo (ask slot)
      fun memo' found => ∀ x ∈ found, claim memo' x) (hnode : node.Lives tree memo)
    (slots : List Nat) : Query.Fills tree memo (slots.findSomeM? ask) fun memo' found =>
      ∀ x ∈ found, claim memo' x := by
  induction slots generalizing memo with
  | nil => exact Query.Fills.pure forall_mem_none
  | cons slot slots ih =>
    refine (h slot hnode).bind fun found memo' hext hfound => ?_
    cases found with
    | some x => exact Query.Fills.pure hfound
    | none => exact ih (hnode.mono hext.grows)

theorem childFrom?_fills (h : node.Lives tree memo) (first : Nat) :
    Query.Fills tree memo (childFrom? form node first) fun memo' found =>
      ∀ typed ∈ found, typed.Lives tree memo' := by
  refine findSomeM?_fills (fun slot h => ?_) h _
  refine (Node.nodeAt_fills h slot).bind fun found memo' _ hfound => Query.Fills.pure ?_
  intro typed htyped
  obtain ⟨n, hn, hcast⟩ := Option.bind_eq_some_iff.1 htyped
  exact cast?_lives (hfound n hn) hcast

theorem token?_fills (wanted : Kind → Bool) (h : node.Lives tree memo) :
    Query.Fills tree memo (token? wanted node) fun memo' found =>
      ∀ t ∈ found, t.Lives tree memo' := by
  refine findSomeM?_fills (fun slot h => ?_) h _
  refine (Node.slotAt_fills h slot).bind fun element memo' _ helement => Query.Fills.pure ?_
  intro t ht
  have htoken := (Option.filter_eq_some_iff.1 ht).1
  cases element with
  | node n => cases htoken
  | token t' =>
    cases htoken
    exact helement

/-- A typed list whose node was placed. -/
def ListOf.Lives (tree : Tree) (memo : Memo) (list : ListOf form) : Prop := list.view.Lives tree memo

theorem asList?_lives (h : node.Lives tree memo) {list : ListView}
    (hlist : node.asList? = some list) : list.Lives tree memo := by
  obtain ⟨shape, hshape, rfl⟩ := Option.map_eq_some_iff.1 hlist
  exact ⟨h, hshape⟩

theorem listOf?_fills (kind : Kind) (h : node.Lives tree memo) :
    Query.Fills tree memo (listOf? form kind node) fun memo' found =>
      ∀ list ∈ found, list.Lives tree memo' := by
  have hfind : Query.Fills tree memo ((slotsFrom node 0).findSomeM? fun slot => do
      return (← node.nodeAt slot).filter (·.kind == kind)) fun memo' found =>
        ∀ n ∈ found, n.Lives tree memo' := by
    refine findSomeM?_fills (fun slot h => ?_) h _
    refine (Node.nodeAt_fills h slot).bind fun found memo' _ hfound => Query.Fills.pure ?_
    exact fun n hn => hfound n (Option.filter_eq_some_iff.1 hn).1
  refine hfind.bind fun found memo' _ hfound => Query.Fills.pure fun list hlist => ?_
  obtain ⟨view, hview, rfl⟩ := Option.map_eq_some_iff.1 hlist
  obtain ⟨n, hn, hview⟩ := Option.bind_eq_some_iff.1 hview
  exact asList?_lives (hfound n hn) hview

theorem Node.rhs?_fills {typed : Node .binaryExpr} (h : typed.Lives tree memo) :
    Query.Fills tree memo typed.rhs? fun memo' found => ∀ n ∈ found, n.Lives tree memo' := by
  refine (childFrom?_fills h 0).bind fun found memo' hext hfound => ?_
  cases found with
  | none => exact Query.Fills.pure forall_mem_none
  | some lhs => exact childFrom?_fills (Placed.Node.Lives.mono h hext.grows) _

namespace ListOf

variable {list : ListOf form}

theorem get?_fills (h : list.Lives tree memo) (index : Nat) :
    Query.Fills tree memo (list.get? index) fun memo' found =>
      ∀ typed ∈ found, typed.Lives tree memo' := by
  refine (ListView.get?_fills h index).bind fun found memo' _ hfound => Query.Fills.pure ?_
  intro typed htyped
  obtain ⟨n, hn, hcast⟩ := Option.bind_eq_some_iff.1 htyped
  exact cast?_lives (hfound n hn) hcast

theorem placed?_fills (h : list.Lives tree memo) (index : Nat) :
    Query.Fills tree memo (list.placed? index) fun memo' found =>
      ∀ typed ∈ found, typed.Lives tree memo' := by
  refine (ListView.placed?_fills h index).bind fun found memo' _ hfound => Query.Fills.pure ?_
  intro typed htyped
  obtain ⟨n, hn, hcast⟩ := Option.bind_eq_some_iff.1 htyped
  exact cast?_lives (hfound n hn) hcast

theorem pick_fills {step : ListView.Cursor → Query (Option Placed.Node × ListView.Cursor)}
    (hstep : ∀ {memo cursor}, ListView.Cursor.Lives tree memo cursor →
      Query.Fills tree memo (step cursor) fun memo' (found, rest) =>
        (∀ n ∈ found, n.Lives tree memo') ∧ rest.Lives tree memo')
    {cursor : ListView.Cursor} (h : cursor.Lives tree memo) (count : Nat) :
    Query.Fills tree memo (pick step count cursor) fun memo' (found, rest) =>
      (∀ typed ∈ (found : Option (Node form)), typed.Lives tree memo') ∧ rest.Lives tree memo' := by
  induction count generalizing memo cursor with
  | zero => exact Query.Fills.pure ⟨forall_mem_none, h⟩
  | succ count ih =>
    refine (hstep h).bind fun answer memo' hext hanswer => ?_
    obtain ⟨found, rest⟩ := answer
    cases found with
    | none => exact Query.Fills.pure ⟨forall_mem_none, hanswer.2⟩
    | some n =>
      dsimp only
      cases hcast : cast? form n with
      | none => exact ih hanswer.2
      | some typed =>
        refine Query.Fills.pure ⟨?_, hanswer.2⟩
        rintro _ ⟨⟩
        exact cast?_lives (hanswer.1 n rfl) hcast

end ListOf

end

end Typed

end LosslessSyntax
