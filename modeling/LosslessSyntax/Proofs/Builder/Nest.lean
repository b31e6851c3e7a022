import LosslessSyntax.Proofs.Builder.Agree
import LosslessSyntax.Proofs.Session

/-!
# Builders with a list for each entry

A nest is a builder that keeps the children of each open entry in a list of their own and interns
nothing. A builder keeps them all in one row and knows only where in it each entry begins; still the
two give the same answers to all events, and trees that are alike in the end.

* `Nest`, `Nest.Frame`: open entries with their children;
* `Nest.step`, `Nest.run`, `Nest.finish`: the events, and the end;
* `Nest.row`, `Nest.entries`: the row and the marks of a nest;
* `Builder.Flattens`: a builder that has the marks of a nest, and copies of its row;
* **`Builder.Flattens.step`**: an event gets the same answer and keeps this so;
* **`Builder.run_agrees`**: all events do, and the trees that are built are alike.
-/

namespace LosslessSyntax

open Green Green.Make
open Builder (Layout Event Answer)

/-! ## The nest -/

/-- An open entry, with the children that it has so far. -/
structure Nest.Frame where
  layout : Layout
  kind : Kind
  children : List Element

/-- A tree that is being built: the children outside of all entries, and the open entries, the
innermost first. -/
structure Nest where
  supply : Nat
  top : List Element
  opened : List Nest.Frame

namespace Nest

/-- A nest for a new tree. -/
def start (supply : Nat) : Nest := ⟨supply, [], []⟩

/-- All children from left to right, those outside of all entries being `top`. -/
def row (top : List Element) : List Frame → List Element
  | [] => top
  | frame :: outer => row top outer ++ frame.children

/-- The entries with the places where their children begin. -/
def entries (top : List Element) : List Frame → List Builder.Entry
  | [] => []
  | frame :: outer => ⟨frame.layout, frame.kind, (row top outer).length⟩ :: entries top outer

/-- The number of all children. -/
def mark (nest : Nest) : Nat := (row nest.top nest.opened).length

/-- The children of the innermost entry. -/
def inner (nest : Nest) : List Element :=
  match nest.opened with
  | [] => nest.top
  | frame :: _ => frame.children

/-- The children that come before those of the innermost entry. -/
def around (nest : Nest) : List Element :=
  match nest.opened with
  | [] => []
  | _ :: outer => row nest.top outer

/-- Other children for the innermost entry. -/
def withInner (nest : Nest) (children : List Element) : Nest :=
  match nest.opened with
  | [] => { nest with top := children }
  | frame :: outer => { nest with opened := { frame with children } :: outer }

/-- More children for the innermost entry. -/
def append (nest : Nest) (more : List Element) : Nest := nest.withInner (nest.inner ++ more)

/-- A new innermost entry. -/
def enter (nest : Nest) (frame : Frame) : Nest := { nest with opened := frame :: nest.opened }

/-- Opens a node at a mark: the children of the innermost entry from there on become its own. -/
def openNodeAt (nest : Nest) (mark : Nat) (kind : Kind) : Answer × Nest :=
  if nest.mark < mark then (.error (.violated .markBeyondChildren), nest)
  else if mark < nest.around.length then (.error (.violated .markBeforeEntry), nest)
  else
    let kept := mark - nest.around.length
    (.ok none, (nest.withInner (nest.inner.take kept)).enter ⟨.node, kind, nest.inner.drop kept⟩)

/-- The node of a layout over some slots. -/
def makeNode : Layout → Kind → Array Element → Make Node
  | .node => Node.plain
  | .list => Node.ofListSlots

/-- Closes the innermost entry, which has to have the layout; otherwise its children go to the entry
around it. All is forgotten if the children do not make a node. -/
def close (nest : Nest) (layout : Layout) : Answer × Nest :=
  match nest.opened with
  | [] => (.error (.violated .nothingOpen), nest)
  | frame :: outer =>
    if frame.layout = layout then
      match makeNode layout frame.kind frame.children.toArray nest.supply with
      | .ok node supply => (.ok none, append ⟨supply, nest.top, outer⟩ [node.toElement])
      | .error (.rejected error) supply => (.error (.rejected error), start supply)
      | .error (.violated rule) supply => (.error (.violated rule), ⟨supply, nest.top, outer⟩)
    else (.error (.violated layout.mismatch), append { nest with opened := outer } frame.children)

/-- A token with the given pieces of trivia. -/
def makeToken (leading : List Trivia.Piece) (kind : Kind) (text : String)
    (trailing : List Trivia.Piece) : Make Token := do
  let before ← Trivia.ofPieces leading
  let after ← Trivia.ofPieces trailing
  Token.make before kind text after

/-- Adds a token. -/
def addToken (nest : Nest) (request : Make Token) : Answer × Nest :=
  match request nest.supply with
  | .ok token supply => (.ok none, append { nest with supply } [.token token])
  | .error failure supply => (.error failure, { nest with supply })

/-- The answer to an event, and the nest after it. -/
def step (nest : Nest) : Event → Answer × Nest
  | .openNode kind => (.ok none, nest.enter ⟨.node, kind, []⟩)
  | .openList kind => (.ok none, nest.enter ⟨.list, kind, []⟩)
  | .openNodeAt mark kind => nest.openNodeAt mark kind
  | .closeNode => nest.close .node
  | .closeList => nest.close .list
  | .token kind text => nest.addToken (makeToken [] kind text [])
  | .triviaToken leading kind text trailing =>
    nest.addToken (makeToken leading kind text trailing)
  | .subtree node => (.ok none, nest.append [node.toElement])
  | .mark => (.ok (some nest.mark), nest)

/-- The answers to a row of events, and the nest after them. -/
def run (nest : Nest) : List Event → List Answer × Nest
  | [] => ([], nest)
  | event :: events =>
    let (answer, nest) := nest.step event
    let (answers, nest) := nest.run events
    (answer :: answers, nest)

/-- The root, if it is the only child and nothing is open. -/
def finish (nest : Nest) : Except Failure Node :=
  if nest.opened.isEmpty then
    match nest.top with
    | [.node head slots] => .ok ⟨head, slots⟩
    | children => .error (.rejected (.notOneRoot children.length))
  else .error (.rejected (.leftOpen nest.opened.length))

end Nest

/-! ## The row and the marks of a nest -/

namespace Nest

variable (nest : Nest) (children : List Element)

theorem row_eq : row nest.top nest.opened = nest.around ++ nest.inner := by
  obtain ⟨supply, top, opened⟩ := nest
  cases opened <;> rfl

theorem supply_withInner : (nest.withInner children).supply = nest.supply := by
  obtain ⟨supply, top, opened⟩ := nest
  cases opened <;> rfl

theorem row_withInner : row (nest.withInner children).top (nest.withInner children).opened =
    nest.around ++ children := by
  obtain ⟨supply, top, opened⟩ := nest
  cases opened <;> rfl

theorem entries_withInner :
    entries (nest.withInner children).top (nest.withInner children).opened =
      entries nest.top nest.opened := by
  obtain ⟨supply, top, opened⟩ := nest
  cases opened <;> rfl

theorem supply_append : (nest.append children).supply = nest.supply := supply_withInner _ _

theorem row_append : row (nest.append children).top (nest.append children).opened =
    row nest.top nest.opened ++ children := by
  rw [append, row_withInner, row_eq, List.append_assoc]

theorem entries_append : entries (nest.append children).top (nest.append children).opened =
    entries nest.top nest.opened := entries_withInner _ _

theorem row_enter (frame : Frame) : row (nest.enter frame).top (nest.enter frame).opened =
    row nest.top nest.opened ++ frame.children := rfl

theorem entries_enter (frame : Frame) :
    entries (nest.enter frame).top (nest.enter frame).opened =
      ⟨frame.layout, frame.kind, (row nest.top nest.opened).length⟩ ::
        entries nest.top nest.opened := rfl

/-- The children of the innermost entry begin where those around it end. -/
theorem entries_head_iff (mark : Nat) :
    (entries nest.top nest.opened).head?.any (mark < ·.first) = true ↔
      mark < nest.around.length := by
  obtain ⟨supply, top, opened⟩ := nest
  cases opened <;> simp [entries, around]

/-- What a layout makes of some slots: it finds their shape, and makes the node. -/
theorem makeNode_eq (layout : Layout) (kind : Kind) (slots : Array Element) (supply : Nat) :
    makeNode layout kind slots supply =
      match layout.shapeOf kind slots with
      | .error error => .error (.rejected error) supply
      | .ok shape => Node.make kind shape none slots supply := by
  cases layout with
  | node =>
    rw [makeNode, Node.plain_eq, Layout.shapeOf]
    split_ifs <;> rfl
  | list =>
    change EStateM.bind (liftM (listShapeOf kind slots)) _ supply = _
    rw [Layout.shapeOf]
    cases listShapeOf kind slots <;> rfl

theorem makeToken_supply (leading : List Trivia.Piece) (kind : Kind) (text : String)
    (trailing : List Trivia.Piece) (supply : Nat) :
    match makeToken leading kind text trailing supply with
    | .ok token next => token.id = supply ∧ next = supply + 1
    | .error _ next => next = supply := by
  change match EStateM.bind (liftM (Trivia.ofPieces leading)) (fun before =>
      EStateM.bind (liftM (Trivia.ofPieces trailing)) fun after =>
        Token.make before kind text after) supply with
    | .ok token next => token.id = supply ∧ next = supply + 1
    | .error _ next => next = supply
  cases Trivia.ofPieces leading with
  | error violation => rfl
  | ok before =>
    cases Trivia.ofPieces trailing with
    | error violation => rfl
    | ok after =>
      change match Token.make before kind text after supply with
        | .ok token next => token.id = supply ∧ next = supply + 1
        | .error _ next => next = supply
      rw [Token.make_run]
      split_ifs
      · exact ⟨rfl, rfl⟩
      · rfl
      · rfl

end Nest

theorem Builder.Layout.shapeOf_congr (layout : Layout) (kind : Kind) {slots : Array Element}
    {row : List Element} (h : Element.AlikeRows slots.toList row) :
    layout.shapeOf kind slots = layout.shapeOf kind row.toArray := by
  cases layout with
  | node => rfl
  | list => rw [Layout.shapeOf, Layout.shapeOf, listShapeOf_congr kind h]

/-! ## Builders as nests -/

/-- The builder has the marks of the nest, and copies of its row; what is older than `base` was not
made by the nest, so it is the same in both. -/
structure Builder.Flattens (base : Nat) (builder : Builder) (nest : Nest) : Prop where
  supply : base ≤ nest.supply
  opened : builder.opened = Nest.entries nest.top nest.opened
  children : List.Forall₂ (Element.Copies base) builder.children.toList
    (Nest.row nest.top nest.opened)

namespace Builder.Flattens

variable {base : Nat} {builder : Builder} {nest : Nest} {parts : Set Element}

theorem start (supply supply' : Nat) (interner : Interner) :
    Flattens supply' (Builder.start supply interner) (Nest.start supply') :=
  ⟨Nat.le_refl _, rfl, .nil⟩

theorem mark (h : Flattens base builder nest) : builder.mark = nest.mark := by
  rw [Builder.mark, Nest.mark, ← h.children.length_eq, Array.length_toList]

theorem push (h : Flattens base builder nest) {e e' : Element} (he : e.Copies base e') :
    Flattens base { builder with children := builder.children.push e } (nest.append [e']) where
  supply := by
    rw [Nest.supply_append]
    exact h.supply
  opened := by rw [Nest.entries_append, h.opened]
  children := by
    rw [Nest.row_append, Array.toList_push]
    exact List.rel_append h.children (.cons he .nil)

theorem enter (h : Flattens base builder nest) (layout : Layout) (kind : Kind) :
    Flattens base { builder with opened := ⟨layout, kind, builder.mark⟩ :: builder.opened }
      (nest.enter ⟨layout, kind, []⟩) where
  supply := h.supply
  opened := by rw [Nest.entries_enter, h.mark, h.opened, Nest.mark]
  children := by
    rw [Nest.row_enter, List.append_nil]
    exact h.children

theorem openNodeAt (h : Flattens base builder nest) (place : Nat) (kind : Kind) :
    ((Event.openNodeAt place kind).step builder).1 = (nest.openNodeAt place kind).1 ∧
      Flattens base ((Event.openNodeAt place kind).step builder).2 (nest.openNodeAt place kind).2 := by
  rw [Event.step_openNodeAt, Nest.openNodeAt, h.opened, h.mark]
  have hhead := Nest.entries_head_iff nest place
  by_cases hbeyond : nest.mark < place
  · rw [if_pos hbeyond, if_pos hbeyond]
    exact ⟨rfl, h⟩
  rw [if_neg hbeyond, if_neg hbeyond]
  by_cases hbefore : place < nest.around.length
  · rw [if_pos (hhead.2 hbefore), if_pos hbefore]
    exact ⟨rfl, h⟩
  rw [if_neg (mt hhead.1 hbefore), if_neg hbefore]
  have hmark : nest.mark = nest.around.length + nest.inner.length := by
    rw [Nest.mark, Nest.row_eq, List.length_append]
  dsimp only
  refine ⟨rfl, (Nest.supply_withInner nest _).symm ▸ h.supply, ?_, ?_⟩
  · rw [Nest.entries_enter, Nest.entries_withInner, Nest.row_withInner, List.length_append,
      List.length_take, show nest.around.length + min (place - nest.around.length)
        nest.inner.length = place by omega]
  · rw [Nest.row_enter, Nest.row_withInner, List.append_assoc, List.take_append_drop, ← Nest.row_eq]
    exact h.children

theorem close (h : Flattens base builder nest) (hb : Builder.InStock parts builder)
    (layout : Layout) : (layout.close.step builder).1 = (nest.close layout).1 ∧
      Flattens base (layout.close.step builder).2 (nest.close layout).2 := by
  obtain ⟨supply, top, opened⟩ := nest
  have hopened := h.opened
  have hchildren := h.children
  rw [Event.step_close, Nest.close]
  cases opened with
  | nil =>
    rw [hopened]
    exact ⟨rfl, h⟩
  | cons frame outer =>
    rw [hopened]
    dsimp only [Nest.entries]
    by_cases hlayout : frame.layout = layout
    · rw [if_pos hlayout, if_pos hlayout]
      have hslots : List.Forall₂ (Element.Copies base) (builder.children.extract
          (Nest.row top outer).length builder.children.size).toList frame.children := by
        have hdrop := List.forall₂_drop (Nest.row top outer).length hchildren
        rwa [Nest.row, List.drop_left, ← toList_cutOff] at hdrop
      have houtside : List.Forall₂ (Element.Copies base)
          (builder.children.take (Nest.row top outer).length).toList (Nest.row top outer) := by
        have htake := List.forall₂_take (Nest.row top outer).length hchildren
        rwa [Nest.row, List.take_left, ← toList_keep] at htake
      have halike := Element.alikeRows_of_copies hslots
      have hheld : ∀ e ∈ builder.children.extract (Nest.row top outer).length
          builder.children.size, e ∈ parts := fun e he => hb.children e (mem_of_mem_cutOff he)
      rw [Nest.makeNode_eq, layout.shapeOf_congr frame.kind halike]
      cases layout.shapeOf frame.kind frame.children.toArray with
      | error error => exact ⟨rfl, h.supply, rfl, .nil⟩
      | ok shape =>
        have hmake : Agree (fun kept made => kept.1.toElement.Alike made.toElement)
            (builder.interner.node frame.kind shape (builder.children.extract
              (Nest.row top outer).length builder.children.size))
            (Node.make frame.kind shape none frame.children.toArray) :=
          Interner.node_agrees hb.stock hb.interner frame.kind shape hheld halike
        have hagree := hmake builder.supply supply
        dsimp only
        rw [Event.wrapped]
        rw [Node.make_run] at hagree ⊢
        dsimp only at hagree ⊢
        generalize hgiven : builder.interner.node frame.kind shape (builder.children.extract
          (Nest.row top outer).length builder.children.size) builder.supply = made at hagree ⊢
        split_ifs at hagree ⊢ with hwidth
        · cases made with
          | ok made supply' =>
            have hleft : Flattens base ⟨supply', made.2, Nest.entries top outer,
              builder.children.take (Nest.row top outer).length⟩ ⟨supply + 1, top, outer⟩ :=
              ⟨Nat.le_succ_of_le h.supply, rfl, houtside⟩
            have hrow := Interner.slots_of_node hb.stock hb.interner hheld hgiven
            exact ⟨rfl, hleft.push (.ofNode hagree h.supply (hrow ▸ hslots))⟩
          | error failure supply' => exact hagree.elim
        · cases made with
          | ok made supply' => exact hagree.elim
          | error failure supply' =>
            subst hagree
            exact ⟨rfl, h.supply, rfl, houtside⟩
    · rw [if_neg hlayout, if_neg hlayout]
      refine ⟨rfl, ?_, ?_, ?_⟩
      · rw [Nest.supply_append]
        exact h.supply
      · rw [Nest.entries_append]
      · rw [Nest.row_append]
        exact hchildren

theorem tokened (h : Flattens base builder nest) (leading : List Trivia.Piece) (kind : Kind)
    (text : String) (trailing : List Trivia.Piece) :
    let left := Event.tokened builder
      (Event.tokenRequest builder.interner leading kind text trailing)
    let right := nest.addToken (Nest.makeToken leading kind text trailing)
    left.1 = right.1 ∧ Flattens base left.2 right.2 := by
  have hagree : Agree (fun asked made => (Element.token asked.1).Alike (.token made))
      (Event.tokenRequest builder.interner leading kind text trailing)
      (Nest.makeToken leading kind text trailing) :=
    Agree.lift fun before _ => Agree.lift fun after _ =>
      builder.interner.token_agrees before kind text after
  have hrun := hagree builder.supply nest.supply
  have hnew := Nest.makeToken_supply leading kind text trailing nest.supply
  have hbase := h.supply
  dsimp only
  rw [Event.tokened, Nest.addToken]
  generalize Event.tokenRequest builder.interner leading kind text trailing builder.supply = left
    at hrun ⊢
  generalize Nest.makeToken leading kind text trailing nest.supply = right at hrun hnew ⊢
  cases left with
  | ok asked supply =>
    cases right with
    | ok made supply' =>
      obtain ⟨hid, rfl⟩ := hnew
      have hleft : Flattens base { builder with supply, interner := asked.2 }
        { nest with supply := nest.supply + 1 } := ⟨Nat.le_succ_of_le hbase, h.opened, h.children⟩
      exact ⟨rfl, hleft.push (.ofToken hrun (hid ▸ hbase))⟩
    | error failure supply' => exact hrun.elim
  | error failure supply =>
    cases right with
    | ok made supply' => exact hrun.elim
    | error failure' supply' =>
      subst hrun hnew
      exact ⟨rfl, hbase, h.opened, h.children⟩

/-- **An event gets the same answer from both, and they stay the same.** -/
theorem step (h : Flattens base builder nest) (hb : Builder.InStock parts builder)
    (event : Event) : (event.step builder).1 = (nest.step event).1 ∧
      Flattens base (event.step builder).2 (nest.step event).2 := by
  cases event with
  | openNode kind => exact ⟨rfl, h.enter .node kind⟩
  | openList kind => exact ⟨rfl, h.enter .list kind⟩
  | openNodeAt place kind => exact h.openNodeAt place kind
  | closeNode => exact h.close hb .node
  | closeList => exact h.close hb .list
  | token kind text =>
    rw [Event.step_token, Event.step_triviaToken]
    exact h.tokened [] kind text []
  | triviaToken leading kind text trailing =>
    rw [Event.step_triviaToken]
    exact h.tokened leading kind text trailing
  | subtree node => exact ⟨rfl, h.push (.refl _)⟩
  | mark => exact ⟨by rw [Event.step_mark, h.mark]; rfl, h⟩

theorem run (h : Flattens base builder nest) (hb : Builder.InStock parts builder) (events : List Event)
    (offered : ∀ event ∈ events, event.Offered parts) :
    (builder.run events).1 = (nest.run events).1 ∧
      Flattens base (builder.run events).2 (nest.run events).2 := by
  induction events generalizing builder nest parts with
  | nil => exact ⟨rfl, h⟩
  | cons event events ih =>
    obtain ⟨hanswer, hafter⟩ := h.step hb event
    obtain ⟨added, hsub, hinStock⟩ := Event.step_inStock hb (offered event List.mem_cons_self)
    have hrest := ih hafter hinStock fun later hlater =>
      (offered later (List.mem_cons_of_mem _ hlater)).mono hsub
    exact ⟨congrArg₂ List.cons hanswer hrest.1, hrest.2⟩

/-- Both give a root, and one root copies the other, or both give none for the same reason. -/
theorem finish_copies (h : Flattens base builder nest) :
    match builder.finish, nest.finish with
    | .ok root _, .ok root' => root.toElement.Copies base root'.toElement
    | .error failure _, .error failure' => failure = failure'
    | _, _ => False := by
  obtain ⟨supply, top, opened⟩ := nest
  have hopened := h.opened
  have hchildren := h.children
  rw [Builder.finish_run, Nest.finish, hopened]
  cases opened with
  | cons frame outer =>
    have hlength : ∀ frames, (Nest.entries top frames).length = frames.length := fun frames => by
      induction frames with
      | nil => rfl
      | cons frame outer ih => rw [Nest.entries, List.length_cons, ih, List.length_cons]
    exact congrArg (fun n => Failure.rejected (.leftOpen n)) (hlength (frame :: outer))
  | nil =>
    dsimp only [Nest.entries, Nest.row] at hchildren ⊢
    have hlength := hchildren.length_eq
    generalize builder.children.toList = row at hchildren hlength ⊢
    match row, top with
    | [], [] => rfl
    | [.token _], [.token _] => rfl
    | [.node _ _], [.node _ _] => exact (List.forall₂_cons.1 hchildren).1
    | [.token _], [.node _ _] =>
      have halike := (List.forall₂_cons.1 hchildren).1.alike
      simp [Element.Alike] at halike
    | [.node _ _], [.token _] =>
      have halike := (List.forall₂_cons.1 hchildren).1.alike
      simp [Element.Alike] at halike
    | a :: _ :: _, b :: _ :: _ =>
      cases a <;> cases b <;> exact congrArg (fun n => Failure.rejected (.notOneRoot n)) hlength

theorem finish (h : Flattens base builder nest) :
    match builder.finish, nest.finish with
    | .ok root _, .ok root' => root.toElement.Alike root'.toElement
    | .error failure _, .error failure' => failure = failure'
    | _, _ => False := by
  have hcopies := h.finish_copies
  generalize builder.finish = flat at hcopies ⊢
  generalize nest.finish = nested at hcopies ⊢
  cases flat with
  | ok root done =>
    cases nested with
    | ok root' => exact hcopies.alike
    | error failure => exact hcopies
  | error failure done => cases nested <;> exact hcopies

end Builder.Flattens

/-- **A builder gives the answers of a nest, and builds a tree like that of the nest.** The interner
may be any that a caller can have, and the subtrees any nodes that it can get. -/
theorem Builder.run_agrees {s : Session} (reached : s.Reachable) {interner : Interner}
    (held : interner ∈ s.interners) (events : List Event)
    (offered : ∀ event ∈ events, event.Offered {e | e ∈ s.parts}) (supply : Nat) :
    let flat := (Builder.start s.supply interner).run events
    let nested := (Nest.start supply).run events
    flat.1 = nested.1 ∧
    match flat.2.finish, nested.2.finish with
    | .ok root _, .ok root' => root.toElement.Alike root'.toElement
    | .error failure _, .error failure' => failure = failure'
    | _, _ => False := by
  obtain ⟨parts, h⟩ := reached.exists_stock
  have hb : Builder.InStock parts (Builder.start s.supply interner) :=
    ⟨h.stock, h.interners interner held, fun e he => absurd he (Array.not_mem_empty e)⟩
  have hrun := (Builder.Flattens.start s.supply supply interner).run hb events fun event hevent =>
    (offered event hevent).mono h.held
  exact ⟨hrun.1, hrun.2.finish⟩

/-- A name is wrapped after it was seen, a node is closed as a list, and what was in it is wrapped
again. -/
theorem Builder.run_agrees_wrapping :
    let events : List Event := [.openNode .block, .mark, .token .name "x", .openNodeAt 0 .nameRef,
      .closeNode, .mark, .closeList, .openNodeAt 2 .exprStmt, .openNodeAt 0 .exprStmt, .closeNode]
    let flat := (Builder.start 0 (.empty .plain)).run events
    flat.1 = [.ok none, .ok (some 0), .ok none, .ok none, .ok none, .ok (some 1),
      .error (.violated .nodeIsOpen), .error (.violated .markBeyondChildren), .ok none, .ok none] ∧
    ∃ root done, flat.2.finish = .ok root done ∧ root.kind = .exprStmt := by
  intro events flat
  have reached : Session.Reachable ⟨0, [], [.empty .plain], []⟩ :=
    .step .start (.interner .plain)
  have offered : ∀ event ∈ events, event.Offered {e | e ∈ ([] : List Element)} := by
    simp [events, Event.Offered]
  obtain ⟨hanswers, hfinish⟩ := Builder.run_agrees reached List.mem_cons_self events offered 0
  refine ⟨hanswers.trans rfl, ?_⟩
  obtain ⟨root', hnested, hkind⟩ : ∃ root', ((Nest.start 0).run events).2.finish = .ok root' ∧
    root'.kind = .exprStmt := ⟨_, rfl, rfl⟩
  rw [hnested] at hfinish
  cases hflat : flat.2.finish with
  | ok root done =>
    rw [hflat] at hfinish
    refine ⟨root, done, rfl, ?_⟩
    rw [← hkind, ← Node.toElement_kind, ← Node.toElement_kind, ← Element.kind_bare, hfinish,
      Element.kind_bare]
  | error failure done =>
    rw [hflat] at hfinish
    exact hfinish.elim

end LosslessSyntax
