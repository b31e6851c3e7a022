import LosslessSyntax.Builder
import LosslessSyntax.Proofs.Interner

/-!
# Events of a builder

A parser talks to a builder in events, one after the other; an event that fails leaves the builder
in the state that it had reached, and the next event goes on from there.

* `Builder.Event`, `Builder.Event.step`: an event, and what it answers and leaves behind;
* `Builder.run`: the answers to a row of events;
* `Builder.Event.step_openNodeAt` to `Builder.Event.step_close`: what an event does, in one equation;
* `Interner.InStock`, `Builder.InStock`: all that is kept is in the stock;
* **`Builder.Event.step_inStock`**: an event keeps it so, whether it fails or not.
-/

namespace LosslessSyntax

open Green Green.Make

/-! ## Interners in stock -/

namespace Interner

/-- What an interner keeps is in the stock. -/
structure InStock (parts : Set Element) (interner : Interner) : Prop where
  tokens : ∀ t ∈ interner.tokens, Element.token t ∈ parts
  nodes : ∀ n ∈ interner.nodes, n.toElement ∈ parts

variable {parts added : Set Element} {interner : Interner}

theorem InStock.empty (hashing : Hashing) : InStock parts (Interner.empty hashing) :=
  ⟨fun _ h => absurd h List.not_mem_nil, fun _ h => absurd h List.not_mem_nil⟩

theorem InStock.mono (h : InStock parts interner) (hsub : parts ⊆ added) :
    InStock added interner :=
  ⟨fun t ht => hsub (h.tokens t ht), fun n hn => hsub (h.nodes n hn)⟩

theorem InStock.withToken (h : InStock parts interner) {made : Token}
    (hmade : Element.token made ∈ parts) (hash : UInt64) :
    InStock parts (interner.withToken made hash) := by
  refine ⟨fun t ht => ?_, h.nodes⟩
  rcases Table.mem_insert.1 ht with rfl | ht
  · exact hmade
  · exact h.tokens t ht

theorem InStock.withNode (h : InStock parts interner) {made : Node}
    (hmade : made.toElement ∈ parts) (hash : UInt64) :
    InStock parts (interner.withNode made hash) := by
  refine ⟨h.tokens, fun n hn => ?_⟩
  rcases Table.mem_insert.1 hn with rfl | hn
  · exact hmade
  · exact h.nodes n hn

theorem token_adds (h : InStock parts interner) (leading : Trivia) (kind : Kind) (text : String)
    (trailing : Trivia) :
    Adds (interner.token leading kind text trailing) parts fun added result =>
      Element.token result.1 ∈ added ∧ InStock added result.2 := by
  cases hfind : interner.tokens.find? (tokenHash interner.hashing leading kind text trailing)
    (tokenMatches leading kind text trailing) with
  | some kept =>
    rw [token_of_find hfind]
    exact Adds.pure ⟨h.tokens kept (Table.mem_of_find? hfind).1, h⟩
  | none =>
    rw [token_of_miss hfind]
    refine Adds.bind (Token.make_adds leading kind text trailing) fun added made hsub hmade => ?_
    exact Adds.pure ⟨hmade, (h.mono hsub).withToken hmade _⟩

theorem node_adds (h : InStock parts interner) {kind : Kind} {shape : Shape}
    {slots : Array Element} (hslots : ∀ e ∈ slots, e ∈ parts)
    (hshape : Node.HasShape kind slots shape) :
    Adds (interner.node kind shape slots) parts fun added result =>
      result.1.toElement ∈ added ∧ InStock added result.2 := by
  have hmake : Adds (Node.make kind shape none slots) parts Node.InStock :=
    Node.make_adds hslots hshape (by simp)
  by_cases hsize : slots.size ≤ maxSlots
  · cases hfind : interner.nodes.find? (nodeHash interner.hashing kind shape slots)
      (nodeMatches kind shape slots) with
    | some kept =>
      rw [node_of_find hsize hfind]
      exact Adds.pure ⟨h.nodes kept (Table.mem_of_find? hfind).1, h⟩
    | none =>
      rw [node_of_miss hsize hfind]
      refine Adds.bind hmake fun added made hsub hmade => ?_
      exact Adds.pure ⟨hmade, (h.mono hsub).withNode hmade _⟩
  · rw [node_of_large (Nat.lt_of_not_le hsize)]
    exact Adds.bind hmake fun added made hsub hmade => Adds.pure ⟨hmade, h.mono hsub⟩

end Interner

/-! ## Events -/

namespace Builder

/-- What a parser tells a builder. -/
inductive Event where
  | openNode (kind : Kind)
  | openList (kind : Kind)
  | openNodeAt (mark : Nat) (kind : Kind)
  | closeNode
  | closeList
  | token (kind : Kind) (text : String)
  | triviaToken (leading : List Trivia.Piece) (kind : Kind) (text : String)
    (trailing : List Trivia.Piece)
  | subtree (node : Node)
  | mark

/-- The answer to an event: why it failed, or the place that was asked for. -/
abbrev Answer := Except Failure (Option Nat)

namespace Event

/-- The answer to an event that has nothing to tell, and the builder after it. -/
def silently (act : Build Unit) (builder : Builder) : Answer × Builder :=
  match act builder with
  | .ok _ builder => (.ok none, builder)
  | .error failure builder => (.error failure, builder)

/-- The answer to an event, and the builder after it; only a mark has something to tell. -/
def step : Event → Builder → Answer × Builder
  | openNode kind, builder => silently (Builder.openNode kind) builder
  | openList kind, builder => silently (Builder.openList kind) builder
  | openNodeAt place kind, builder => silently (Builder.openNodeAt place kind) builder
  | closeNode, builder => silently Builder.closeNode builder
  | closeList, builder => silently Builder.closeList builder
  | token kind text, builder => silently (Builder.token kind text) builder
  | triviaToken leading kind text trailing, builder =>
    silently (Builder.triviaToken leading kind text trailing) builder
  | subtree node, builder => silently (Builder.subtree node) builder
  | mark, builder => (.ok (some builder.mark), builder)

/-- A caller can add only the subtrees that it holds. -/
def Offered (parts : Set Element) : Event → Prop
  | subtree node => node.toElement ∈ parts
  | _ => True

theorem Offered.mono {event : Event} {parts added : Set Element} (h : event.Offered parts)
    (hsub : parts ⊆ added) : event.Offered added := by
  cases event with
  | subtree node => exact hsub h
  | _ => trivial

end Event

namespace Layout

/-- The event that closes an entry of a layout. -/
def close : Layout → Event
  | node => .closeNode
  | list => .closeList

/-- The rule that is broken if an entry is closed that does not have the layout. -/
def mismatch : Layout → Violation
  | node => .listIsOpen
  | list => .nodeIsOpen

/-- The shape of an entry with the given children, or why they do not make one. -/
def shapeOf (layout : Layout) (kind : Kind) (slots : Array Element) : Except BuildError Shape :=
  match layout with
  | node => if kind.isList then .error (.listKind kind) else .ok .plain
  | list => (listShapeOf kind slots).map .list

theorem hasShape_of_shapeOf {layout : Layout} {kind : Kind} {slots : Array Element} {shape : Shape}
    (h : layout.shapeOf kind slots = .ok shape) : Node.HasShape kind slots shape := by
  cases layout with
  | node =>
    unfold shapeOf at h
    split_ifs at h with hkind
    cases h
    simp [Node.HasShape, hkind]
  | list =>
    unfold shapeOf at h
    cases hs : listShapeOf kind slots with
    | error error =>
      rw [hs] at h
      cases h
    | ok s =>
      rw [hs] at h
      cases h
      exact Node.hasShape_of_listShapeOf hs

end Layout

/-- The answers to a row of events, and the builder after them. -/
def run (builder : Builder) : List Event → List Answer × Builder
  | [] => ([], builder)
  | event :: events =>
    let (answer, builder) := event.step builder
    let (answers, builder) := builder.run events
    (answer :: answers, builder)

/-! ## Each event in one equation -/

namespace Event

/-- An entry is wrapped: its children come off the row, and the node of them goes on, unless it
cannot be made. -/
def wrapped (builder : Builder) (opened : List Entry) (entry : Entry) (shape : Shape) :
    Answer × Builder :=
  let slots := builder.children.extract entry.first builder.children.size
  let outside := builder.children.take entry.first
  match builder.interner.node entry.kind shape slots builder.supply with
  | .ok (node, interner) supply =>
    (.ok none, ⟨supply, interner, opened, outside.push node.toElement⟩)
  | .error failure supply => (.error failure, ⟨supply, builder.interner, opened, outside⟩)

/-- A token is asked for, and goes on the row. -/
def tokened (builder : Builder) (request : Make (Token × Interner)) : Answer × Builder :=
  match request builder.supply with
  | .ok (made, interner) supply =>
    (.ok none, { builder with supply, interner, children := builder.children.push (.token made) })
  | .error failure supply => (.error failure, { builder with supply })

/-- An interner is asked for a token with the given pieces of trivia. -/
def tokenRequest (interner : Interner) (leading : List Trivia.Piece) (kind : Kind) (text : String)
    (trailing : List Trivia.Piece) : Make (Token × Interner) := do
  let before ← Trivia.ofPieces leading
  let after ← Trivia.ofPieces trailing
  interner.token before kind text after

variable (builder : Builder)

theorem get_run : (get : Build Builder) builder = .ok builder builder := rfl

theorem cutOff_run (first : Nat) : Builder.cutOff first builder =
    .ok (builder.children.extract first builder.children.size)
      { builder with children := builder.children.take first } := rfl

theorem step_mark : mark.step builder = (.ok (some builder.mark), builder) := rfl

theorem step_subtree (node : Node) : (subtree node).step builder =
    (.ok none, { builder with children := builder.children.push node.toElement }) := rfl

theorem step_openNodeAt (place : Nat) (kind : Kind) : (openNodeAt place kind).step builder =
    if builder.mark < place then (.error (.violated .markBeyondChildren), builder)
    else if builder.opened.head?.any (place < ·.first) then
      (.error (.violated .markBeforeEntry), builder)
    else (.ok none, { builder with opened := ⟨.node, kind, place⟩ :: builder.opened }) := by
  simp only [step, silently, Builder.openNodeAt, bind, EStateM.bind, get_run]
  split_ifs <;> rfl

theorem step_token (kind : Kind) (text : String) : (token kind text).step builder =
    (triviaToken [] kind text []).step builder := rfl

theorem step_triviaToken (leading : List Trivia.Piece) (kind : Kind) (text : String)
    (trailing : List Trivia.Piece) : (triviaToken leading kind text trailing).step builder =
      tokened builder (tokenRequest builder.interner leading kind text trailing) := by
  change silently (EStateM.bind (Builder.intern (tokenRequest · leading kind text trailing))
    fun made => push (.token made)) builder = _
  simp only [silently, EStateM.bind, Builder.intern, tokened]
  cases tokenRequest builder.interner leading kind text trailing builder.supply <;> rfl

theorem silently_wrap (entry : Entry) (shape : Shape) :
    silently (Builder.wrap entry shape) builder = wrapped builder builder.opened entry shape := by
  simp only [silently, Builder.wrap, wrapped, bind, EStateM.bind, cutOff_run, Builder.intern]
  cases builder.interner.node entry.kind shape
    (builder.children.extract entry.first builder.children.size) builder.supply <;> rfl

theorem leave_run : Builder.leave builder =
    match builder.opened with
    | [] => .error (.violated .nothingOpen) builder
    | entry :: opened => .ok entry { builder with opened } := by
  obtain ⟨supply, interner, opened, children⟩ := builder
  cases opened <;> rfl

/-- The innermost entry is closed: it has to have the layout, and its children a shape. -/
theorem step_close (layout : Layout) : layout.close.step builder =
    match builder.opened with
    | [] => (.error (.violated .nothingOpen), builder)
    | entry :: opened =>
      if entry.layout = layout then
        match layout.shapeOf entry.kind
          (builder.children.extract entry.first builder.children.size) with
        | .error error =>
          (.error (.rejected error), { builder with opened := [], children := #[] })
        | .ok shape => wrapped builder opened entry shape
      else (.error (.violated layout.mismatch), { builder with opened }) := by
  obtain ⟨supply, interner, opened, children⟩ := builder
  cases layout with
  | node =>
    simp only [Layout.close, step, Builder.closeNode, silently, bind, EStateM.bind, leave_run]
    rcases opened with - | ⟨⟨- | -, kind, first⟩, opened⟩
    · rfl
    · by_cases hkind : kind.isList = true
      · simp only [Layout.shapeOf, hkind]
        rfl
      · simp only [Layout.shapeOf, hkind]
        exact silently_wrap ⟨supply, interner, opened, children⟩ _ _
    · rfl
  | list =>
    simp only [Layout.close, step, Builder.closeList, silently, bind, EStateM.bind, leave_run]
    rcases opened with - | ⟨⟨- | -, kind, first⟩, opened⟩
    · rfl
    · rfl
    · simp only [EStateM.bind, get_run, Layout.shapeOf]
      cases listShapeOf kind (children.extract first children.size) with
      | error error => rfl
      | ok shape => exact silently_wrap ⟨supply, interner, opened, children⟩ _ _

end Event

theorem finish_run (builder : Builder) : builder.finish =
    if builder.opened.isEmpty then
      match builder.children.toList with
      | [.node head slots] => .ok ⟨head, slots⟩ builder
      | children => .error (.rejected (.notOneRoot children.length)) builder
    else .error (.rejected (.leftOpen builder.opened.length))
      { builder with opened := [], children := #[] } := by
  obtain ⟨supply, interner, opened, ⟨children⟩⟩ := builder
  cases opened with
  | nil => rcases children with - | ⟨- | ⟨head, slots⟩, - | ⟨e, rest⟩⟩ <;> rfl
  | cons entry opened => rfl

theorem finish_ok {builder done : Builder} {root : Node} (h : builder.finish = .ok root done) :
    builder.children.toList = [root.toElement] ∧ done = builder := by
  rw [finish_run] at h
  split_ifs at h
  split at h
  · next head slots hchildren =>
    cases h
    exact ⟨hchildren, rfl⟩
  · cases h

/-! ## Builders in stock -/

theorem toList_cutOff (row : Array Element) (first : Nat) :
    (row.extract first row.size).toList = row.toList.drop first := by
  rw [Array.toList_extract, List.extract_eq_take_drop, List.take_of_length_le (by simp)]

theorem toList_keep (row : Array Element) (first : Nat) :
    (row.take first).toList = row.toList.take first := by
  simp

theorem mem_of_mem_cutOff {row : Array Element} {first : Nat} {e : Element}
    (h : e ∈ row.extract first row.size) : e ∈ row := by
  rw [← Array.mem_toList_iff, toList_cutOff] at h
  exact Array.mem_toList_iff.1 (List.mem_of_mem_drop h)

/-- All that a builder has is in the stock. -/
structure InStock (parts : Set Element) (builder : Builder) : Prop where
  stock : Stock builder.supply parts
  interner : builder.interner.InStock parts
  children : ∀ e ∈ builder.children, e ∈ parts

namespace Event

variable {parts : Set Element} {builder : Builder}

theorem tokened_inStock (h : InStock parts builder) {request : Make (Token × Interner)}
    (hrequest : Adds request parts fun added result =>
      Element.token result.1 ∈ added ∧ result.2.InStock added) :
    ∃ added, parts ⊆ added ∧ InStock added (tokened builder request).2 := by
  obtain ⟨added, hsub, hrun⟩ := hrequest builder.supply h.stock
  refine ⟨added, hsub, ?_⟩
  unfold tokened
  generalize request builder.supply = result at hrun ⊢
  cases result with
  | ok made supply =>
    refine ⟨hrun.1, hrun.2.2, fun e he => ?_⟩
    rcases Array.mem_push.1 he with he | rfl
    · exact hsub (h.children e he)
    · exact hrun.2.1
  | error failure supply =>
    exact ⟨hrun, h.interner.mono hsub, fun e he => hsub (h.children e he)⟩

theorem tokenRequest_adds {interner : Interner} (h : interner.InStock parts)
    (leading : List Trivia.Piece) (kind : Kind) (text : String) (trailing : List Trivia.Piece) :
    Adds (tokenRequest interner leading kind text trailing) parts fun added result =>
      Element.token result.1 ∈ added ∧ result.2.InStock added := by
  have htrivia : ∀ (parts : Set Element) (pieces : List Trivia.Piece),
      Adds (liftM (Trivia.ofPieces pieces)) parts fun _ _ => True :=
    fun _ _ => Adds.ofViolation fun _ _ => trivial
  refine Adds.bind (htrivia parts leading) fun added before hsub _ => ?_
  refine Adds.bind (htrivia added trailing) fun added' after hsub' _ => ?_
  exact Interner.token_adds (h.mono (hsub.trans hsub')) before kind text after

theorem wrapped_inStock (h : InStock parts builder) (opened : List Entry) {entry : Entry}
    {shape : Shape} (hshape : Node.HasShape entry.kind
      (builder.children.extract entry.first builder.children.size) shape) :
    ∃ added, parts ⊆ added ∧ InStock added (wrapped builder opened entry shape).2 := by
  have hslots : ∀ e ∈ builder.children.extract entry.first builder.children.size, e ∈ parts :=
    fun e he => h.children e (mem_of_mem_cutOff he)
  have houtside : ∀ e ∈ builder.children.take entry.first, e ∈ parts :=
    fun e he => h.children e <| by
      rw [← Array.mem_toList_iff, toList_keep] at he
      exact Array.mem_toList_iff.1 (List.mem_of_mem_take he)
  obtain ⟨added, hsub, hrun⟩ :=
    Interner.node_adds h.interner hslots hshape builder.supply h.stock
  refine ⟨added, hsub, ?_⟩
  unfold wrapped
  dsimp only
  generalize builder.interner.node entry.kind shape
    (builder.children.extract entry.first builder.children.size) builder.supply = result at hrun ⊢
  cases result with
  | ok made supply =>
    refine ⟨hrun.1, hrun.2.2, fun e he => ?_⟩
    rcases Array.mem_push.1 he with he | rfl
    · exact hsub (houtside e he)
    · exact hrun.2.1
  | error failure supply =>
    exact ⟨hrun, h.interner.mono hsub, fun e he => hsub (houtside e he)⟩

theorem close_inStock (h : InStock parts builder) (layout : Layout) :
    ∃ added, parts ⊆ added ∧ InStock added (layout.close.step builder).2 := by
  rw [step_close]
  split
  · exact ⟨parts, subset_rfl, h⟩
  · split_ifs
    · split
      · exact ⟨parts, subset_rfl, h.stock, h.interner, fun e he => absurd he (Array.not_mem_empty e)⟩
      · next shape hshape => exact wrapped_inStock h _ (Layout.hasShape_of_shapeOf hshape)
    · exact ⟨parts, subset_rfl, h.stock, h.interner, h.children⟩

/-- **An event keeps all that a builder has in the stock, even if it fails.** -/
theorem step_inStock (h : InStock parts builder) {event : Event} (offered : event.Offered parts) :
    ∃ added, parts ⊆ added ∧ InStock added (event.step builder).2 := by
  have hsame : ∀ opened, ∃ added, parts ⊆ added ∧ InStock added { builder with opened } :=
    fun opened => ⟨parts, subset_rfl, h.stock, h.interner, h.children⟩
  cases event with
  | openNode kind => exact hsame _
  | openList kind => exact hsame _
  | openNodeAt place kind =>
    rw [step_openNodeAt]
    split_ifs
    · exact hsame builder.opened
    · exact hsame builder.opened
    · exact hsame _
  | closeNode => exact close_inStock h .node
  | closeList => exact close_inStock h .list
  | token kind text =>
    rw [step_token, step_triviaToken]
    exact tokened_inStock h (tokenRequest_adds h.interner _ _ _ _)
  | triviaToken leading kind text trailing =>
    rw [step_triviaToken]
    exact tokened_inStock h (tokenRequest_adds h.interner _ _ _ _)
  | subtree node =>
    rw [step_subtree]
    refine ⟨parts, subset_rfl, h.stock, h.interner, fun e he => ?_⟩
    rcases Array.mem_push.1 he with he | rfl
    · exact h.children e he
    · exact offered
  | mark => exact hsame builder.opened

end Event

theorem run_inStock {parts : Set Element} {builder : Builder} (h : InStock parts builder)
    {events : List Event} (offered : ∀ event ∈ events, event.Offered parts) :
    ∃ added, parts ⊆ added ∧ InStock added (builder.run events).2 := by
  induction events generalizing parts builder with
  | nil => exact ⟨parts, subset_rfl, h⟩
  | cons event events ih =>
    obtain ⟨hevent, hevents⟩ := List.forall_mem_cons.1 offered
    obtain ⟨added, hsub, hstep⟩ := Event.step_inStock h hevent
    obtain ⟨added', hsub', hrun⟩ := ih hstep fun later hlater => (hevents later hlater).mono hsub
    exact ⟨added', hsub.trans hsub', hrun⟩

end Builder

end LosslessSyntax
