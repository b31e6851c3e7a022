import LosslessSyntax.Proofs.Builder.Twin

/-!
# The script of a tree

A tree can be told as the events that build it: a node is opened, what is in its slots follows, and it
is closed. A builder that hears the script of a tree builds the tree again, annotations apart; and
whatever a builder was told without marks and finished subtrees is the script of what it built.

* `Green.Element.script`: the events that build an element;
* `Nest.Adds`: events that add copies of a row;
* **`Green.Element.script_adds`**: a nest that hears the script of an element adds a copy of it;
* `Nest.told`: the events that a nest has heard, read off its entries;
* **`Nest.run_told`**: these are all events, if none of them failed;
* **`Session.Reachable.script_builds`**, **`Session.Reachable.script_of_run`**: builders and scripts.
-/

namespace LosslessSyntax

open Green
open Builder (Layout Event Answer)

/-! ## Scripts -/

/-- How the entry for a node of a shape is opened and closed. -/
def Green.Shape.layout : Shape → Layout
  | .plain => .node
  | .list _ => .list

/-- The event that opens an entry of a layout. -/
def Builder.Layout.opening : Layout → Kind → Event
  | .node => .openNode
  | .list => .openList

/-- The event that adds a token. -/
def Green.Token.event (token : Token) : Event :=
  .triviaToken token.leading.pieces token.kind token.text token.trailing.pieces

namespace Green.Element

mutual

/-- The events that build an element. -/
def script : Element → List Event
  | .token t => [t.event]
  | .node head ⟨slots⟩ =>
    head.shape.layout.opening head.kind :: (scripts slots ++ [head.shape.layout.close])

/-- The events that build a row of elements. -/
def scripts : List Element → List Event
  | [] => []
  | e :: rest => script e ++ scripts rest

end

theorem scripts_eq (row : List Element) : scripts row = row.flatMap script := by
  induction row with
  | nil => rw [scripts, List.flatMap_nil]
  | cons e rest ih => rw [scripts, ih, List.flatMap_cons]

@[simp] theorem script_token (t : Token) : (token t).script = [t.event] := by rw [script]

@[simp] theorem script_node (head : Head) (slots : Array Element) : (node head slots).script =
    head.shape.layout.opening head.kind ::
      (slots.toList.flatMap script ++ [head.shape.layout.close]) := by
  obtain ⟨row⟩ := slots
  rw [script, scripts_eq]

/-- Identities, offsets and annotations are not told. -/
theorem script_bare (e : Element) : e.bare.script = e.script := by
  induction e with
  | token t => rw [bare_token, script_token, script_token]; rfl
  | node head slots ih =>
    rw [bare_node, script_node, script_node, Array.toList_map, List.flatMap_map]
    congr 2
    exact List.flatMap_congr fun e he => ih e (Array.mem_toList_iff.1 he)

theorem Alike.script_eq {a b : Element} (h : a.Alike b) : a.script = b.script := by
  rw [← script_bare a, ← script_bare b, h]

end Green.Element

/-- The events without marks and finished subtrees. -/
def Builder.Event.isPlain : Event → Bool
  | openNodeAt _ _ => false
  | subtree _ => false
  | mark => false
  | _ => true

/-- The event as a script has it: a token with its trivia, even if there are none. -/
def Builder.Event.spelled : Event → Event
  | token kind text => .triviaToken [] kind text []
  | event => event

theorem Builder.Event.offered_of_isPlain {event : Event} (h : event.isPlain = true)
    (parts : Set Element) : event.Offered parts := by
  cases event with
  | subtree node => cases h
  | _ => trivial

theorem Green.Element.isPlain_script (e : Element) : ∀ event ∈ e.script, event.isPlain = true := by
  induction e with
  | token t => simp [Token.event, Event.isPlain]
  | node head slots ih =>
    rw [script_node]
    intro event hevent
    rw [List.mem_cons, List.mem_append, List.mem_flatMap, List.mem_singleton] at hevent
    rcases hevent with rfl | ⟨e, he, hevent⟩ | rfl
    · cases head.shape <;> rfl
    · exact ih e (Array.mem_toList_iff.1 he) event hevent
    · cases head.shape <;> rfl

/-! ## Hearing a script -/

namespace Nest

theorem run_cons (nest : Nest) (event : Event) (events : List Event) :
    nest.run (event :: events) = ((nest.step event).1 :: ((nest.step event).2.run events).1,
      ((nest.step event).2.run events).2) := rfl

theorem run_append (nest : Nest) (first second : List Event) : nest.run (first ++ second) =
    ((nest.run first).1 ++ ((nest.run first).2.run second).1,
      ((nest.run first).2.run second).2) := by
  induction first generalizing nest with
  | nil => rfl
  | cons event first ih =>
    rw [List.cons_append, run_cons, run_cons, ih]
    rfl

theorem step_close (nest : Nest) (layout : Layout) : nest.step layout.close = nest.close layout := by
  cases layout <;> rfl

theorem close_ok {supply next : Nat} {top : List Element} (frame : Frame) {outer : List Frame}
    {node : Node} (h : makeNode frame.layout frame.kind frame.children.toArray supply = .ok node next) :
    close ⟨supply, top, frame :: outer⟩ frame.layout =
      (.ok none, append ⟨next, top, outer⟩ [node.toElement]) := by
  unfold close
  dsimp only
  rw [if_pos rfl, h]

/-- The events succeed, and add a row that is like the given one to the innermost entry. -/
def Adds (nest : Nest) (events : List Event) (row : List Element) : Prop :=
  (∀ answer ∈ (nest.run events).1, answer = .ok none) ∧
    ∃ copies supply, Element.AlikeRows copies row ∧
      (nest.run events).2 = append { nest with supply } copies

theorem append_append (nest : Nest) (supply : Nat) (first second : List Element) :
    append { nest.append first with supply } second =
      append { nest with supply } (first ++ second) := by
  obtain ⟨next, top, opened⟩ := nest
  cases opened <;> simp [append, withInner, inner]

theorem append_nil (nest : Nest) : nest.append [] = nest := by
  obtain ⟨next, top, opened⟩ := nest
  cases opened <;> simp [append, withInner, inner]

theorem Adds.append {nest : Nest} {events events' : List Event} {row row' : List Element}
    (h : nest.Adds events row) (h' : ∀ nest : Nest, nest.Adds events' row') :
    nest.Adds (events ++ events') (row ++ row') := by
  obtain ⟨hanswers, copies, supply, halike, hrun⟩ := h
  obtain ⟨hanswers', copies', supply', halike', hrun'⟩ := h' (nest.run events).2
  rw [Adds, run_append]
  refine ⟨fun answer hmem => ?_, copies ++ copies', supply', halike.append halike', ?_⟩
  · rcases List.mem_append.1 hmem with hmem | hmem
    · exact hanswers answer hmem
    · exact hanswers' answer hmem
  · rw [hrun', hrun, append_append]

theorem adds_row {row : List Element} (h : ∀ e ∈ row, ∀ nest : Nest, nest.Adds e.script [e])
    (nest : Nest) : nest.Adds (row.flatMap Element.script) row := by
  induction row generalizing nest with
  | nil => exact ⟨fun answer hmem => absurd hmem List.not_mem_nil, [], nest.supply, rfl,
      (append_nil nest).symm⟩
  | cons e rest ih =>
    obtain ⟨he, hrest⟩ := List.forall_mem_cons.1 h
    exact (he nest).append (ih hrest)

end Nest

theorem Green.Node.HasShape.shapeOf_eq {kind : Kind} {slots : Array Element} {shape : Shape}
    (h : Node.HasShape kind slots shape) : shape.layout.shapeOf kind slots = .ok shape := by
  unfold Node.HasShape at h
  split_ifs at h with hkind
  · obtain ⟨s, rfl, hlist⟩ := h
    rw [Shape.layout, Layout.shapeOf, hlist]
    rfl
  · rw [h, Shape.layout, Layout.shapeOf, if_neg hkind]

theorem Green.Node.Tidy.makeNode_ok {node : Node} (h : node.Tidy) (bare : node.annotations = [])
    {copies : List Element} (halike : Element.AlikeRows copies node.slots.toList) (supply : Nat) :
    ∃ made, Nest.makeNode node.shape.layout node.kind copies.toArray supply = .ok made (supply + 1) ∧
      made.toElement.Alike node.toElement := by
  have hshape : node.shape.layout.shapeOf node.kind copies.toArray = .ok node.shape := by
    rw [node.shape.layout.shapeOf_congr node.kind halike]
    exact h.shape.shapeOf_eq
  rw [Nest.makeNode_eq, hshape]
  dsimp only
  rw [Node.make_run]
  dsimp only
  rw [halike.widths]
  have hwidth : (node.slots.toList.map Element.width).sum = node.width := h.width_eq.symm
  rw [hwidth, if_pos h.width_le]
  refine ⟨_, rfl, Node.alike_toElement.2 ⟨?_, halike⟩⟩
  simp only [Head.bare, h.notes_iff.2 bare]
  rfl

theorem Nest.makeToken_ok (t : Token) (supply : Nat) : ∃ made,
    makeToken t.leading.pieces t.kind t.text t.trailing.pieces supply = .ok made (supply + 1) ∧
      (Element.token made).Alike (.token t) := by
  have hpieces : ∀ trivia : Trivia, Trivia.ofPieces trivia.pieces = .ok trivia :=
    fun trivia => dif_pos trivia.total_le
  unfold makeToken
  rw [hpieces, hpieces]
  change ∃ made, Token.make t.leading t.kind t.text t.trailing supply = _ ∧ _
  rw [Token.make_run, dif_pos t.trivia_le, dif_pos ⟨t.leading_cut, t.trailing_cut⟩]
  exact ⟨_, rfl, by simp [Element.Alike, Token.bare]⟩

/-- **A nest that hears the script of an element adds a copy of it.** -/
theorem Green.Element.script_adds {e : Element} (well : e.WellFormed)
    (bare : e.AllNodes fun node => node.annotations = []) (nest : Nest) :
    nest.Adds e.script [e] := by
  induction e generalizing nest with
  | token t =>
    obtain ⟨made, hmade, halike⟩ := Nest.makeToken_ok t nest.supply
    have hstep : nest.step t.event =
        (.ok none, Nest.append { nest with supply := nest.supply + 1 } [.token made]) := by
      change nest.addToken _ = _
      rw [Nest.addToken, hmade]
    rw [script_token, Nest.Adds, Nest.run_cons, hstep]
    refine ⟨by simp [Nest.run], [.token made], _, ?_, rfl⟩
    exact alikeRows_cons.2 ⟨halike, rfl⟩
  | node head slots ih =>
    -- what is in the slots goes to an entry of its own, so the claim is about all nests
    have hbare : (Node.toElement ⟨head, slots⟩).AllNodes fun node => node.annotations = [] := bare
    have hslots : ∀ x ∈ slots.toList, ∀ nest : Nest, nest.Adds x.script [x] := by
      intro x hx nest
      have hmem := Array.mem_toList_iff.1 hx
      cases well with
      | node _ below => exact ih x hmem (below x hmem) (hbare.slot hmem) nest
    have hopen : nest.step (head.shape.layout.opening head.kind) =
        (.ok none, nest.enter ⟨head.shape.layout, head.kind, []⟩) := by
      cases head.shape <;> rfl
    obtain ⟨hanswers, copies, supply, halike, hrun⟩ := Nest.adds_row hslots
      (nest.enter ⟨head.shape.layout, head.kind, []⟩)
    have hwell : Node.WellFormed ⟨head, slots⟩ := well
    obtain ⟨made, hmade, hcopy⟩ := hwell.tidy.makeNode_ok hbare.root halike supply
    have hclose : (Nest.append { nest.enter ⟨head.shape.layout, head.kind, []⟩ with supply }
        copies).step head.shape.layout.close =
          (.ok none, Nest.append { nest with supply := supply + 1 } [made.toElement]) :=
      (Nest.step_close _ _).trans
        (Nest.close_ok ⟨head.shape.layout, head.kind, copies⟩ hmade)
    rw [script_node, Nest.Adds, Nest.run_cons, hopen, Nest.run_append, hrun, Nest.run_cons, hclose]
    refine ⟨fun answer hmem => ?_, [made.toElement], _, alikeRows_cons.2 ⟨hcopy, rfl⟩, rfl⟩
    rcases List.mem_cons.1 hmem with rfl | hmem
    · rfl
    rcases List.mem_append.1 hmem with hmem | hmem
    · exact hanswers answer hmem
    · exact List.mem_singleton.1 hmem

/-! ## What a nest has heard -/

namespace Nest

/-- The events that a nest has heard: the scripts of all children, and the opening of each entry
before those of its children. -/
def told (top : List Element) : List Frame → List Event
  | [] => top.flatMap Element.script
  | frame :: outer =>
    told top outer ++ frame.layout.opening frame.kind :: frame.children.flatMap Element.script

theorem told_append (nest : Nest) (more : List Element) :
    told (nest.append more).top (nest.append more).opened =
      told nest.top nest.opened ++ more.flatMap Element.script := by
  obtain ⟨supply, top, opened⟩ := nest
  cases opened <;> simp [append, withInner, inner, told]

theorem told_enter (nest : Nest) (layout : Layout) (kind : Kind) :
    told (nest.enter ⟨layout, kind, []⟩).top (nest.enter ⟨layout, kind, []⟩).opened =
      told nest.top nest.opened ++ [layout.opening kind] := rfl

theorem layout_of_shapeOf {layout : Layout} {kind : Kind} {slots : Array Element} {shape : Shape}
    (h : layout.shapeOf kind slots = .ok shape) : shape.layout = layout := by
  unfold Layout.shapeOf at h
  cases layout with
  | node =>
    dsimp only at h
    split_ifs at h
    cases h
    rfl
  | list =>
    cases hs : listShapeOf kind slots with
    | error error =>
      rw [hs] at h
      cases h
    | ok s =>
      rw [hs] at h
      cases h
      rfl

theorem script_of_makeNode {layout : Layout} {kind : Kind} {children : List Element} {node : Node}
    {supply next : Nat} (h : makeNode layout kind children.toArray supply = .ok node next) :
    node.toElement.script =
      layout.opening kind :: (children.flatMap Element.script ++ [layout.close]) := by
  rw [makeNode_eq] at h
  cases hshape : layout.shapeOf kind children.toArray with
  | error error =>
    rw [hshape] at h
    cases h
  | ok shape =>
    rw [hshape] at h
    dsimp only at h
    rw [Node.make_run] at h
    dsimp only at h
    split_ifs at h
    cases h
    rw [Node.toElement, Element.script_node, layout_of_shapeOf hshape]

theorem event_of_makeToken {leading trailing : List Trivia.Piece} {kind : Kind} {text : String}
    {token : Token} {supply next : Nat}
    (h : makeToken leading kind text trailing supply = .ok token next) :
    token.event = .triviaToken leading kind text trailing := by
  have hpieces : ∀ {pieces trivia}, Trivia.ofPieces pieces = .ok trivia → trivia.pieces = pieces := by
    intro pieces trivia hrun
    unfold Trivia.ofPieces at hrun
    split_ifs at hrun
    cases hrun
    rfl
  change EStateM.bind (liftM (Trivia.ofPieces leading)) (fun before =>
    EStateM.bind (liftM (Trivia.ofPieces trailing)) fun after =>
      Token.make before kind text after) supply = _ at h
  cases hleading : Trivia.ofPieces leading with
  | error violation =>
    rw [hleading] at h
    cases h
  | ok before =>
    cases htrailing : Trivia.ofPieces trailing with
    | error violation =>
      rw [hleading, htrailing] at h
      cases h
    | ok after =>
      rw [hleading, htrailing] at h
      change Token.make before kind text after supply = _ at h
      rw [Token.make_run] at h
      split_ifs at h
      cases h
      rw [Token.event, hpieces hleading, hpieces htrailing]

theorem addToken_told {nest : Nest} {leading trailing : List Trivia.Piece} {kind : Kind}
    {text : String} (h : (nest.addToken (makeToken leading kind text trailing)).1 = .ok none) :
    told (nest.addToken (makeToken leading kind text trailing)).2.top
        (nest.addToken (makeToken leading kind text trailing)).2.opened =
      told nest.top nest.opened ++ [.triviaToken leading kind text trailing] := by
  unfold addToken at h ⊢
  cases hrun : makeToken leading kind text trailing nest.supply with
  | error failure supply =>
    rw [hrun] at h
    cases h
  | ok token supply =>
    have hscript := told_append { nest with supply } [.token token]
    rw [List.flatMap_singleton, Element.script_token, event_of_makeToken hrun] at hscript
    exact hscript

theorem close_told {nest : Nest} {layout : Layout} (h : (nest.close layout).1 = .ok none) :
    told (nest.close layout).2.top (nest.close layout).2.opened =
      told nest.top nest.opened ++ [layout.close] := by
  obtain ⟨supply, top, opened⟩ := nest
  cases opened with
  | nil => cases h
  | cons frame outer =>
    by_cases hlayout : frame.layout = layout
    · subst hlayout
      cases hmade : makeNode frame.layout frame.kind frame.children.toArray supply with
      | ok node next =>
        rw [close_ok frame hmade, told_append, List.flatMap_singleton, script_of_makeNode hmade]
        simp [told]
      | error failure next =>
        unfold close at h
        dsimp only at h
        rw [if_pos rfl, hmade] at h
        cases failure <;> cases h
    · unfold close at h
      dsimp only at h
      rw [if_neg hlayout] at h
      cases h

/-- An event that succeeds is the last one that was heard. -/
theorem step_told (nest : Nest) {event : Event} (plain : event.isPlain = true)
    (h : (nest.step event).1 = .ok none) :
    told (nest.step event).2.top (nest.step event).2.opened =
      told nest.top nest.opened ++ [event.spelled] := by
  cases event with
  | openNode kind => exact told_enter nest .node kind
  | openList kind => exact told_enter nest .list kind
  | openNodeAt mark kind => cases plain
  | closeNode => exact close_told h
  | closeList => exact close_told h
  | token kind text => exact addToken_told h
  | triviaToken leading kind text trailing => exact addToken_told h
  | subtree node => cases plain
  | mark => cases plain

/-- **What a nest has heard are all events**, if none of them failed. -/
theorem run_told (nest : Nest) {events : List Event} (plain : ∀ event ∈ events, event.isPlain = true)
    (h : ∀ answer ∈ (nest.run events).1, answer = .ok none) :
    told (nest.run events).2.top (nest.run events).2.opened =
      told nest.top nest.opened ++ events.map Event.spelled := by
  induction events generalizing nest with
  | nil => exact (List.append_nil _).symm
  | cons event events ih =>
    rw [run_cons] at h ⊢
    obtain ⟨hplain, hrest⟩ := List.forall_mem_cons.1 plain
    obtain ⟨hanswer, hanswers⟩ := List.forall_mem_cons.1 h
    rw [ih _ hrest hanswers, step_told nest hplain hanswer, List.append_assoc]
    rfl

theorem told_of_finish {nest : Nest} {root : Node} (h : nest.finish = .ok root) :
    told nest.top nest.opened = root.toElement.script := by
  obtain ⟨supply, top, opened⟩ := nest
  cases opened with
  | cons frame outer => cases h
  | nil =>
    unfold finish at h
    simp only [List.isEmpty_nil, if_true] at h
    split at h
    · cases h
      exact List.flatMap_singleton _ _
    · cases h

end Nest

/-! ## Builders and scripts -/

/-- All events succeed, and the builder gives the root in the end. -/
def Builder.Builds (builder : Builder) (events : List Event) (root : Node) : Prop :=
  (∀ answer ∈ (builder.run events).1, answer = .ok none) ∧
    ∃ done, (builder.run events).2.finish = .ok root done

namespace Session

variable {s : Session} {interner : Interner}

/-- **A builder that hears the script of a tree builds the tree again**, whatever its interner keeps. -/
theorem Reachable.script_builds (reached : s.Reachable) (held : interner ∈ s.interners) {green : Node}
    (heldToo : green.toElement ∈ s.parts)
    (bare : green.toElement.AllNodes fun node => node.annotations = []) :
    ∃ root, (Builder.start s.supply interner).Builds green.toElement.script root ∧
      root.toElement.Alike green.toElement := by
  obtain ⟨parts, h⟩ := reached.exists_stock
  obtain ⟨hanswers, copies, supply, halike, hrun⟩ :=
    Element.script_adds (h.stock.wellFormed (h.held _ heldToo)) bare (Nest.start s.supply)
  obtain ⟨hsame, hflat⟩ := reached.run_flattens held (fun event hevent =>
    event.offered_of_isPlain (green.toElement.isPlain_script event hevent) _) s.supply
  obtain ⟨plan, hplan, hcopy⟩ : ∃ plan, ((Nest.start s.supply).run green.toElement.script).2.finish =
      .ok plan ∧ plan.toElement.Alike green.toElement := by
    obtain ⟨copy, rfl, hcopy⟩ := Element.alikeRows_singleton halike
    obtain ⟨made, rfl⟩ := hcopy.exists_node
    rw [hrun]
    exact ⟨made, rfl, hcopy⟩
  have hcopies := hflat.finish_copies
  rw [hplan] at hcopies
  cases hbuilt : ((Builder.start s.supply interner).run green.toElement.script).2.finish with
  | error failure done =>
    rw [hbuilt] at hcopies
    exact hcopies.elim
  | ok root done =>
    rw [hbuilt] at hcopies
    exact ⟨root, ⟨hsame ▸ hanswers, done, hbuilt⟩, hcopies.alike.trans hcopy⟩

theorem Reachable.wellFormed_of_run (reached : s.Reachable) (held : interner ∈ s.interners)
    {events : List Event} (offered : ∀ event ∈ events, event.Offered {e | e ∈ s.parts}) {root : Node}
    (built : (Builder.start s.supply interner).Builds events root) : root.WellFormed := by
  obtain ⟨-, done, finished⟩ := built
  obtain ⟨parts, h⟩ := reached.exists_stock
  have hb : Builder.InStock parts (Builder.start s.supply interner) :=
    ⟨h.stock, h.interners interner held, fun e he => absurd he (Array.not_mem_empty e)⟩
  obtain ⟨added, -, hrun⟩ := Builder.run_inStock hb fun event hevent =>
    (offered event hevent).mono h.held
  obtain ⟨hchildren, -⟩ := Builder.finish_ok finished
  exact hrun.stock.wellFormed
    (hrun.children _ (Array.mem_toList_iff.1 (hchildren ▸ List.mem_cons_self)))

/-- **What a builder was told is the script of what it built**, if there were no marks and no finished
subtrees, and no event failed. -/
theorem Reachable.script_of_run (reached : s.Reachable) (held : interner ∈ s.interners)
    {events : List Event} (plain : ∀ event ∈ events, event.isPlain = true) {root : Node}
    (built : (Builder.start s.supply interner).Builds events root) :
    root.toElement.script = events.map Event.spelled := by
  obtain ⟨answers, done, finished⟩ := built
  -- the nest has heard the same, and its root is like the one that was built
  obtain ⟨hsame, hflat⟩ := reached.run_flattens held
    (fun event hevent => event.offered_of_isPlain (plain event hevent) _) s.supply
  have hcopies := hflat.finish_copies
  rw [finished] at hcopies
  rw [hsame] at answers
  have htold := Nest.run_told (Nest.start s.supply) plain answers
  cases hnested : ((Nest.start s.supply).run events).2.finish with
  | error failure =>
    rw [hnested] at hcopies
    exact hcopies.elim
  | ok plan =>
    rw [hnested] at hcopies
    rw [hcopies.alike.script_eq, ← Nest.told_of_finish hnested, htold]
    rfl

end Session

end LosslessSyntax
