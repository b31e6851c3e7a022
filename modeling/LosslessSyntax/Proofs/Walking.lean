import LosslessSyntax.Proofs.Builder.Script
import LosslessSyntax.Proofs.Facade
import LosslessSyntax.Proofs.Placed.Schedule
import LosslessSyntax.Proofs.Placed.Walk

/-!
# Walks of all sessions

Whatever a caller has asked before, and whenever it skips the rest of a node, a walk meets what is met
by recursion, and nothing after it; a walk over nodes meets the same without the tokens.

A walk through a tree meets the events that build the tree. So a builder that hears what a walk meets
builds an equal tree, if there are no annotations; and a walk through a tree that was built meets what
the builder heard.

* **`Session.walk_traverses`**: walks through every node that a caller can get, with every schedule;
* `Placed.Walk.Event.replay`: what a builder is told for an event of a walk;
* **`Placed.Node.Stands.walk_script`**: what a walk meets is the script of what it walks through;
* **`Session.walk_replays`**: walks and builders are inverse to each other.
-/

/-! ## Walks by recursion -/

namespace LosslessSyntax.Session

open Placed

section

variable {s : Session} {tree : Placed.Tree}

/-- **Walks go through a node by recursion, in the order of its slots, and leave out what is
skipped.** `skips` tells after which events the rest of the innermost node is skipped. Such a walk is
nested, and a skip is followed by the leaving of the innermost node; without skips each part is met
once. However often the walk is asked, it tells this row and then nothing; and a walk over nodes, with
a schedule that knows nothing of tokens, tells the row without the tokens. They can fail only where
there are more slots than can be numbered. -/
theorem walk_traverses (reached : s.Reachable) (held : tree.green.toElement ∈ s.parts)
    (room : tree.start + tree.green.width ≤ maxSize) (calls : List Call) {node : Placed.Node}
    (given : ⟨.node, node⟩ ∈ ((Facade.start tree.root).after calls).handles)
    (skips : List Visit → Bool) :
    let row := node.green.toElement.traverse skips [] node.path
    let rowOfNodes := (node.green.toElement.traverse (Visit.heeding Visit.isToken skips) []
      node.path).filter fun visit => !visit.isToken
    Visit.Heeds skips node.path row ∧ Visit.Heeds skips node.path rowOfNodes ∧
    (∀ part : Element, part.Stands tree → node.path <+: part.path →
      (node.green.toElement.traverse (fun _ => false) [] node.path).count part.visit = 1) ∧
    (∀ count, ∃ events : List (Option Walk.Event),
      events.map (Option.map Walk.Event.visit) = (List.range count).map (row[·]?) ∧
      (∀ event, some event ∈ events → event.part.Stands tree) ∧
      Query.GivesFrom tree ((Facade.start tree.root).after calls).memo
        (Query.asking (Walk.heed Walk.next skips) count ([], node.walk)) events) ∧
    ∀ count, ∃ events : List (Option Walk.Event),
      events.map (Option.map Walk.Event.visit) = (List.range count).map (rowOfNodes[·]?) ∧
      (∀ event, some event ∈ events → event.part.Stands tree) ∧
      Query.GivesFrom tree ((Facade.start tree.root).after calls).memo
        (Query.asking (Walk.heed Walk.nextOfNode skips) count ([], node.walk)) events := by
  have fits := fits_of_reachable reached held room
  have valid := (Facade.valid_start tree).after fits calls
  have standing : node.Stands tree := valid.handles _ given
  refine ⟨node.green.heeds_traverse skips node.path, (node.green.heeds_traverse _ node.path).nodes,
    fun part hpart below => hpart.count_visit standing below, fun count => ?_, fun count => ?_⟩
  · obtain ⟨events, hgives, hevents, hparts⟩ := standing.walk_heeds fits skips count
    exact ⟨events, hevents, hparts, hgives.givesFrom valid.memo⟩
  · obtain ⟨events, hgives, hevents, hparts⟩ := standing.nodeWalk_heeds fits skips count
    exact ⟨events, hevents, hparts, hgives.givesFrom valid.memo⟩

/-- After the first name the rest of the root is skipped. -/
theorem walk_traverses_names : ∃ s : Session, s.Reachable ∧ names.toElement ∈ s.parts ∧
    ∃ events memo, Query.asking (Walk.heed Walk.next fun met => met.length == 2) 5
        ([], (Tree.root ⟨0, 7, names⟩).walk) ∅ = .ok events memo ∧
      events.map (Option.map Walk.Event.visit) =
        [some (.enter []), some (.token [0]), some (.leave []), none, none] := by
  obtain ⟨s, reached, held⟩ := names_reachable
  have hroot : ⟨.node, Tree.root ⟨0, 7, names⟩⟩ ∈
      ((Facade.start (Tree.root ⟨0, 7, names⟩)).after []).handles := List.mem_cons_self
  obtain ⟨-, -, -, hwalk, -⟩ := walk_traverses reached held (by decide) [] hroot
    fun met => met.length == 2
  obtain ⟨events, hevents, -, hgives⟩ := hwalk 5
  obtain ⟨memo, hrun⟩ := hgives.run (names_narrow 7)
  exact ⟨s, reached, held, events, memo, hrun, hevents⟩

end

end LosslessSyntax.Session

/-! ## Walks and builders -/

namespace LosslessSyntax

open Green

/-- What a builder is told for what a walk meets. -/
def Placed.Walk.Event.replay : Placed.Walk.Event → Builder.Event
  | .enter node => node.green.shape.layout.opening node.kind
  | .leave node => node.green.shape.layout.close
  | .token t => t.green.event

/-- What a builder is told for a visit, which is looked up in the tree. -/
def Visit.event (tree : Placed.Tree) : Visit → Builder.Event
  | enter path => (tree.node? path).elim .mark fun node => node.shape.layout.opening node.kind
  | leave path => (tree.node? path).elim .mark fun node => node.shape.layout.close
  | token path => (tree.token? path).elim .mark Token.event

namespace Placed

variable {tree : Tree}

theorem Walk.Event.replay_eq {event : Walk.Event} (standing : event.part.Stands tree) :
    event.replay = event.visit.event tree := by
  have hpart := Element.Stands.part?_eq standing
  cases event with
  | enter n =>
    have hnode : tree.node? n.path = some n.green := congrArg (·.bind (·.node?)) hpart
    rw [visit, Visit.event, hnode]
    rfl
  | leave n =>
    have hnode : tree.node? n.path = some n.green := congrArg (·.bind (·.node?)) hpart
    rw [visit, Visit.event, hnode]
    rfl
  | token t =>
    have htoken : tree.token? t.path = some t.green := congrArg (·.bind (·.token?)) hpart
    rw [visit, Visit.event, htoken]
    rfl

theorem flatMap_range {α β : Type} (row : List α) (f : α → List β) :
    ((List.range row.length).flatMap fun slot => (row[slot]?.map f).getD []) = row.flatMap f := by
  have hrow := flatMap_range_zipIdx row 0 fun _ => f
  rw [hrow]
  conv_rhs => rw [← List.zipIdx_map_fst 0 row, List.flatMap_map]

/-- What a walk meets below a path, told as events, is the script of what stands there. -/
theorem Tree.visits_script {path : List Nat} {e : Green.Element} (h : tree.part? path = some e) :
    (e.visits path).map (Visit.event tree) = e.script := by
  induction e generalizing path with
  | token t =>
    have htoken : tree.token? path = some t := congrArg (·.bind (·.token?)) h
    rw [Green.Element.visits, List.map_singleton, Visit.event, htoken, Green.Element.script_token]
    rfl
  | node head slots ih =>
    have hnode : tree.node? path = some ⟨head, slots⟩ := congrArg (·.bind (·.node?)) h
    have hnode' : tree.green.toElement.at? path = some (Green.Node.toElement ⟨head, slots⟩) := h
    have hslots : ((List.range slots.size).flatMap fun slot =>
        (slots[slot]?.map fun e => e.visits (path ++ [slot])).getD []).map (Visit.event tree) =
          slots.toList.flatMap Green.Element.script := by
      rw [← flatMap_range slots.toList, Array.length_toList, List.map_flatMap]
      refine List.flatMap_congr fun slot _ => ?_
      rw [Array.getElem?_toList]
      cases hslot : slots[slot]? with
      | none => rfl
      | some e => exact ih e (Array.mem_of_getElem? hslot) (at?_snoc hnode' hslot)
    rw [Green.Element.visits_node, List.map_append, List.map_cons, hslots, List.map_singleton,
      Visit.event, Visit.event, hnode, Green.Element.script_node]
    rfl

/-- **What a walk through a node meets is its script**, whatever was placed before. -/
theorem Node.Stands.walk_script {node : Node} (standing : node.Stands tree) (fits : tree.Fits)
    {memo : Memo} (hmemo : tree.Keeps memo) : ∃ events outcome,
    Walk.Runs node.walk memo events outcome ∧
      (outcome = .ok () ∧ events.map Walk.Event.replay = node.green.toElement.script ∨
        outcome = .error .slotTooLarge ∧ ¬ tree.Narrow) := by
  obtain ⟨events, outcome, hruns, hstanding, houtcome⟩ :=
    (Walk.valid_walk standing).runs fits hmemo
  refine ⟨events, outcome, hruns, houtcome.imp_left fun ⟨hdone, hvisits⟩ => ⟨hdone, ?_⟩⟩
  have hpart : tree.part? node.path = some node.green.toElement := standing.at?
  calc events.map Walk.Event.replay
      = (events.map Walk.Event.visit).map (Visit.event tree) := by
        rw [List.map_map]
        exact List.map_congr_left fun event hevent => Walk.Event.replay_eq (hstanding event hevent)
    _ = (node.green.toElement.visits node.path).map (Visit.event tree) := by
        rw [hvisits, Walk.walk_left, Tree.visits, hpart]
        rfl
    _ = node.green.toElement.script := Tree.visits_script hpart

theorem Tree.Fits.walk_script (fits : tree.Fits) : ∃ events outcome,
    Walk.Runs tree.root.walk ∅ events outcome ∧
      (outcome = .ok () ∧ events.map Walk.Event.replay = tree.green.toElement.script ∨
        outcome = .error .slotTooLarge ∧ ¬ tree.Narrow) :=
  (.root : tree.root.Stands tree).walk_script fits tree.keeps_empty

end Placed

open Placed (Tree Walk)

/-- **Walks and builders are inverse to each other.** To tell a builder what a walk through a tree
meets builds an equal tree, if there are no annotations in it; and what a builder was told, without
marks and finished subtrees, is what a walk through the tree that it built meets. Walks can fail only
where there are more slots than can be numbered. -/
theorem Session.walk_replays {s : Session} (reached : s.Reachable) {interner : Interner}
    (held : interner ∈ s.interners) (number : Nat) :
    (∀ green : Node, green.toElement ∈ s.parts →
      (green.toElement.AllNodes fun node => node.annotations = []) →
      ∃ walked outcome, Walk.Runs (Tree.root ⟨number, 0, green⟩).walk ∅ walked outcome ∧
        ((outcome = .ok () ∧ ∃ root : Node, (Builder.start s.supply interner).Builds
            (walked.map Walk.Event.replay) root ∧ root.toElement.equal green.toElement = true) ∨
          outcome = .error .slotTooLarge ∧ ¬ Tree.Narrow ⟨number, 0, green⟩)) ∧
    (∀ (events : List Builder.Event) (root : Node), (∀ event ∈ events, event.isPlain = true) →
      (Builder.start s.supply interner).Builds events root →
      ∃ walked outcome, Walk.Runs (Tree.root ⟨number, 0, root⟩).walk ∅ walked outcome ∧
        ((outcome = .ok () ∧ walked.map Walk.Event.replay = events.map Builder.Event.spelled) ∨
          outcome = .error .slotTooLarge ∧ ¬ Tree.Narrow ⟨number, 0, root⟩)) := by
  have hfits : ∀ green : Node, green.WellFormed → Tree.Fits ⟨number, 0, green⟩ := fun green well =>
    ⟨well, by rw [Nat.zero_add]; exact well.tidy.width_le⟩
  constructor
  · intro green heldToo bare
    obtain ⟨parts, h⟩ := reached.exists_stock
    obtain ⟨walked, outcome, hruns, houtcome⟩ :=
      (hfits green (h.stock.wellFormed (h.held _ heldToo))).walk_script
    refine ⟨walked, outcome, hruns, houtcome.imp_left fun ⟨hdone, hscript⟩ => ⟨hdone, ?_⟩⟩
    obtain ⟨root, hbuilds, halike⟩ := reached.script_builds held heldToo bare
    exact ⟨root, hscript ▸ hbuilds, halike.equal⟩
  · intro events root plain built
    have well := reached.wellFormed_of_run held
      (fun event hevent => event.offered_of_isPlain (plain event hevent) _) built
    obtain ⟨walked, outcome, hruns, houtcome⟩ := (hfits root well).walk_script
    refine ⟨walked, outcome, hruns, houtcome.imp_left fun ⟨hdone, hscript⟩ => ⟨hdone, ?_⟩⟩
    rw [hscript]
    exact reached.script_of_run held plain built

/-- Two names, and an empty one between them, are walked and built again; a reference to one name is
built and walked. -/
theorem Session.walk_replays_names : ∃ (s : Session) (interner : Interner), s.Reachable ∧
    interner ∈ s.interners ∧ names.toElement ∈ s.parts ∧
    (∃ walked root, Walk.Runs (Tree.root ⟨0, 0, names⟩).walk ∅ walked (.ok ()) ∧
      (Builder.start s.supply interner).Builds (walked.map Walk.Event.replay) root ∧
      root.toElement.equal names.toElement = true) ∧
    ∃ walked root, (Builder.start s.supply interner).Builds
        [.openNode .nameRef, .token .name "x", .closeNode] root ∧
      Walk.Runs (Tree.root ⟨0, 0, root⟩).walk ∅ walked (.ok ()) ∧
      walked.map Walk.Event.replay =
        [.openNode .nameRef, .triviaToken [] .name "x" [], .closeNode] := by
  have hs : Reachable { ofNames with interners := [.empty .plain] } :=
    .step ofNames_reachable (.interner .plain)
  obtain ⟨hbuild, hwalk⟩ := walk_replays hs List.mem_cons_self 0
  refine ⟨_, .empty .plain, hs, List.mem_cons_self, List.mem_cons_self, ?_, ?_⟩
  · obtain ⟨walked, outcome, hruns, ⟨rfl, root, hbuilds, hequal⟩ | ⟨-, hwide⟩⟩ :=
      hbuild names List.mem_cons_self (Element.allNodes_of_tokens names_tokens rfl)
    · exact ⟨walked, root, hruns, hbuilds, hequal⟩
    · exact absurd (names_narrow 0) hwide
  · let x : Token := ⟨4, .name, .none, "x", .none, by decide, by decide, by decide⟩
    let root : Node := ⟨⟨5, .nameRef, .plain, 1, #[0], none⟩, #[.token x]⟩
    have hanswers : ((Builder.start 4 (.empty .plain)).run
        [.openNode .nameRef, .token .name "x", .closeNode]).1 = [.ok none, .ok none, .ok none] := rfl
    have hbuilds : (Builder.start 4 (.empty .plain)).Builds
        [.openNode .nameRef, .token .name "x", .closeNode] root :=
      ⟨fun answer hanswer => by simpa [hanswers] using hanswer, _, rfl⟩
    have hnarrow : Tree.Narrow ⟨0, 0, root⟩ :=
      narrow_of_tokens (fun e he => by simp [root] at he; rw [he]; rfl)
        (Nat.le_of_lt_succ (by decide : 1 < UInt32.size + 1))
    obtain ⟨walked, outcome, hruns, ⟨rfl, hevents⟩ | ⟨-, hwide⟩⟩ :=
      hwalk _ root (by simp [Builder.Event.isPlain]) hbuilds
    · exact ⟨walked, root, hbuilds, hruns, hevents⟩
    · exact absurd hnarrow hwide

end LosslessSyntax
