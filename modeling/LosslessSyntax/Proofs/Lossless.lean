import LosslessSyntax.Proofs.Green.Pending
import LosslessSyntax.Proofs.Placed.Preorder
import LosslessSyntax.Proofs.Walking
import LosslessSyntax.Proofs.Text.Cut

/-!
# Nothing is lost

The text of a tree is all there, and every offset counts its bytes: what is written of a part is the
slice of the bytes of the whole text that the part covers, the parts in the slots of a node stand one
after the other from its start to its end, and the tokens that a walk meets make up what is written.

* `Span.Tile`: stretches of text that stand one after the other;
* **`Placed.Element.Stands.text_slice`**: the text of a part as a slice of bytes;
* **`Placed.Node.Stands.children_tile`**: the parts in the slots of a node;
* **`Green.Element.script_text`**: the text of a tree from its script;
* **`Session.lossless`**: every tree that a caller can get.
-/

namespace LosslessSyntax

open Green

/-- Stretches of text that stand one after the other, the first from `start` on and the last up to
`stop`. -/
def Span.Tile : Nat → Nat → List Span → Prop
  | start, stop, [] => start = stop
  | start, stop, span :: rest => span.start = start ∧ Tile span.stop stop rest

/-- What a builder is told of the text. -/
def Builder.Event.text : Builder.Event → String
  | .token _ text => text
  | .triviaToken _ _ text _ => text
  | .subtree node => node.text
  | _ => ""

/-- The token that a walk meets. -/
def Placed.Walk.Event.token? : Placed.Walk.Event → Option Placed.Token
  | .token t => some t
  | _ => none

/-! ## The text of a script -/

theorem join_flatMap {α β : Type} (f : β → String) (g : α → List β) (row : List α) :
    String.join ((row.flatMap g).map f) =
      String.join (row.map fun x => String.join ((g x).map f)) := by
  induction row with
  | nil => rfl
  | cons x row ih =>
    rw [List.flatMap_cons, List.map_append, String.join_append, ih, List.map_cons, String.join_cons]

/-- **The text of a tree is what its script tells of it.** -/
theorem Green.Element.script_text (e : Green.Element) :
    String.join (e.script.map Builder.Event.text) = e.text := by
  induction e with
  | token t =>
    rw [script_token, Element.text, textAfter]
    rfl
  | node head slots ih =>
    have hopening : (head.shape.layout.opening head.kind).text = "" := by
      cases head.shape.layout <;> rfl
    have hclose : (head.shape.layout.close).text = "" := by
      cases head.shape.layout <;> rfl
    have hslots : slots.toList.map (fun e => String.join (e.script.map Builder.Event.text)) =
        slots.toList.map Element.text :=
      List.map_congr_left fun e he => ih e (Array.mem_toList_iff.1 he)
    rw [script_node, List.map_cons, List.map_append, List.map_singleton, String.join_cons,
      String.join_append, join_flatMap, hopening, hclose, hslots, text_node]
    simp

namespace Placed

/-- The text of the tokens that were met is what a builder would be told of it. -/
theorem Walk.replay_text (events : List Walk.Event) :
    String.join ((events.filterMap Walk.Event.token?).map Token.text) =
      String.join ((events.map Walk.Event.replay).map Builder.Event.text) := by
  induction events with
  | nil => rfl
  | cons event events ih =>
    rw [List.map_cons, List.map_cons, String.join_cons, ← ih]
    cases event with
    | token t =>
      rw [List.filterMap_cons, Walk.Event.token?, List.map_cons, String.join_cons]
      rfl
    | enter n =>
      have hopening : (Walk.Event.enter n).replay.text = "" := by
        rw [Walk.Event.replay]
        cases n.green.shape.layout <;> rfl
      rw [hopening, String.empty_append]
      rfl
    | leave n =>
      have hclose : (Walk.Event.leave n).replay.text = "" := by
        rw [Walk.Event.replay]
        cases n.green.shape.layout <;> rfl
      rw [hclose, String.empty_append]
      rfl

/-! ## Slices -/

variable {tree : Tree}

theorem Element.display_eq (element : Element) : element.display = element.text := by
  cases element with
  | node n => exact n.green.display_eq
  | token t => rfl

theorem Element.text_green (element : Element) : element.text = element.green.text := by
  cases element with
  | node n => rfl
  | token t =>
    rw [green, Green.Element.text, Green.Element.textAfter, String.empty_append]
    rfl

/-- **The text of a part is the slice of the whole text that it covers.** -/
theorem Element.Stands.text_slice {element : Element} (standing : element.Stands tree)
    (fits : tree.Fits) : ∃ span, element.span = .ok span ∧ tree.start ≤ span.start ∧
      span.stop ≤ tree.start + tree.green.width ∧
      element.text.toByteArray =
        tree.root.text.toByteArray.extract (span.start - tree.start) (span.stop - tree.start) := by
  obtain ⟨left, right, htext, hleft⟩ := fits.wellFormed.text_around standing.at?
  have hbytes : tree.root.text.toByteArray =
      left.toByteArray ++ element.text.toByteArray ++ right.toByteArray := by
    rw [element.text_green, ← String.toByteArray_append, ← String.toByteArray_append]
    exact congrArg String.toByteArray htext
  have hwell : element.green.WellFormed := fits.wellFormed.at? standing.at?
  have hsize : element.text.toByteArray.size = element.width :=
    (congrArg String.utf8ByteSize element.text_green).trans hwell.text_bytes
  have hstart : element.start - tree.start = left.toByteArray.size := by
    rw [standing.start_eq, Nat.add_sub_cancel_left]
    exact hleft.symm
  have hstop : element.start + element.width - tree.start =
      left.toByteArray.size + element.text.toByteArray.size := by
    rw [← hstart, hsize, standing.start_eq]
    omega
  have hinside : tree.green.toElement.startAt element.path + element.width ≤ tree.green.width :=
    startAt_add_le fits.wellFormed standing.at?
  refine ⟨_, standing.span_eq fits, ?_, ?_, ?_⟩
  · dsimp only
    rw [standing.start_eq]
    exact Nat.le_add_right _ _
  · dsimp only
    rw [standing.start_eq]
    omega
  · dsimp only
    rw [hbytes, hstart, hstop, Text.extract_middle]

/-! ## Children -/

theorem Node.Stands.partsAt_tile {node : Node} (standing : node.Stands tree) (fits : tree.Fits)
    {slot count : Nat} (h : slot + count ≤ node.arity) :
    ∃ spans, (node.partsAt (List.range' slot count)).mapM Element.span = .ok spans ∧
      Span.Tile (node.start + node.green.before slot)
        (node.start + node.green.before (slot + count)) spans := by
  induction count generalizing slot with
  | zero => exact ⟨[], rfl, rfl⟩
  | succ count ih =>
    obtain ⟨below, hbelow, hrow⟩ := Node.partsAt_range' (show slot < node.arity by omega) count
    obtain ⟨spans, hspans, htile⟩ := ih (show slot + 1 + count ≤ node.arity by omega)
    have hspan := (standing.below? hbelow).span_eq fits
    refine ⟨⟨below.start, below.start + below.width, Nat.le_add_right _ _⟩ :: spans, ?_,
      Node.below?_start hbelow, ?_⟩
    · rw [hrow, List.mapM_cons, hspan, hspans]
      rfl
    · rw [← (standing.below?_inside fits hbelow).2.1] at htile
      rw [show slot + (count + 1) = slot + 1 + count by omega]
      exact htile

theorem Node.getElem?_partsAt_range' {node : Node} {slot count index : Nat}
    (h : slot + count ≤ node.arity) (hindex : index < count) :
    (node.partsAt (List.range' slot count))[index]? = node.below? (slot + index) := by
  induction count generalizing slot index with
  | zero => exact absurd hindex (Nat.not_lt_zero _)
  | succ count ih =>
    obtain ⟨below, hbelow, hrow⟩ := Node.partsAt_range' (show slot < node.arity by omega) count
    rw [hrow]
    cases index with
    | zero => exact hbelow.symm
    | succ index =>
      rw [List.getElem?_cons_succ, ih (by omega) (by omega)]
      congr 1
      omega

theorem Node.children_getElem? {node : Node} {slot : Nat} (h : slot < node.arity) :
    node.children[slot]? = node.below? slot := by
  rw [children, List.range_eq_range', Node.getElem?_partsAt_range' (by omega) h, Nat.zero_add]

theorem Node.length_children (node : Node) : node.children.length = node.arity := by
  rw [children, List.range_eq_range', Node.length_partsAt_range' (by omega)]

/-- **The parts in the slots of a node stand one after the other**, from its start to its end. -/
theorem Node.Stands.children_tile {node : Node} (standing : node.Stands tree) (fits : tree.Fits) :
    ∃ spans, node.children.mapM Element.span = .ok spans ∧
      Span.Tile node.start (node.start + node.width) spans := by
  obtain ⟨spans, hspans, htile⟩ := standing.partsAt_tile fits (Nat.le_of_eq (Nat.zero_add node.arity))
  have hwidth : node.green.before node.green.arity = node.width :=
    (standing.wellFormed fits).tidy.before_arity
  rw [Green.Node.before_zero, Nat.add_zero, Nat.zero_add] at htile
  rw [← List.range_eq_range'] at hspans
  exact ⟨spans, hspans, hwidth ▸ htile⟩

end Placed

namespace Session

open Placed

/-- **Nothing is lost, and offsets count bytes.** Whatever a caller has asked of a tree: what is written
of each part that it holds is the slice that the part covers of what is written of the root; what is
found in the slots of a node stands one after the other, from its start to its end; and the tokens that
a walk meets make up what is written of the node. Slots and walks can fail only where there are more
slots than can be numbered. -/
theorem lossless {s : Session} (reached : s.Reachable) {tree : Tree}
    (held : tree.green.toElement ∈ s.parts) (room : tree.start + tree.green.width ≤ maxSize)
    (calls : List Call) :
    (∀ element : Placed.Element,
      Handle.part element ∈ ((Facade.start tree.root).after calls).handles →
      ∃ span, element.span = .ok span ∧ tree.start ≤ span.start ∧
        span.stop ≤ tree.start + tree.green.width ∧ element.display.toByteArray =
          tree.root.display.toByteArray.extract (span.start - tree.start)
            (span.stop - tree.start)) ∧
    ∀ node : Placed.Node, ⟨.node, node⟩ ∈ ((Facade.start tree.root).after calls).handles →
      (∃ (whole : Span) (children : List Placed.Element) (spans : List Span),
        node.span = .ok whole ∧ children.length = node.arity ∧
        (∀ (slot : Nat) (below : Placed.Element), children[slot]? = some below → ∃ memo,
          node.slotAt slot ((Facade.start tree.root).after calls).memo = .ok below memo ∨
          ¬ tree.Narrow ∧ node.slotAt slot ((Facade.start tree.root).after calls).memo =
            .error .slotTooLarge memo) ∧
        children.mapM Placed.Element.span = .ok spans ∧ Span.Tile whole.start whole.stop spans) ∧
      ∃ met outcome,
        Walk.Runs node.walk ((Facade.start tree.root).after calls).memo met outcome ∧
        (outcome = .ok () ∧ String.join ((met.filterMap Walk.Event.token?).map Placed.Token.text) =
            node.display ∨
          outcome = .error .slotTooLarge ∧ ¬ tree.Narrow) := by
  have fits := fits_of_reachable reached held room
  have valid := (Facade.valid_start tree).after fits calls
  refine ⟨fun element given => ?_, fun node given => ?_⟩
  · have standing : element.Stands tree := by
      cases element <;> exact valid.handles _ given
    have hroot : tree.root.display = tree.root.text := tree.root.green.display_eq
    rw [element.display_eq, hroot]
    exact standing.text_slice fits
  have standing : node.Stands tree := valid.handles _ given
  constructor
  · obtain ⟨spans, hspans, htile⟩ := standing.children_tile fits
    refine ⟨_, node.children, spans, if_pos (standing.stop_le fits), node.length_children,
      fun slot below h => ?_, hspans, htile⟩
    have hslot : slot < node.arity := node.length_children ▸ (List.getElem?_eq_some_iff.1 h).1
    rw [Node.children_getElem? hslot] at h
    exact (Node.slotAt_gives standing fits h).run valid.memo
  · obtain ⟨met, outcome, hruns, houtcome⟩ := standing.walk_script fits valid.memo
    refine ⟨met, outcome, hruns, houtcome.imp_left fun ⟨hdone, hscript⟩ => ⟨hdone, ?_⟩⟩
    rw [Walk.replay_text, hscript, Green.Element.script_text]
    exact node.green.display_eq.symm

/-- The last of three names is the second byte of the text; the names stand one after the other, and a
walk meets the text of all of them. -/
theorem lossless_names : ∃ s : Session, s.Reachable ∧ names.toElement ∈ s.parts ∧
    (∃ last : Placed.Token, last.Stands ⟨0, 7, names⟩ ∧ last.span = .ok ⟨8, 9, by decide⟩ ∧
      last.text.toByteArray = "xy".toByteArray.extract 1 2) ∧
    (∃ (children : List Placed.Element) (spans : List Span), children.length = 3 ∧
      children.mapM Placed.Element.span = .ok spans ∧ Span.Tile 7 9 spans) ∧
    ∃ met memo, Walk.Runs (Tree.root ⟨0, 7, names⟩).walk memo met (.ok ()) ∧
      String.join ((met.filterMap Walk.Event.token?).map Placed.Token.text) = "xy" := by
  obtain ⟨s, reached, held⟩ := names_reachable
  let tree : Tree := ⟨0, 7, names⟩
  let y : Green.Token := ⟨2, .name, .none, "y", .none, by decide, by decide, by decide⟩
  let last : Placed.Token := tree.root.tokenBelow 2 y
  let calls : List Call := [.ask 0 .node (.slotAt 2)]
  have hhandles : ((Facade.start tree.root).after calls).handles =
      [Handle.part (.node tree.root), Handle.part (.token last)] := rfl
  have htree : tree.green.toElement ∈ s.parts := held
  obtain ⟨hslices, hnodes⟩ := lossless reached htree (by decide) calls
  have hwritten : tree.root.display = "xy" := tree.root.green.display_eq
  obtain ⟨span, hspan, -, -, hslice⟩ := hslices (.token last) (by simp [hhandles])
  rw [hwritten] at hslice
  obtain ⟨hchildren, met, outcome, hruns, houtcome⟩ :=
    hnodes tree.root (hhandles ▸ List.mem_cons_self)
  have hstanding : last.Stands tree := .child .root rfl
  refine ⟨s, reached, held, ⟨last, hstanding, rfl, ?_⟩, ?_, met,
    ((Facade.start tree.root).after calls).memo, ?_⟩
  · have hends : span = ⟨8, 9, by decide⟩ := (Except.ok.inj hspan).symm
    subst hends
    exact hslice
  · obtain ⟨whole, children, spans, hwhole, hlength, -, hspans, htile⟩ := hchildren
    have hends : whole = ⟨7, 9, by decide⟩ := (Except.ok.inj hwhole).symm
    subst hends
    exact ⟨children, spans, hlength, hspans, htile⟩
  · rcases houtcome with ⟨rfl, htext⟩ | ⟨-, hwide⟩
    · exact ⟨hruns, htext.trans hwritten⟩
    · exact absurd (names_narrow 7) hwide

end Session

end LosslessSyntax
