import LosslessSyntax.Proofs.Covering
import LosslessSyntax.Proofs.Placing

/-!
# How wide a part the search comes to

The search for a stretch of text goes into the first slot that ends after its start. So the part that
it finds is no wider than any other that holds the text, but for one case: between two parts a
stretch without text is held by what ends there as well, and the search passes that by.

* **`Placed.Node.narrowest_of_holding`**: the last part that holds a text, against the others;
* **`Session.covering_narrowest`**: the search, for every node that a caller holds;
* `Session.covering_passes_narrower`: a token without text that is passed by.
-/

namespace LosslessSyntax

namespace Placed

/-- A part that holds a text and is passed by in the search: the text is empty and within the node,
and the part ends there. -/
def Node.PassedBy (node : Node) (span : Span) (other : Element) : Prop :=
  span.start = span.stop ∧ span.start < node.start + node.width ∧
    other.start + other.width = span.start

variable {tree : Tree} {node : Node} {span : Span} {element : Element}

/-- **The last part that holds a text is no wider than the others**, those that are passed by apart. -/
theorem Node.narrowest_of_holding (standing : node.Stands tree) (fits : tree.Fits)
    (h : (node.holding span).getLast? = some element) {other : Element}
    (hother : other ∈ (Element.node node).parts) (hcovers : other.Covers span) :
    element.width ≤ other.width ∨ node.PassedBy span other := by
  obtain ⟨hmem, ⟨hfirst, -⟩, hothers⟩ := Node.holding_last h
  have hroot : (Element.node node).Stands tree := standing
  have helement := hroot.of_mem_parts hmem
  have hstanding := hroot.of_mem_parts hother
  have hinside := hroot.inside_parts fits hmem
  have hotherInside := hroot.inside_parts fits hother
  change _ ∧ _ ≤ node.start + node.width at hinside hotherInside
  have htext := span.start_le_stop
  obtain ⟨hstart, hreach⟩ := (hstanding.covers_iff fits).1 hcovers
  by_cases hbeyond : span.start < other.start + other.width ∨
      span.start = node.start + node.width
  · rcases hothers other hother ⟨hstart, hreach, hbeyond⟩ with rfl | honward | hleft
    · exact .inl (Nat.le_refl _)
    · -- the part that is found is within the other one
      have hwithin := hstanding.inside_parts fits ((hstanding.mem_parts_iff helement).2 honward)
      exact .inl (by omega)
    · -- to its right there is no text but at the end of the node, where none is left
      have hends := hstanding.stop_le_of_leftOf helement fits hleft
      exact .inl (by omega)
  · exact .inr ⟨by omega, by omega, by omega⟩

end Placed

namespace Session

open Placed

/-- **The narrowest part around a stretch of text.** Wherever a series of moves leads, and for every
stretch within a node that the caller holds: the search finds a part of the node that holds the
stretch, and every other part that does is at least as wide, unless the stretch has no text, lies
before the end of the node, and the other part ends there. The search can fail only where there are
more slots than can be numbered. -/
theorem covering_narrowest {s : Session} (reached : s.Reachable) {moves : List Grove.Move}
    (planted : s.Plants moves) {tree : Tree} {node : Node}
    (holds : (Grove.empty.after moves).Holds tree node)
    (room : tree.start + tree.green.width ≤ maxSize) :
    let memo := (Grove.empty.after moves).memo
    ∃ whole, node.span = .ok whole ∧ ∀ span, whole.covers span = true →
      ∃ element memo', element ∈ (Element.node node).parts ∧ element.Covers span ∧
        (node.covering span memo = .ok element memo' ∨
          ¬ tree.Narrow ∧ node.covering span memo = .error .slotTooLarge memo') ∧
        ∀ other ∈ (Element.node node).parts, other.Covers span →
          element.width ≤ other.width ∨ node.PassedBy span other := by
  intro memo
  have h := Grove.sound_empty.after (planted.wellFormed reached)
  have fits := h.fits holds.has room
  have standing := (h.lives holds).standing
  refine ⟨_, standing.span_ok fits, fun span hcovers => ?_⟩
  have hinside : node.start ≤ span.start ∧ span.stop ≤ node.start + node.width := by
    simpa [Span.covers] using hcovers
  have hcovering := node.covering_gives standing fits span
  rw [if_pos hinside] at hcovering
  obtain ⟨element, hlast, hgives⟩ := hcovering
  obtain ⟨memo', hrun⟩ := hgives.run (h.trees tree holds.has).keeps
  have hsmallest := Node.smallest_of_holding standing fits hlast
  exact ⟨element, memo', hsmallest.mem_parts, hsmallest.covers, hrun,
    fun other hother => Node.narrowest_of_holding standing fits hlast hother⟩

/-- Around the last name there is nothing narrower than what is found. -/
theorem covering_narrowest_names : ∃ s : Session, s.Reachable ∧ names.toElement ∈ s.parts ∧
    ∃ element memo, (Tree.root ⟨0, 7, names⟩).covering ⟨8, 9, by decide⟩ ∅ = .ok element memo ∧
      ∀ other ∈ (Element.node (Tree.root ⟨0, 7, names⟩)).parts,
        other.Covers ⟨8, 9, by decide⟩ → element.width ≤ other.width := by
  obtain ⟨s, reached, held⟩ := names_reachable
  obtain ⟨whole, hwhole, hcovering⟩ :=
    covering_narrowest reached (.single held 7) (Grove.holds_root 7 names) (by decide)
  have hspan : whole = ⟨7, 9, by decide⟩ := (Except.ok.inj hwhole).symm
  subst hspan
  obtain ⟨element, memo, -, -, hrun | ⟨hwide, -⟩, hothers⟩ := hcovering ⟨8, 9, by decide⟩ rfl
  · refine ⟨s, reached, held, element, memo, hrun, fun other hother hcovers => ?_⟩
    exact (hothers other hother hcovers).resolve_right fun hpassed => absurd hpassed.1 (by decide)
  · exact absurd (names_narrow 7) hwide

/-- Between the two names the search finds the second one, and not the empty one before it. -/
theorem covering_passes_narrower : ∃ s : Session, s.Reachable ∧ names.toElement ∈ s.parts ∧
    ∃ empty second : Token,
      (Tree.root ⟨0, 7, names⟩).covering ⟨8, 8, by decide⟩ ∅ = .ok (.token second) ∅ ∧
      .token empty ∈ (Element.node (Tree.root ⟨0, 7, names⟩)).parts ∧
      (Element.token empty).Covers ⟨8, 8, by decide⟩ ∧
      (Element.token empty).width < (Element.token second).width := by
  obtain ⟨s, reached, held⟩ := names_reachable
  let root : Node := Tree.root ⟨0, 7, names⟩
  let name (slot : Nat) (green : Green.Token) : Token := root.tokenBelow slot green
  let empty := name 1 ⟨1, .name, .none, "", .none, by decide, by decide, by decide⟩
  let second := name 2 ⟨2, .name, .none, "y", .none, by decide, by decide, by decide⟩
  have hempty : root.below? 1 = some (.token empty) := rfl
  refine ⟨s, reached, held, empty, second, ?_, ?_, ⟨⟨8, 8, by decide⟩, rfl, rfl⟩, by decide⟩
  · change (root.coveringFrom 8 8) ∅ = _
    rw [Node.coveringFrom_eq]
    have hslot : root.green.slotCovering? (8 - root.start) (8 - root.start) = some 2 := by
      decide +kernel
    rw [hslot]
    rfl
  · exact List.mem_cons_of_mem _ (Node.mem_parts.2 ⟨1, _, hempty, Element.mem_parts_self _⟩)

end Session

end LosslessSyntax
