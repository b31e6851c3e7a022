import LosslessSyntax.Proofs.Green.Overflow
import LosslessSyntax.Proofs.Session

/-!
# Overflow in sessions

A node that contains itself many times over is soon too wide, though a short program makes it. This is
found out when the node is made, and never where there is room.

* **`Session.overflow_exact`**: which requests overflow, and what the others give;
* `Session.exists_wide`: wide nodes are made in a few steps.
-/

namespace LosslessSyntax.Session

open Green
open Green.Node (Edit)

/-- **A sum overflows exactly if it is out of bounds.** It makes no difference whether the offsets
of a new node are added up with checks. A request for a node that has passed the checks of its kind
and its shape, also when a builder closes an entry and keeps no such node, is refused for an overflow
exactly if the exact sum of the widths in the row is out of bounds; else the node has exact sums. A
node that a caller holds can be given other annotations, and an edit overflows only if the edited node
would be too wide, so taking a slot out never does. -/
theorem overflow_exact :
    Node.makeChecked = Node.make ∧
    (∀ (request : Make Node) (slots : Array Element), Node.Accepted request slots → ∀ supply,
      Node.AddsUp slots (Make.outcome request supply)) ∧
    (∀ (builder : Builder) (entry : Builder.Entry) (opened : List Builder.Entry) (shape : Shape),
      builder.opened = entry :: opened →
      let slots := builder.children.extract entry.first builder.children.size
      entry.layout.shapeOf entry.kind slots = .ok shape →
      builder.interner.Misses entry.kind shape slots → ∃ made, Node.AddsUp slots made ∧
        (entry.layout.close.step builder).1 = made.map (fun _ => none) ∧
        ∀ node, made = .ok node → (entry.layout.close.step builder).2.children =
          (builder.children.take entry.first).push node.toElement) ∧
    ∀ s : Session, s.Reachable → ∀ node : Node, node.toElement ∈ s.parts →
      (∀ notes supply, ∃ made, Make.outcome (node.annotate notes) supply = .ok made ∧
        Node.AddsUp node.slots (.ok made)) ∧
      (∀ edit supply, Make.outcome (Edit.apply node edit) supply = .error (.violated .sizeOverflow) →
        maxSize < edit.widthAfter node) ∧
      ∀ slot supply,
        Make.outcome (node.removeSlot slot) supply ≠ .error (.violated .sizeOverflow) := by
  refine ⟨Node.makeChecked_eq, fun request slots accepted => accepted.addsUp,
    fun builder entry opened shape innermost right misses =>
      Builder.Event.close_addsUp innermost right misses,
    fun s reached node held => ?_⟩
  obtain ⟨parts, h⟩ := reached.exists_stock
  have tidy : node.Tidy := h.stock.tidy (h.held _ held)
  have hwidth : node.width ≤ maxSize := tidy.width_le
  refine ⟨fun notes supply => ?_, fun edit supply => tidy.overflow, fun slot supply overflow => ?_⟩
  · have hrow : node.width = rowWidth node.slots := tidy.width_eq
    exact ((Node.Accepted.annotate node notes).addsUp supply).ok (hrow ▸ hwidth)
  · have hwide : maxSize < node.width - node.widthOf slot :=
      tidy.overflow (show Make.outcome (Edit.apply node (.remove slot)) supply = _ from overflow)
    omega

/-- The request for a node that contains the same node twice. -/
abbrev twice (node : Node) : Make Node :=
  Node.plain .exprStmt #[node.toElement, node.toElement]

theorem twice_accepted (node : Node) :
    Node.Accepted (twice node) #[node.toElement, node.toElement] := .plain rfl _

theorem rowWidth_twice (node : Node) :
    rowWidth #[node.toElement, node.toElement] = node.width + node.width := rfl

theorem Reachable.exists_made {s : Session} (reached : s.Reachable) {computation : Make Node}
    (offered : s.Offers computation) {made : Node}
    (hmade : Make.outcome computation s.supply = .ok made) :
    ∃ t : Session, t.Reachable ∧ made.toElement ∈ t.parts := by
  refine ⟨_, reached.step (.node offered), ?_⟩
  unfold Make.outcome at hmade
  unfold makes
  cases hrun : computation s.supply with
  | ok part supply =>
    rw [hrun] at hmade
    cases hmade
    exact List.mem_cons_self
  | error failure supply =>
    rw [hrun] at hmade
    cases hmade

/-- **Every doubling makes a node twice as wide**, as long as there is room. -/
theorem exists_wide (count : Nat) (h : 2 ^ count ≤ maxSize) : ∃ s : Session, s.Reachable ∧
    ∃ node : Node, node.toElement ∈ s.parts ∧ node.width = 2 ^ count := by
  induction count with
  | zero =>
    have h1 := Reachable.step .start (.token .none .name "x" .none)
    have hslots : ∀ e ∈ #[Element.token ⟨0, .name, .none, "x", .none, by decide, by decide, by decide⟩],
        e ∈ [Element.token ⟨0, .name, .none, "x", .none, by decide, by decide, by decide⟩] := by simp
    exact ⟨_, h1.step (.node (.plain .exprStmt _ hslots)), _, List.mem_cons_self, rfl⟩
  | succ count ih =>
    obtain ⟨s, reached, node, held, hwidth⟩ := ih (by omega)
    have hdouble : rowWidth #[node.toElement, node.toElement] = 2 ^ (count + 1) := by
      rw [rowWidth_twice, hwidth]
      omega
    obtain ⟨made, hmade, -, -, hsum, -⟩ :=
      ((twice_accepted node).addsUp s.supply).ok (hdouble ▸ h)
    obtain ⟨t, reached', held'⟩ :=
      reached.exists_made (.plain .exprStmt _ (by simpa using held)) hmade
    exact ⟨t, reached', made, held', hsum.trans hdouble⟩

/-- A node that is half as wide as the bound and one more can be given other annotations, but not be
put twice into one node. -/
theorem overflow_exact_twice : ∃ s : Session, s.Reachable ∧ ∃ node : Node,
    node.toElement ∈ s.parts ∧ node.width = 2 ^ 31 ∧
    Make.outcome (twice node) s.supply = .error (.violated .sizeOverflow) ∧
    ∃ made, Make.outcome (node.annotate []) s.supply = .ok made := by
  obtain ⟨s, reached, node, held, hwidth⟩ := exists_wide 31 (by decide)
  refine ⟨s, reached, node, held, hwidth, ?_, ?_⟩
  · have hsum := overflow_exact.2.1 _ _ (twice_accepted node) s.supply
    cases hout : Make.outcome (twice node) s.supply with
    | ok made =>
      rw [hout] at hsum
      have hfits := hsum.1
      rw [rowWidth_twice, hwidth] at hfits
      exact absurd hfits (by decide)
    | error failure =>
      rw [hout] at hsum
      rw [hsum.2]
  · obtain ⟨made, hmade, -⟩ := (overflow_exact.2.2.2 s reached node held).1 [] s.supply
    exact ⟨made, hmade⟩

end LosslessSyntax.Session
