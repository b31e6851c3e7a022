import LosslessSyntax.Proofs.Facade
import LosslessSyntax.Proofs.Green.Update
import LosslessSyntax.Proofs.Splice

/-!
# Replacements that follow one another

Parts of a tree can be replaced one after the other, each in a tree over the root that the one before
has given. What comes out depends on what was put where, and not on the order or on what was there
in between.

* `Green.Element.Matches`: trees that are equal but for the identities of their parts;
* `Placed.AfterReplacing`: what is so after a replacement, whatever identities are free;
* **`Placed.AfterReplacing.intro`**: a replacement gives a spliced tree if there is room for it;
* **`Session.replace_laws`**: replacements at one path, at two paths that part, and of a node by
  itself.
-/

namespace LosslessSyntax

open Green

/-- Trees that differ in nothing but the identities of their parts, and are told to be equal. -/
def Green.Element.Matches (a b : Green.Element) : Prop := a.Alike b ∧ a.equal b = true

namespace Placed

/-- In every tree over a green root there is a node at the path, and to replace it gives another green
root, whatever identities are free; each root that comes out has the property. -/
def AfterReplacing (root : Green.Node) (path : List Nat) (new : Green.Node)
    (post : Green.Node → Prop) : Prop :=
  ∀ number start, ∃ node : Node, node.Stands ⟨number, start, root⟩ ∧ node.path = path ∧
    ∀ supply, ∃ made next, node.replace new supply = .ok made next ∧ post made

section

variable {root old new : Green.Node} {path : List Nat} {post : Green.Node → Prop}

/-- **After a replacement for which there is room the tree is spliced.** -/
theorem AfterReplacing.intro (well : root.WellFormed)
    (hold : root.toElement.at? path = some old.toElement) (hnew : new.WellFormed)
    (room : root.width - old.width + new.width ≤ maxSize)
    (h : ∀ made : Green.Node, made.WellFormed →
      Green.Element.Spliced new.toElement path root.toElement made.toElement → post made) :
    AfterReplacing root path new post := by
  intro number start
  obtain ⟨element, standing, rfl, hgreen⟩ :=
    Tree.exists_standing (show Tree.part? ⟨number, start, root⟩ path = some old.toElement from hold)
  cases element with
  | token t => cases hgreen
  | node node =>
    have hnode : node.Stands ⟨number, start, root⟩ := standing
    refine ⟨node, hnode, rfl, fun supply => ?_⟩
    have houtcome := hnode.replace_run well new supply
    have hwidth : node.green.toElement.width = old.width := congrArg Green.Element.width hgreen
    cases hrun : node.replace new supply with
    | ok made next =>
      rw [hrun] at houtcome
      exact ⟨made, next, rfl, h made (hnode.replace_wellFormed well hnew hrun) houtcome⟩
    | error failure next =>
      rw [hrun] at houtcome
      exact absurd houtcome.2 (Nat.not_lt.2 (hwidth ▸ room))

end

end Placed

namespace Session

open Placed (AfterReplacing)

/-- **The laws of independent updates.** Of two replacements at one path the second counts. At paths
of which neither goes on from the other they can be made in either order. To replace a node by itself
takes away the annotations above it, and nothing else. -/
theorem replace_laws {s : Session} (reached : s.Reachable) {root a b : Node}
    (held : root.toElement ∈ s.parts) (heldA : a.toElement ∈ s.parts) (heldB : b.toElement ∈ s.parts)
    {p q : List Nat} {x y : Node} (hx : root.toElement.at? p = some x.toElement)
    (hy : root.toElement.at? q = some y.toElement) :
    (root.width - x.width + a.width ≤ maxSize → root.width - x.width + b.width ≤ maxSize →
      AfterReplacing root p a fun first => AfterReplacing first p b fun second =>
        AfterReplacing root p b fun once => second.toElement.Matches once.toElement) ∧
    (¬ p <+: q → ¬ q <+: p → root.width - x.width + a.width ≤ maxSize →
      root.width - y.width + b.width ≤ maxSize →
      root.width - x.width + a.width - y.width + b.width ≤ maxSize →
      AfterReplacing root p a fun left => AfterReplacing left q b fun both =>
        AfterReplacing root q b fun right => AfterReplacing right p a fun both' =>
          both.toElement.Matches both'.toElement) ∧
    AfterReplacing root p x fun same => same.toElement.Matches (root.toElement.unnoted p) := by
  obtain ⟨parts, h⟩ := reached.exists_stock
  have well : root.WellFormed := h.stock.wellFormed (h.held _ held)
  have wellA : a.WellFormed := h.stock.wellFormed (h.held _ heldA)
  have wellB : b.WellFormed := h.stock.wellFormed (h.held _ heldB)
  have wellX : x.WellFormed := well.at? hx
  have hle : x.width ≤ root.width := well.width_le hx
  have hle' : y.width ≤ root.width := well.width_le hy
  refine ⟨fun roomA roomB => ?_, fun hpq hqp roomA roomB room => ?_, ?_⟩
  · refine .intro well hx wellA roomA fun first wellFirst hfirst => ?_
    have hwidth := hfirst.width_add hx well wellFirst
    simp only [Node.toElement_width] at hwidth
    refine .intro wellFirst hfirst.at? wellB (by omega) fun second wellSecond hsecond => ?_
    refine .intro well hx wellB roomB fun once wellOnce honce => ?_
    have halike := (hfirst.again hsecond).unique honce wellSecond wellOnce
    exact ⟨halike, halike.equal⟩
  · refine .intro well hx wellA roomA fun left wellLeft hleft => ?_
    have hyLeft := (hleft.at?_beside hqp hpq).trans hy
    have hwidth := hleft.width_add hx well wellLeft
    have hinside := wellLeft.width_le hyLeft
    simp only [Node.toElement_width] at hwidth hinside
    refine .intro wellLeft hyLeft wellB (by omega) fun both wellBoth hboth => ?_
    refine .intro well hy wellB roomB fun right wellRight hright => ?_
    have hxRight := (hright.at?_beside hpq hqp).trans hx
    have hwidth' := hright.width_add hy well wellRight
    have hinside' := wellRight.width_le hxRight
    simp only [Node.toElement_width] at hwidth' hinside'
    refine .intro wellRight hxRight wellA (by omega) fun both' wellBoth' hboth' => ?_
    have halike : both.toElement.Alike both'.toElement := by
      rcases Placed.prefix_or_leftOf p q with h | h | h | h
      · exact absurd h hpq
      · exact absurd h hqp
      · exact hleft.comm h hboth hright hboth' wellBoth wellBoth'
      · exact (hright.comm h hboth' hleft hboth wellBoth' wellBoth).symm
    exact ⟨halike, halike.equal⟩
  · refine .intro well hx wellX (by have := well.tidy.width_le; omega) fun same wellSame hsame => ?_
    have halike := hsame.same hx well wellSame
    exact ⟨halike, halike.equal⟩

/-- The two references in an annotated statement change places, in either order, and the annotation
is gone. -/
theorem replace_laws_swap : ∃ (s : Session) (root ref other : Node), s.Reachable ∧
    root.toElement ∈ s.parts ∧ root.slots = #[ref.toElement, other.toElement] ∧
    root.annotations ≠ [] ∧
    (AfterReplacing root [0] other fun first => AfterReplacing first [0] ref fun second =>
      AfterReplacing root [0] ref fun once => second.toElement.Matches once.toElement) ∧
    (AfterReplacing root [0] other fun left => AfterReplacing left [1] ref fun both =>
      AfterReplacing root [1] ref fun right => AfterReplacing right [0] other fun both' =>
        both.toElement.Matches both'.toElement) ∧
    AfterReplacing root [0] ref fun same =>
      same.toElement.Matches (.node { root.head with notes := none } root.slots) := by
  let why : Token := ⟨2, .name, .none, "why", .none, by decide, by decide, by decide⟩
  let other : Node := ⟨⟨3, .nameRef, .plain, 3, #[0], none⟩, #[.token why]⟩
  let plan : Node := ⟨⟨4, .exprStmt, .plain, 4, #[0, 1], none⟩, #[seenRef.toElement, other.toElement]⟩
  let root : Node := { plan with head := { plan.head with
    id := 5, notes := some [⟨⟨0, 1, by decide⟩, "unused"⟩] } }
  have hwhy : ∀ e ∈ #[Element.token why],
      e ∈ [Element.token why, seenRef.toElement, .token seen] := by simp
  have hslots : ∀ e ∈ plan.slots,
      e ∈ [other.toElement, .token why, seenRef.toElement, .token seen] := by simp [plan]
  have h3 : Reachable ⟨3, [.token why, seenRef.toElement, .token seen], [], []⟩ :=
    .step seenRef_reachable (.token .none .name "why" .none)
  have h4 : Reachable ⟨4, [other.toElement, .token why, seenRef.toElement, .token seen], [], []⟩ :=
    .step h3 (.node (.plain .nameRef #[.token why] hwhy))
  have h5 : Reachable ⟨5, [plan.toElement, other.toElement, .token why, seenRef.toElement, .token seen],
      [], []⟩ := .step h4 (.node (.plain .exprStmt plan.slots hslots))
  have hnotes : Offers ⟨5, [plan.toElement, other.toElement, .token why, seenRef.toElement, .token seen],
      [], []⟩ (plan.annotate [⟨⟨0, 1, by decide⟩, "unused"⟩]) := .annotate List.mem_cons_self _
  have h6 : Reachable ⟨6, [root.toElement, plan.toElement, other.toElement, .token why,
      seenRef.toElement, .token seen], [], []⟩ := .step h5 (.node hnotes)
  have hfirst : root.toElement.at? [0] = some seenRef.toElement :=
    Placed.at?_snoc (Element.at?_nil root.toElement) rfl
  have hsecond : root.toElement.at? [1] = some other.toElement :=
    Placed.at?_snoc (Element.at?_nil root.toElement) rfl
  obtain ⟨hone, htwo, hsame⟩ := replace_laws h6 List.mem_cons_self
    (by simp : other.toElement ∈ _) (by simp : seenRef.toElement ∈ _) hfirst hsecond
  refine ⟨_, root, seenRef, other, h6, List.mem_cons_self, rfl, by simp [root, Node.annotations],
    hone (by decide) (by decide), htwo (by decide) (by decide) (by decide) (by decide) (by decide),
    ?_⟩
  have hunnoted : root.toElement.unnoted [0] = .node { root.head with notes := none } root.slots := by
    rw [Node.toElement, Element.unnoted_cons rfl, Element.unnoted]
    rfl
  exact hunnoted ▸ hsame

end Session

end LosslessSyntax
