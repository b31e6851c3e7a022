import LosslessSyntax.Proofs.Lists
import LosslessSyntax.Proofs.Placing

/-!
# Refused slots

A tree may be put up at an offset that leaves no room for all of its text; then some of its parts
cannot be placed. A slot is given if it is there, and if its number and the offset of its part are in
bounds. Otherwise the caller is told of the violation, and that is all that happens.

* `Placed.Node.Bounded`: slots in bounds;
* `Placed.Grove.Sound.slotAt_cases`: a slot is given, or refused with nothing changed;
* **`Session.slots_all_or_nothing`**: which slots are given, and that one that is refused leaves no
  trace, wherever a series of moves leads.
-/

namespace LosslessSyntax

namespace Placed

/-- A slot of a node is there, and its number and the offset of the part in it are in bounds. -/
def Node.Bounded (node : Node) (slot : Nat) : Prop :=
  slot < node.arity ∧ slot ≤ maxSlot ∧
    ∃ offset, node.green.offsetAt slot = .ok offset ∧ node.start + offset ≤ maxSize

section

variable {tree : Tree} {memo : Memo} {grove : Grove} {node : Node} {i slot : Nat}

theorem Node.Stands.bounded_iff (standing : node.Stands tree) (sound : tree.Sound memo) :
    node.Bounded slot ↔
      slot < node.arity ∧ node.start + node.green.before slot ≤ maxSize ∧ slot ≤ maxSlot := by
  refine and_congr_right fun hslot => ?_
  rw [(standing.wellFormed_of_sound sound).tidy.offsetAt_eq hslot, and_comm]
  refine and_congr_left' ⟨?_, fun hstart => ⟨_, rfl, hstart⟩⟩
  rintro ⟨_, ⟨⟩, hstart⟩
  exact hstart

/-- **A slot in bounds is given, and another is refused.** -/
theorem Grove.Sound.slotAt_cases (h : grove.Sound)
    (hheld : grove.handles[i]? = some ⟨.node, node⟩) (slot : Nat) :
    (node.Bounded slot ∧ ∃ part memo, node.below? slot = some part ∧
      grove.step (.slotAt i slot) = grove.given part memo) ∨
    (¬ node.Bounded slot ∧ ∃ violation,
      grove.step (.slotAt i slot) = grove.refused violation) := by
  obtain ⟨tree, has, standing, -⟩ := h.handles _ (List.mem_of_getElem? hheld)
  have sound := h.trees tree has
  have hiff : node.Bounded slot ↔ _ := standing.bounded_iff sound
  rw [Grove.step_slotAt sound standing hheld]
  cases hbelow : node.below? slot with
  | none =>
    have hnone : ¬ slot < node.arity := fun hlt => by
      have hsome := Node.below?_isSome.2 hlt
      rw [hbelow] at hsome
      cases hsome
    exact .inr ⟨fun hbounded => hnone hbounded.1, _, rfl⟩
  | some part =>
    have hslot : slot < node.arity := Node.below?_isSome.1 (hbelow ▸ rfl)
    -- the offset is asked for in either case: of a token for its handle, of a node for its place
    cases part with
    | token token =>
      dsimp only
      cases hoffset : node.offsetBelow slot with
      | ok start =>
        obtain ⟨rfl, hbounds⟩ := Node.offsetBelow_eq_ok_iff.1 hoffset
        exact .inl ⟨hiff.2 ⟨hslot, hbounds⟩, _, _, rfl, rfl⟩
      | error violation =>
        refine .inr ⟨fun hbounded => ?_, violation, rfl⟩
        rw [Node.offsetBelow_eq_ok_iff.2 ⟨rfl, (hiff.1 hbounded).2⟩] at hoffset
        cases hoffset
    | node below =>
      have hbounds := Node.fill_ok_iff sound standing (Node.below?_green hbelow) below.green
      dsimp only
      cases hfill : node.fill slot below.green grove.memo with
      | ok memo => exact .inl ⟨hiff.2 ⟨hslot, hbounds.1 ⟨memo, hfill⟩⟩, _, memo, rfl, rfl⟩
      | error violation =>
        refine .inr ⟨fun hbounded => ?_, violation, rfl⟩
        obtain ⟨memo, hok⟩ := hbounds.2 (hiff.1 hbounded).2
        rw [hfill] at hok
        cases hok

end

end Placed

namespace Session

open Placed

/-- **A slot is given, or nothing happens.** Wherever a series of moves leads, and wherever the trees
were put up: asking a node for a slot gives the part in it just if the slot is there and its number
and the offset of its part are in bounds. Otherwise the caller is told of a violation, has what it had
before, and gets the same replies from then on as if it had not asked. -/
theorem slots_all_or_nothing {s : Session} (reached : s.Reachable) {moves : List Grove.Move}
    (planted : s.Plants moves) :
    let grove := Grove.empty.after moves
    ∀ i node slot, grove.handles[i]? = some ⟨.node, node⟩ →
      ((∃ data, (grove.step (.slotAt i slot)).1 = .ok data) ↔ node.Bounded slot) ∧
      (∀ data, (grove.step (.slotAt i slot)).1 = .ok data →
        ∃ part, node.below? slot = some part ∧ data = dataOf [part]) ∧
      ∀ failure, (grove.step (.slotAt i slot)).1 = .error failure →
        (∃ violation, failure = .violated violation) ∧
        (grove.step (.slotAt i slot)).2 = grove ∧
        ∀ more move, (Grove.empty.after (moves ++ .slotAt i slot :: more)).step move =
          (Grove.empty.after (moves ++ more)).step move := by
  intro grove i node slot hheld
  have h := Grove.sound_empty.after (planted.wellFormed reached)
  rcases h.slotAt_cases hheld slot with
    ⟨hbounded, part, memo, hbelow, hgiven⟩ | ⟨hunbounded, violation, hrefused⟩
  · have hreply : (grove.step (.slotAt i slot)).1 = .ok (dataOf [part]) :=
      congrArg Prod.fst hgiven
    rw [hreply]
    refine ⟨iff_of_true ⟨_, rfl⟩ hbounded, ?_, nofun⟩
    rintro _ ⟨⟩
    exact ⟨part, hbelow, rfl⟩
  · have hreply : (grove.step (.slotAt i slot)).1 = .error (.violated violation) :=
      congrArg Prod.fst hrefused
    have hsame : (grove.step (.slotAt i slot)).2 = grove := congrArg Prod.snd hrefused
    rw [hreply]
    refine ⟨iff_of_false nofun hunbounded, nofun, ?_⟩
    rintro _ ⟨⟩
    refine ⟨⟨violation, rfl⟩, hsame, fun more move => ?_⟩
    rw [Grove.after_append, Grove.after_append]
    change ((grove.step (.slotAt i slot)).2.after more).step move = _
    rw [hsame]

/-- Of two arguments put up one short of the last offset the first is given and the second is not. -/
theorem slots_all_or_nothing_arguments : ∃ s : Session, s.Reachable ∧
    arguments.toElement ∈ s.parts ∧
    let grove := Grove.empty.after [.plant (maxSize - 1) arguments]
    (∃ data, (grove.step (.slotAt 0 0)).1 = .ok data) ∧
    (∃ violation, (grove.step (.slotAt 0 2)).1 = .error (.violated violation)) ∧
    (grove.step (.slotAt 0 2)).2 = grove := by
  obtain ⟨s, reached, -, -, held⟩ := arguments_reachable
  have hslots := slots_all_or_nothing reached (.single held (maxSize - 1))
  let root : Node := .root 0 (maxSize - 1) arguments
  obtain ⟨hfirst, -, -⟩ := hslots 0 root 0 rfl
  obtain ⟨hlast, -, hrefused⟩ := hslots 0 root 2 rfl
  have hbounded : root.Bounded 0 := ⟨by decide, by decide, 0, rfl, by decide⟩
  have hunbounded : ¬ root.Bounded 2 := by
    rintro ⟨-, -, offset, hoffset, hroom⟩
    have htwo : root.green.offsetAt 2 = .ok 2 := rfl
    cases htwo.symm.trans hoffset
    exact absurd hroom (by decide)
  refine ⟨s, reached, held, hfirst.2 hbounded, ?_⟩
  cases hreply : ((Grove.empty.after [.plant (maxSize - 1) arguments]).step (.slotAt 0 2)).1 with
  | ok data => exact absurd (hlast.1 ⟨data, hreply⟩) hunbounded
  | error failure =>
    obtain ⟨⟨violation, rfl⟩, hsame, -⟩ := hrefused failure hreply
    exact ⟨⟨violation, rfl⟩, hsame⟩

end Session

end LosslessSyntax
