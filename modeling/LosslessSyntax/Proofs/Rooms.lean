import LosslessSyntax.Proofs.Lists
import LosslessSyntax.Proofs.Placing

/-!
# Room for every child

When a node is placed it is given room for its children. That of a list goes by the shape, and its
slots are not counted. All the same there is a place for each slot and none is left over, for whatever
made the shape of a node has counted its slots.

* `Placed.Rooms.Fit`: room that fits the slots of a green node;
* `Placed.Node.slotAt_violation`, `Placed.Node.placedAt?_ok`: why a slot may be refused, and why not;
* **`Session.rooms_fit`**: the room for the children of all nodes in all sessions.
-/

namespace LosslessSyntax

namespace Placed

/-- There are as many places as slots, and two kinds of room are given only to nodes of no slot and of
one slot. -/
structure Rooms.Fit (green : Green.Node) : Prop where
  size_eq : (ofGreen green).size = green.arity
  none_iff : ofGreen green = .none ↔ green.arity = 0
  one_iff : ofGreen green = .one ↔ green.arity = 1

theorem Rooms.fit_of_tidy {green : Green.Node} (tidy : green.Tidy) : Fit green := by
  refine ⟨Rooms.size_ofGreen tidy, ?_, ?_⟩ <;> rw [Rooms.ofGreen_eq tidy]
  · generalize green.arity = count
    rcases count with - | - | count <;> simp [ofCount]
  · generalize green.arity = count
    rcases count with - | - | count <;> simp [ofCount]

section

variable {node : Node} {slot : Nat} {memo memo' : Memo} {violation : Violation}

theorem Node.offsetBelow_violation (h : node.offsetBelow slot = .error violation) :
    violation = .sizeOverflow ∨ violation = .slotTooLarge := by
  rw [offsetBelow_eq] at h
  split_ifs at h with hstart hslot
  · cases h
    exact .inr rfl
  · cases h
    exact .inl rfl

theorem Node.placeNode_violation (wellFormed : node.green.WellFormed) {head : Green.Head}
    {slots : Array Green.Element} (found : node.green.slots[slot]? = some (.node head slots))
    (h : node.placeNode slot ⟨head, slots⟩ memo = .error violation memo') :
    violation = .sizeOverflow ∨ violation = .slotTooLarge := by
  rw [placeNode_run, checkRoom_of_slot wellFormed found,
    placing_eq_offsetBelow wellFormed found] at h
  cases hkept : memo[node.address.child slot]? with
  | some kept =>
    rw [hkept] at h
    cases h
  | none =>
    cases hoffset : node.offsetBelow slot with
    | ok start =>
      rw [hkept, hoffset] at h
      cases h
    | error why =>
      rw [hkept, hoffset] at h
      cases h
      exact offsetBelow_violation hoffset

theorem Node.slotAt_violation (wellFormed : node.green.WellFormed) (hslot : slot < node.arity)
    (h : node.slotAt slot memo = .error violation memo') :
    violation = .sizeOverflow ∨ violation = .slotTooLarge := by
  obtain ⟨e, found⟩ : ∃ e, node.green.slots[slot]? = some e := ⟨_, Array.getElem?_eq_getElem hslot⟩
  cases e with
  | token green =>
    rw [slotAt_of_token found, tokenAt_eq_offsetBelow wellFormed found] at h
    cases hoffset : node.offsetBelow slot with
    | ok start =>
      rw [hoffset] at h
      cases h
    | error why =>
      rw [hoffset] at h
      cases h
      exact offsetBelow_violation hoffset
  | node head slots =>
    rw [slotAt_of_node found] at h
    cases hplace : node.placeNode slot ⟨head, slots⟩ memo with
    | ok below memo' =>
      rw [hplace] at h
      cases h
    | error why memo' =>
      rw [hplace] at h
      cases h
      exact placeNode_violation wellFormed found hplace

theorem Node.placedAt?_ok (wellFormed : node.green.WellFormed) (hslot : slot < node.arity)
    (memo : Memo) : ∃ found, node.placedAt? slot memo = .ok found memo := by
  have found := Array.getElem?_eq_getElem hslot
  exact ⟨_, placedAt?_of_room (checkRoom_of_slot wellFormed found) found memo⟩

end

end Placed

namespace Session

open Placed

/-- **There is room for every child, and no more.** The room for the children of a green node fits its
slots, in whatever way a caller came by the node. So it is wherever a series of moves leads, for all
nodes of all trees; and whatever was placed there, a slot that is there is never refused for want of
room: a look into it succeeds, and who asks for it is told of an offset or a number that is too large,
if anything. -/
theorem rooms_fit {s : Session} (reached : s.Reachable) :
    (∀ e ∈ s.parts, e.AllNodes Rooms.Fit) ∧
    ∀ moves, s.Plants moves → ∀ tree, (Grove.empty.after moves).Has tree →
      ∀ node : Node, node.Stands tree → Rooms.Fit node.green ∧
        ∀ slot < node.arity, node.checkRoom slot = .ok () ∧ ∀ memo : Memo,
          (∀ violation memo', node.slotAt slot memo = .error violation memo' →
            violation = .sizeOverflow ∨ violation = .slotTooLarge) ∧
          ∃ found, node.placedAt? slot memo = .ok found memo := by
  obtain ⟨parts, hstock⟩ := reached.exists_stock
  constructor
  · intro e held path green hgreen
    have wellFormed : green.WellFormed := (hstock.stock.wellFormed (hstock.held e held)).at? hgreen
    exact Rooms.fit_of_tidy wellFormed.tidy
  · intro moves planted tree has node standing
    have sound := (Grove.sound_empty.after (planted.wellFormed reached)).trees tree has
    have wellFormed := standing.wellFormed_of_sound sound
    refine ⟨Rooms.fit_of_tidy wellFormed.tidy, ?_⟩
    intro slot hslot
    refine ⟨Node.checkRoom_of_slot wellFormed (Array.getElem?_eq_getElem hslot), fun memo => ?_⟩
    exact ⟨fun _ _ => Node.slotAt_violation wellFormed hslot,
      Node.placedAt?_ok wellFormed hslot memo⟩

/-- Two arguments and a comma have three places, and the last of these can be looked into. -/
theorem rooms_fit_arguments : ∃ s : Session, s.Reachable ∧ arguments.toElement ∈ s.parts ∧
    (Rooms.ofGreen arguments).size = 3 ∧ Rooms.ofGreen argument = .one ∧
    let root : Node := .root 0 7 arguments
    root.checkRoom 2 = .ok () ∧
    ∃ found, root.placedAt? 2 (Grove.empty.after [.plant 7 arguments]).memo =
      .ok found (Grove.empty.after [.plant 7 arguments]).memo := by
  obtain ⟨s, reached, heldArgument, -, held⟩ := arguments_reachable
  obtain ⟨hparts, htrees⟩ := rooms_fit reached
  have hargument : Rooms.Fit argument := (hparts _ heldArgument).root
  have has : (Grove.empty.after [.plant 7 arguments]).Has ⟨0, 7, arguments⟩ := rfl
  obtain ⟨hfit, hslots⟩ := htrees _ (.single held 7) _ has (.root 0 7 arguments) .root
  obtain ⟨hroom, hlooks⟩ := hslots 2 (by decide)
  exact ⟨s, reached, held, hfit.size_eq, hargument.one_iff.2 rfl, hroom, (hlooks _).2⟩

end Session

end LosslessSyntax
