import LosslessSyntax.Proofs.Lists
import LosslessSyntax.Proofs.Placing

/-!
# Separators by their numbers

The separator after an element stands in the slot that follows. Its number is worked out before
anything is compared: a number whose double is no slot number is an overflow, and not a separator that
is missing. Elements are looked for after their number was compared with the length of the list.

* `Placed.ListView.lt_separatorCount_iff`: which numbers have a separator;
* `Placed.ListView.Lives.separator?_given`, `Placed.ListView.separator?_none`,
  `Placed.ListView.separator?_overflow`: what is answered for a number;
* **`Session.separators_by_number`**: the answers, for all numbers and all lists that a caller holds;
* `Session.separator_overflows`: the overflow, in a list with one separator.
-/

namespace LosslessSyntax

namespace Placed.ListView

variable {tree : Tree} {memo : Memo} {list : ListView} {index : Nat}

theorem lt_separatorCount_iff :
    index < list.separatorCount ↔ list.shape = .separated ∧ index * 2 + 1 < list.node.arity := by
  rw [separatorCount, length_eq]
  split_ifs with hshape
  · rw [and_iff_right hshape]
    omega
  · simp [hshape]

theorem separator?_eq (hshape : list.shape = .separated) (hindex : index * 2 < slotBound) :
    list.separator? index = do
      return (← list.node.slot? (index * 2 + 1)).bind (·.token?) := by
  unfold separator? twice
  rw [hshape, if_pos hindex]
  rfl

theorem separator?_run (hshape : list.shape = .separated) (hindex : index * 2 < slotBound)
    (hslot : index * 2 + 1 < list.node.arity) :
    list.separator? index memo = match list.node.slotAt (index * 2 + 1) memo with
      | .ok element memo' => .ok element.token? memo'
      | .error violation memo' => .error violation memo' := by
  rw [separator?_eq hshape hindex, Node.slot?, if_pos hslot]
  change EStateM.bind (EStateM.map some (list.node.slotAt (index * 2 + 1))) _ memo = _
  unfold EStateM.bind EStateM.map
  cases list.node.slotAt (index * 2 + 1) memo <;> rfl

theorem separator?_overflow (hshape : list.shape = .separated) (hindex : slotBound ≤ index * 2) :
    list.separator? index memo = .error .slotOverflow memo := by
  unfold separator? twice
  rw [hshape, if_neg (Nat.not_lt.2 hindex)]
  rfl

theorem separator?_none (hcount : list.separatorCount ≤ index)
    (hindex : list.shape = .separated → index * 2 < slotBound) :
    list.separator? index memo = .ok none memo := by
  by_cases hshape : list.shape = .separated
  · have hslot : ¬ index * 2 + 1 < list.node.arity := fun hlt =>
      Nat.not_lt.2 hcount (lt_separatorCount_iff.2 ⟨hshape, hlt⟩)
    rw [separator?_eq hshape (hindex hshape), Node.slot?, if_neg hslot]
    rfl
  · unfold separator?
    cases hother : list.shape with
    | separated => exact absurd hother hshape
    | empty | single | many => rfl

/-- **Where there is a separator it is found**, unless its offset or its slot is out of bounds. -/
theorem Lives.separator?_given (h : list.Lives tree memo) (sound : tree.Sound memo)
    (hcount : index < list.separatorCount) :
    ∃ token, list.node.below? (index * 2 + 1) = some (.token token) ∧
      if token.start ≤ maxSize ∧ index * 2 + 1 ≤ maxSlot then
        list.separator? index memo = .ok (some token) memo
      else ∃ violation, list.separator? index memo = .error violation memo := by
  obtain ⟨hshape, hslot⟩ := lt_separatorCount_iff.1 hcount
  obtain ⟨element, hbelow⟩ := Option.isSome_iff_exists.1 (Node.below?_isSome.2 hslot)
  obtain ⟨token, rfl⟩ := below?_odd h sound hshape hbelow
  have hstart : token.start = list.node.start + list.node.green.before (index * 2 + 1) :=
    Node.below?_start hbelow
  refine ⟨token, hbelow, ?_⟩
  by_cases hindex : index * 2 < slotBound
  · rw [separator?_run hshape hindex hslot, Node.slotAt_run sound h.node.standing, hbelow]
    dsimp only
    split_ifs with hbounds
    · rw [Node.offsetBelow_eq_ok_iff.2 ⟨hstart, hbounds⟩]
      rfl
    · cases hoffset : list.node.offsetBelow (index * 2 + 1) with
      | ok start =>
        obtain ⟨rfl, hinside⟩ := Node.offsetBelow_eq_ok_iff.1 hoffset
        exact absurd (hstart ▸ hinside) hbounds
      | error violation => exact ⟨violation, rfl⟩
  · -- such a slot would have no number either
    have hlarge : maxSlot < slotBound := by decide
    rw [if_neg fun hbounds => by omega]
    exact ⟨_, separator?_overflow hshape (Nat.not_lt.1 hindex)⟩

end Placed.ListView

namespace Session

open Placed

/-- **Separators by their numbers**, in all lists that a caller holds, wherever a series of moves
leads. If there are more separators than the number says it is the token in the slot after the
element, unless its offset or its slot is out of bounds. Otherwise there is none; but a number whose
double is no slot number is an overflow in a separated list. A number that no element has is answered
with none, whatever its size, when the element is asked for or looked for. -/
theorem separators_by_number {s : Session} (reached : s.Reachable) {moves : List Grove.Move}
    (planted : s.Plants moves) {list : ListView}
    (held : ⟨.list, list⟩ ∈ (Grove.empty.after moves).handles) (index : Nat) :
    let memo := (Grove.empty.after moves).memo
    (index < list.separatorCount →
      ∃ token, list.node.below? (2 * index + 1) = some (.token token) ∧
        if token.start ≤ maxSize ∧ 2 * index + 1 ≤ maxSlot then
          list.separator? index memo = .ok (some token) memo
        else ∃ violation, list.separator? index memo = .error violation memo) ∧
    (list.separatorCount ≤ index → list.separator? index memo =
      if list.shape = .separated ∧ UInt64.size ≤ 2 * index then .error .slotOverflow memo
      else .ok none memo) ∧
    (list.length ≤ index → list.get? index memo = .ok none memo ∧
      list.placed? index memo = .ok none memo) := by
  intro memo
  have h := Grove.sound_empty.after (planted.wellFormed reached)
  obtain ⟨tree, has, lives⟩ := h.handles _ held
  rw [Nat.mul_comm 2 index]
  refine ⟨fun hcount => ListView.Lives.separator?_given lives (h.trees tree has) hcount,
    fun hcount => ?_, fun hlength => ?_⟩
  · split_ifs with hlarge
    · exact ListView.separator?_overflow hlarge.1 hlarge.2
    · exact ListView.separator?_none hcount fun hshape => Nat.not_le.1 fun hle => hlarge ⟨hshape, hle⟩
  · have hnone : ¬ index < list.length := Nat.not_lt.2 hlength
    rw [ListView.get?, ListView.placed?, if_neg hnone, if_neg hnone]
    exact ⟨rfl, rfl⟩

/-- The view of two arguments with a comma between them. -/
def argumentView : ListView := ⟨Tree.root ⟨0, 0, arguments⟩, .separated⟩

theorem argumentView_held : ∃ s : Session, s.Reachable ∧ arguments.toElement ∈ s.parts ∧
    ∃ moves, s.Plants moves ∧ ⟨.list, argumentView⟩ ∈ (Grove.empty.after moves).handles ∧
      (Grove.empty.after moves).memo = ∅ := by
  obtain ⟨s, reached, -, -, parts⟩ := arguments_reachable
  exact ⟨s, reached, parts, [.plant 0 arguments, .call (.ask 0 .node .asList)],
    .single_call parts 0 _, List.mem_cons_of_mem _ List.mem_cons_self, rfl⟩

/-- The comma is the separator after the first argument, and there is none after the second. -/
theorem separators_by_number_arguments : ∃ s : Session, s.Reachable ∧
    arguments.toElement ∈ s.parts ∧ ∃ separator : Token, separator.green = comma ∧
      argumentView.separator? 0 ∅ = .ok (some separator) ∅ ∧
      argumentView.separator? 1 ∅ = .ok none ∅ := by
  obtain ⟨s, reached, parts, moves, planted, held, hmemo⟩ := argumentView_held
  obtain ⟨hcomma, -, -⟩ := separators_by_number reached planted held 0
  obtain ⟨-, hnone, -⟩ := separators_by_number reached planted held 1
  obtain ⟨separator, hbelow, hgiven⟩ := hcomma (by decide)
  have hseparator : separator = argumentView.node.tokenBelow 1 comma := by
    cases hbelow
    rfl
  subst hseparator
  rw [if_pos ⟨by decide, by decide⟩, hmemo] at hgiven
  rw [if_neg (by decide), hmemo] at hnone
  exact ⟨s, reached, parts, _, rfl, hgiven, hnone (by decide)⟩

/-- After the element with number `2 ^ 63` there is no separator, but who asks for it gets an
overflow. -/
theorem separator_overflows : ∃ s : Session, s.Reachable ∧ arguments.toElement ∈ s.parts ∧
    (Tree.root ⟨0, 0, arguments⟩).asList? = some argumentView ∧
    2 ^ 63 < UInt64.size ∧ argumentView.separatorCount ≤ 2 ^ 63 ∧
    argumentView.separator? (2 ^ 63) ∅ = .error .slotOverflow ∅ ∧
    argumentView.get? (2 ^ 63) ∅ = .ok none ∅ := by
  obtain ⟨s, reached, -, -, parts⟩ := arguments_reachable
  refine ⟨s, reached, parts, rfl, by decide, by decide, ?_, rfl⟩
  exact ListView.separator?_overflow rfl (by decide)

end Session

end LosslessSyntax
