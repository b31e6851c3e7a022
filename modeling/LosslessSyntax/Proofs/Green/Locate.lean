import LosslessSyntax.Green.Basic
import LosslessSyntax.Proofs.Green.Layout
import Mathlib.Data.List.Basic

/-!
# Slots by offset

The ends of the slots of a node only go up, so the search by halving finds the first slot that ends
late enough, and the slots that touch an offset stand in one row. There are at most two of them,
and two of them meet at the offset.

* `Green.firstFailing_spec`: the search splits the numbers into those that pass and those that fail;
* `Green.Node.Tidy.search_lt`, `Green.Node.Tidy.search_le`: the search splits the slots by their ends;
* `Green.Node.Touches`: a slot with text that holds an offset or has it at an end;
* **`Green.Node.slotsTouching_eq`**: the slots found are those that touch the offset, in order;
* `Green.Node.touches_meet`: of two slots that touch an offset one ends there and one begins;
* `Green.Node.Tidy.exists_touches`: at every offset of a text there is a slot;
* **`Green.Node.slotCovering?_cases`**: the slot found for a stretch of text.
-/

namespace LosslessSyntax.Green

/-! ## Searching by halving -/

/-- **The search splits the numbers**: those before the one found pass the test, and those from it
on fail, if every number after a failing one fails as well. -/
theorem firstFailing_spec {test : Nat → Bool} {low high : Nat} (hle : low ≤ high)
    (hmono : ∀ i j, low ≤ i → i ≤ j → j < high → test j = true → test i = true) :
    low ≤ firstFailing test low high ∧ firstFailing test low high ≤ high ∧
    (∀ i, low ≤ i → i < firstFailing test low high → test i = true) ∧
    (∀ i, firstFailing test low high ≤ i → i < high → test i = false) := by
  fun_induction firstFailing test low high with
  | case1 low high hlt middle hpass ih =>
    obtain ⟨h1, h2, h3, h4⟩ := ih (by omega) fun i j hi => hmono i j (by omega)
    refine ⟨by omega, h2, fun i hi hi' => ?_, h4⟩
    by_cases hmiddle : i ≤ middle
    · exact hmono i middle hi hmiddle (by omega) hpass
    · exact h3 i (by omega) hi'
  | case2 low high hlt middle hfail ih =>
    obtain ⟨h1, h2, h3, h4⟩ := ih (by omega) fun i j hi hij hj => hmono i j hi hij (by omega)
    refine ⟨h1, by omega, h3, fun i hi hi' => ?_⟩
    by_cases hmiddle : i < middle
    · exact h4 i hi hmiddle
    · by_contra hpass
      rw [Bool.not_eq_false] at hpass
      exact hfail (hmono middle i (by omega) (by omega) hi' hpass)
  | case3 low high hge => exact ⟨Nat.le_refl _, hle, fun i hi hi' => by omega, fun i hi hi' => by omega⟩

namespace Node

variable {node : Node}

/-! ## The ends of slots -/

theorem Tidy.startOf_eq (h : node.Tidy) {slot : Nat} (hslot : slot < node.arity) :
    node.startOf slot = node.before slot := by
  rw [startOf, Array.getD_eq_getD_getElem?, h.offset_eq, if_pos hslot, Option.getD_some]

theorem Tidy.stopOf_eq (h : node.Tidy) {slot : Nat} (hslot : slot < node.arity) :
    node.stopOf slot = node.before (slot + 1) := by
  have he : node.slots[slot]? = some node.slots[slot] := Array.getElem?_eq_getElem hslot
  rw [stopOf, h.startOf_eq hslot, widthOf, he, before_succ he]
  rfl

theorem Tidy.before_arity (h : node.Tidy) : node.before node.arity = node.width := by
  rw [before, List.take_of_length_le (Nat.le_of_eq node.widths_length), h.width_eq]

theorem widthOf_eq (node : Node) (slot : Nat) :
    node.widthOf slot = node.before (slot + 1) - node.before slot := by
  unfold widthOf
  cases he : node.slots[slot]? with
  | some e =>
    rw [before_succ he, Nat.add_sub_cancel_left]
    rfl
  | none =>
    have hlen : node.widths.length ≤ slot := by
      rw [widths_length]
      exact Array.getElem?_eq_none_iff.1 he
    rw [before, before, List.take_of_length_le hlen, List.take_of_length_le (by omega),
      Nat.sub_self]
    rfl

theorem Tidy.stopOf_mono (h : node.Tidy) {i j : Nat} (hij : i ≤ j) (hj : j < node.arity) :
    node.stopOf i ≤ node.stopOf j := by
  rw [h.stopOf_eq hj, h.stopOf_eq (Nat.lt_of_le_of_lt hij hj)]
  exact node.before_mono (Nat.succ_le_succ hij)

/-- The search for the first slot that does not end before an offset splits the slots. -/
theorem Tidy.search_lt (h : node.Tidy) (offset : Nat) :
    firstFailing (node.stopOf · < offset) 0 node.arity ≤ node.arity ∧
    ∀ slot < node.arity,
      (node.stopOf slot < offset ↔ slot < firstFailing (node.stopOf · < offset) 0 node.arity) := by
  have hmono : ∀ i j, 0 ≤ i → i ≤ j → j < node.arity →
      decide (node.stopOf j < offset) = true → decide (node.stopOf i < offset) = true := by
    intro i j _ hij hj hpass
    rw [decide_eq_true_eq] at hpass ⊢
    exact Nat.lt_of_le_of_lt (h.stopOf_mono hij hj) hpass
  obtain ⟨-, hfirst, hbefore, hafter⟩ := firstFailing_spec (Nat.zero_le node.arity) hmono
  refine ⟨hfirst, fun slot hslot => ⟨fun hpass => ?_, fun hlt => ?_⟩⟩
  · by_contra hge
    exact of_decide_eq_false (hafter slot (Nat.le_of_not_lt hge) hslot) hpass
  · exact of_decide_eq_true (hbefore slot (Nat.zero_le _) hlt)

theorem Tidy.search_le (h : node.Tidy) (offset : Nat) :
    firstFailing (node.stopOf · ≤ offset) 0 node.arity ≤ node.arity ∧
    ∀ slot < node.arity,
      (node.stopOf slot ≤ offset ↔ slot < firstFailing (node.stopOf · ≤ offset) 0 node.arity) := by
  have hnext := h.search_lt (offset + 1)
  simp only [Nat.lt_succ_iff] at hnext
  exact hnext

/-- A slot touches an offset if it has text and holds the offset or has it at an end. -/
def Touches (node : Node) (offset slot : Nat) : Prop :=
  node.widthOf slot ≠ 0 ∧ node.before slot ≤ offset ∧ offset ≤ node.before (slot + 1)

instance (node : Node) (offset : Nat) : DecidablePred (node.Touches offset) :=
  fun _ => inferInstanceAs (Decidable (_ ∧ _ ∧ _))

theorem touches_meet {offset i j : Nat} (hij : i < j) (hi : node.Touches offset i)
    (hj : node.Touches offset j) : node.before (i + 1) = offset ∧ node.before j = offset := by
  have hbetween := node.before_mono (show i + 1 ≤ j by omega)
  have h1 := hi.2.2
  have h2 := hj.2.1
  omega

/-- No three slots touch an offset: the one in the middle would have no text. -/
theorem touches_two {offset i j k : Nat} (hij : i < j) (hjk : j < k) (hi : node.Touches offset i)
    (hj : node.Touches offset j) (hk : node.Touches offset k) : False := by
  have h1 := (touches_meet hij hi hj).2
  have h2 := (touches_meet hjk hj hk).1
  have hwidth := hj.1
  rw [widthOf_eq] at hwidth
  omega

/-! ## The slots that touch an offset -/

theorem slotsUpTo_eq (h : node.Tidy) (offset count slot : Nat) (hcount : slot + count ≤ node.arity) :
    node.slotsUpTo offset count slot = (List.range' slot count).filter fun slot =>
      node.widthOf slot ≠ 0 ∧ node.before slot ≤ offset := by
  induction count generalizing slot with
  | zero => rfl
  | succ count ih =>
    have hrest := ih (slot + 1) (by omega)
    rw [slotsUpTo, h.startOf_eq (by omega), List.range'_succ]
    by_cases hbeyond : offset < node.before slot
    · -- all later slots begin after the offset, too
      rw [if_pos hbeyond, eq_comm, List.filter_eq_nil_iff]
      intro other hother
      have hmem : slot ≤ other := by
        rcases List.mem_cons.1 hother with rfl | hother
        · exact Nat.le_refl _
        · have := (List.mem_range'_1.1 hother).1
          omega
      have hmono := node.before_mono hmem
      simp only [ne_eq, decide_eq_true_eq, not_and]
      omega
    · rw [if_neg hbeyond]
      by_cases hempty : node.widthOf slot = 0
      · rw [if_pos hempty, hrest, List.filter_cons_of_neg (by simp [hempty])]
      · rw [if_neg hempty, hrest, List.filter_cons_of_pos (by simp [hempty]; omega)]

/-- **The slots found for an offset are those that touch it, in order.** -/
theorem slotsTouching_eq (h : node.Tidy) (offset : Nat) :
    node.slotsTouching offset = (List.range node.arity).filter fun slot =>
      node.Touches offset slot := by
  obtain ⟨hfirst, hsplit⟩ := h.search_lt offset
  unfold slotsTouching
  dsimp only
  generalize firstFailing (node.stopOf · < offset) 0 node.arity = first at hfirst hsplit ⊢
  obtain ⟨count, harity⟩ : ∃ count, node.arity = first + count := ⟨_, (Nat.add_sub_cancel' hfirst).symm⟩
  have hnone : (List.range' 0 first).filter (fun slot => node.Touches offset slot) = [] := by
    rw [List.filter_eq_nil_iff]
    intro slot hslot
    have hlt := (List.mem_range'_1.1 hslot).2
    have hpass := (hsplit slot (by omega)).2 (by omega)
    rw [h.stopOf_eq (by omega)] at hpass
    rw [decide_eq_true_eq]
    rintro ⟨-, -, hstop⟩
    omega
  rw [slotsUpTo_eq h offset _ _ (by omega), List.range_eq_range', harity, Nat.add_sub_cancel_left,
    ← List.range'_append_1, List.filter_append, hnone, List.nil_append, Nat.zero_add]
  refine List.filter_congr fun slot hslot => ?_
  have hmem := List.mem_range'_1.1 hslot
  have hfail := mt (hsplit slot (by omega)).1 (Nat.not_lt.2 hmem.1)
  rw [h.stopOf_eq (by omega)] at hfail
  rw [decide_eq_decide, Touches]
  constructor
  · rintro ⟨hwidth, hstart⟩
    exact ⟨hwidth, hstart, by omega⟩
  · rintro ⟨hwidth, hstart, -⟩
    exact ⟨hwidth, hstart⟩

/-- **At most two slots touch an offset.** -/
theorem slotsTouching_cases (h : node.Tidy) (offset : Nat) :
    node.slotsTouching offset = [] ∨
    (∃ i, node.slotsTouching offset = [i] ∧ i < node.arity ∧ node.Touches offset i) ∨
    ∃ i j, node.slotsTouching offset = [i, j] ∧ i < j ∧ j < node.arity ∧
      node.Touches offset i ∧ node.Touches offset j := by
  have hmem : ∀ i ∈ node.slotsTouching offset, i < node.arity ∧ node.Touches offset i := by
    intro i hi
    rw [slotsTouching_eq h, List.mem_filter, decide_eq_true_eq] at hi
    exact ⟨List.mem_range.1 hi.1, hi.2⟩
  have hsorted : (node.slotsTouching offset).Pairwise (· < ·) := by
    rw [slotsTouching_eq h]
    exact List.pairwise_lt_range.filter _
  match hslots : node.slotsTouching offset with
  | [] => exact .inl rfl
  | [i] =>
    obtain ⟨hi, hti⟩ := hmem i (by simp [hslots])
    exact .inr (.inl ⟨i, rfl, hi, hti⟩)
  | [i, j] =>
    obtain ⟨-, hti⟩ := hmem i (by simp [hslots])
    obtain ⟨hj, htj⟩ := hmem j (by simp [hslots])
    rw [hslots] at hsorted
    exact .inr (.inr ⟨i, j, rfl, by simpa using hsorted, hj, hti, htj⟩)
  | i :: j :: k :: rest =>
    have hti := (hmem i (by simp [hslots])).2
    have htj := (hmem j (by simp [hslots])).2
    have htk := (hmem k (by simp [hslots])).2
    rw [hslots, List.pairwise_cons, List.pairwise_cons] at hsorted
    exact absurd htk (touches_two (hsorted.1 j (by simp)) (hsorted.2.1 k (by simp)) hti htj)

theorem exists_touches_of_before {offset count : Nat} (hpos : 0 < node.before count)
    (hreach : offset ≤ node.before count) : ∃ slot < count, node.Touches offset slot := by
  induction count with
  | zero =>
    rw [before_zero] at hpos
    omega
  | succ count ih =>
    by_cases hshorter : 0 < node.before count ∧ offset ≤ node.before count
    · obtain ⟨slot, hslot, htouches⟩ := ih hshorter.1 hshorter.2
      exact ⟨slot, by omega, htouches⟩
    · -- the last slot of the row is the first that reaches the offset
      refine ⟨count, Nat.lt_succ_self count, ?_, ?_, hreach⟩
      · rw [widthOf_eq]
        omega
      · omega

theorem Tidy.exists_touches (h : node.Tidy) (htext : node.width ≠ 0) {offset : Nat}
    (hoffset : offset ≤ node.width) : ∃ slot < node.arity, node.Touches offset slot := by
  rw [← h.before_arity] at htext hoffset
  exact exists_touches_of_before (Nat.pos_of_ne_zero htext) hoffset

/-! ## The slot that holds a stretch of text -/

/-- **The slot that is looked at is the first that ends after the start, or the last**; it is the one
found if the text ends in it. -/
theorem slotCovering?_cases (h : node.Tidy) (harity : 0 < node.arity) (start stop : Nat) :
    ∃ slot, slot < node.arity ∧ node.before slot ≤ start ∧
      (∀ i < slot, node.before (i + 1) ≤ start) ∧
      (start < node.before (slot + 1) ∨ slot + 1 = node.arity) ∧
      node.slotCovering? start stop =
        if stop ≤ node.before (slot + 1) then some slot else none := by
  obtain ⟨hfirst, hsplit⟩ := h.search_le start
  unfold slotCovering?
  dsimp only
  generalize firstFailing (node.stopOf · ≤ start) 0 node.arity = first at hfirst hsplit ⊢
  have hpass : ∀ i < min first (node.arity - 1), node.before (i + 1) ≤ start := by
    intro i hi
    have hstop := (hsplit i (by omega)).2 (by omega)
    rwa [h.stopOf_eq (by omega)] at hstop
  have hslot : min first (node.arity - 1) < node.arity := by omega
  have hstart : node.before (min first (node.arity - 1)) ≤ start := by
    cases hzero : min first (node.arity - 1) with
    | zero => exact Nat.zero_le _
    | succ i => exact hpass i (by omega)
  refine ⟨min first (node.arity - 1), hslot, hstart, hpass, ?_, ?_⟩
  · by_cases hlast : first = node.arity
    · exact .inr (by omega)
    · have hfail := mt (hsplit first (by omega)).1 (Nat.lt_irrefl _)
      rw [h.stopOf_eq (by omega)] at hfail
      rw [show min first (node.arity - 1) = first by omega]
      exact .inl (by omega)
  · rw [h.startOf_eq hslot, h.stopOf_eq hslot]
    by_cases hstop : stop ≤ node.before (min first (node.arity - 1) + 1)
    · rw [if_pos ⟨hslot, hstart, hstop⟩, if_pos hstop]
    · rw [if_neg (fun hall => hstop hall.2.2), if_neg hstop]

theorem slotCovering?_none (harity : node.arity = 0) (start stop : Nat) :
    node.slotCovering? start stop = none := by
  unfold slotCovering?
  dsimp only
  exact if_neg (by omega)

end Node

end LosslessSyntax.Green
