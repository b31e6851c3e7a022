import LosslessSyntax.Proofs.Green.Locate

/-!
# Measuring with checks

The searches for slots, and the stretch of a token that is no trivia, are found by sums and differences
that nobody looks at. Here each of them is checked: a sum has to be in bounds, what is taken away must
not be more than what is there, and a span must not end before its start. In a tidy node whose width
is in bounds no check fails, whichever slots a search looks at, and what is found is the same.

* `checkSize`, `subSize`, `Span.back`: a length, a difference and a span moved to the left, checked;
* `Green.Token.trimmedSpanChecked_eq`: the stretch of a token without its trivia;
* `Green.Node.slotSpan`: the stretch of a slot, and `Green.Node.Tidy.slotSpan_eq` its two ends;
* **`Green.Node.Tidy.slotsTouchingChecked_eq`**: the slots that touch an offset;
* **`Green.Node.Tidy.slotCoveringChecked?_eq`**: the slot that holds a stretch of text.
-/

namespace LosslessSyntax

/-- A length, if a text can have it. -/
def checkSize (size : Nat) : Except Violation Nat :=
  if size ≤ maxSize then .ok size else .error .sizeOverflow

/-- The difference of two lengths or offsets, the second of which must not be the larger one. -/
def subSize (a b : Nat) : Except Violation Nat :=
  if b ≤ a then .ok (a - b) else .error .sizeOverflow

/-- The span `offset` bytes further left. -/
def Span.back (span : Span) (offset : Nat) : Except Violation Span :=
  if offset ≤ span.start then
    .ok ⟨span.start - offset, span.stop - offset, Nat.sub_le_sub_right span.start_le_stop _⟩
  else .error .spanOverflow

namespace Green

/-! ## Tokens -/

/-- The stretch of a token that is no trivia. -/
def Token.trimmedSpanChecked (token : Token) : Except Violation Span := do
  let stop ← subSize (← checkSize token.width) token.trailing.length
  Span.between token.leading.length stop

theorem Token.trimmedSpanChecked_eq {token : Token} (h : token.width ≤ maxSize) :
    token.trimmedSpanChecked = .ok token.trimmedSpan := by
  have htrivia : token.leading.length + token.trailing.length ≤ token.width := token.trivia_le
  have hsize : checkSize token.width = .ok token.width := if_pos h
  have hstop : subSize token.width token.trailing.length =
      .ok (token.width - token.trailing.length) := if_pos (by omega)
  rw [trimmedSpanChecked, hsize]
  change (subSize token.width token.trailing.length >>= _) = _
  rw [hstop]
  exact dif_pos (by omega)

/-! ## Searching by halving -/

/-- The first number from `low` up to `high` that fails a test, or `high` if none does; the test may
go wrong. -/
def firstFailingChecked (test : Nat → Except Violation Bool) (low high : Nat) :
    Except Violation Nat := do
  if low < high then
    let middle := (low + high) / 2
    if ← test middle then firstFailingChecked test (middle + 1) high
    else firstFailingChecked test low middle
  else return low
termination_by high - low

/-- A test that goes wrong for no number in question finds what the plain one finds. -/
theorem firstFailingChecked_eq {test : Nat → Except Violation Bool} {plain : Nat → Bool}
    {low high : Nat} (h : ∀ i, low ≤ i → i < high → test i = .ok (plain i)) :
    firstFailingChecked test low high = .ok (firstFailing plain low high) := by
  fun_induction firstFailing plain low high with
  | case1 low high hlt middle hpass ih =>
    have htest : test middle = .ok true := hpass ▸ h middle (by omega) (by omega)
    rw [firstFailingChecked, if_pos hlt]
    change (test middle >>= _) = _
    rw [htest]
    exact ih fun i hi hi' => h i (by omega) hi'
  | case2 low high hlt middle hfail ih =>
    have htest : test middle = .ok false :=
      Bool.eq_false_iff.2 hfail ▸ h middle (by omega) (by omega)
    rw [firstFailingChecked, if_pos hlt]
    change (test middle >>= _) = _
    rw [htest]
    exact ih fun i hi hi' => h i hi (by omega)
  | case3 low high hge =>
    rw [firstFailingChecked, if_neg hge]
    rfl

theorem firstFailing_le (test : Nat → Bool) {low high : Nat} (hle : low ≤ high) :
    firstFailing test low high ≤ high := by
  fun_induction firstFailing test low high with
  | case1 low high hlt middle hpass ih => exact ih (by omega)
  | case2 low high hlt middle hfail ih => exact Nat.le_trans (ih (by omega)) (by omega)
  | case3 low high hge => exact hle

namespace Node

/-! ## Slots -/

/-- The stretch of a slot, counted from the start of the node. -/
def slotSpan (node : Node) (slot : Nat) : Except Violation Span :=
  Span.ofSize (node.startOf slot) (node.widthOf slot)

/-- The slots from `slot` on, at most `count` of them, that begin at `offset` or before it; those
without text are left out. -/
def slotsUpToChecked (node : Node) (offset : Nat) : Nat → Nat → Except Violation (List Nat)
  | 0, _ => return []
  | count + 1, slot => do
    if offset < node.startOf slot then return []
    else
      let span ← node.slotSpan slot
      let later ← slotsUpToChecked node offset count (slot + 1)
      return if span.isEmpty then later else slot :: later

/-- The slots that are not empty of text and hold `offset` or have it at an end. -/
def slotsTouchingChecked (node : Node) (offset : Nat) : Except Violation (List Nat) := do
  let first ← firstFailingChecked (fun slot => do return (← node.slotSpan slot).stop < offset)
    0 node.arity
  node.slotsUpToChecked offset (node.arity - first) first

/-- The slot that holds a stretch of text. -/
def slotCoveringChecked? (node : Node) (span : Span) : Except Violation (Option Nat) := do
  let first ← firstFailingChecked (fun slot => do return (← node.slotSpan slot).stop ≤ span.start)
    0 node.arity
  let slot := min first (node.arity - 1)
  if slot < node.arity then
    return if (← node.slotSpan slot).covers span then some slot else none
  else return none

variable {node : Node}

/-- **Every slot of a node has a stretch in bounds.** -/
theorem Tidy.slotSpan_eq (h : node.Tidy) (hwidth : node.width ≤ maxSize) {slot : Nat}
    (hslot : slot < node.arity) :
    node.slotSpan slot = .ok ⟨node.startOf slot, node.stopOf slot, Nat.le_add_right _ _⟩ := by
  have hmono := node.before_mono (show slot + 1 ≤ node.arity by omega)
  rw [h.before_arity, ← h.stopOf_eq hslot] at hmono
  exact if_pos (Nat.le_trans hmono hwidth)

theorem slotSpan_isEmpty (node : Node) (slot : Nat) :
    Span.isEmpty ⟨node.startOf slot, node.stopOf slot, Nat.le_add_right _ _⟩ =
      decide (node.widthOf slot = 0) := by
  have hstop : node.stopOf slot = node.startOf slot + node.widthOf slot := rfl
  rw [Bool.eq_iff_iff, decide_eq_true_iff, Span.isEmpty, beq_iff_eq]
  dsimp only
  omega

theorem Tidy.slotsUpToChecked_eq (h : node.Tidy) (hwidth : node.width ≤ maxSize)
    (offset count slot : Nat) (hcount : slot + count ≤ node.arity) :
    node.slotsUpToChecked offset count slot = .ok (node.slotsUpTo offset count slot) := by
  induction count generalizing slot with
  | zero => rfl
  | succ count ih =>
    have hrest := ih (slot + 1) (by omega)
    rw [slotsUpToChecked, slotsUpTo]
    by_cases hbeyond : offset < node.startOf slot
    · rw [if_pos hbeyond, if_pos hbeyond]
      rfl
    · rw [if_neg hbeyond, if_neg hbeyond, h.slotSpan_eq hwidth (by omega), hrest]
      change Except.ok (if Span.isEmpty _ = true then _ else _) = _
      simp only [slotSpan_isEmpty, decide_eq_true_eq]

/-- **The slots that touch an offset are found without a check that fails.** -/
theorem Tidy.slotsTouchingChecked_eq (h : node.Tidy) (hwidth : node.width ≤ maxSize)
    (offset : Nat) : node.slotsTouchingChecked offset = .ok (node.slotsTouching offset) := by
  have htest : ∀ i, 0 ≤ i → i < node.arity →
      (do return (← node.slotSpan i).stop < offset : Except Violation Bool) =
        .ok (node.stopOf i < offset) := by
    intro i _ hi
    rw [h.slotSpan_eq hwidth hi]
    rfl
  have hfirst := firstFailing_le (node.stopOf · < offset) (Nat.zero_le node.arity)
  rw [slotsTouchingChecked, firstFailingChecked_eq htest]
  exact h.slotsUpToChecked_eq hwidth offset _ _ (by omega)

/-- **The slot that holds a stretch of text is found without a check that fails.** -/
theorem Tidy.slotCoveringChecked?_eq (h : node.Tidy) (hwidth : node.width ≤ maxSize)
    (span : Span) :
    node.slotCoveringChecked? span = .ok (node.slotCovering? span.start span.stop) := by
  have htest : ∀ i, 0 ≤ i → i < node.arity →
      (do return (← node.slotSpan i).stop ≤ span.start : Except Violation Bool) =
        .ok (node.stopOf i ≤ span.start) := by
    intro i _ hi
    rw [h.slotSpan_eq hwidth hi]
    rfl
  rw [slotCoveringChecked?, firstFailingChecked_eq htest]
  unfold slotCovering?
  dsimp only [bind, Except.bind]
  generalize min (firstFailing (node.stopOf · ≤ span.start) 0 node.arity) (node.arity - 1) = slot
  by_cases hslot : slot < node.arity
  · have hcovers : Span.covers ⟨node.startOf slot, node.stopOf slot, Nat.le_add_right _ _⟩ span =
        true ↔ slot < node.arity ∧ node.startOf slot ≤ span.start ∧ span.stop ≤ node.stopOf slot := by
      simp [Span.covers, hslot]
    rw [if_pos hslot, h.slotSpan_eq hwidth hslot]
    exact congrArg Except.ok (if_congr hcovers rfl rfl)
  · rw [if_neg hslot, if_neg (fun hall => hslot hall.1)]
    rfl

theorem Tidy.slotCovering?_holds (h : node.Tidy) {start stop slot : Nat}
    (hfound : node.slotCovering? start stop = some slot) :
    node.before slot ≤ start ∧ stop ≤ node.before (slot + 1) := by
  unfold slotCovering? at hfound
  dsimp only at hfound
  split_ifs at hfound with hholds
  obtain ⟨hslot, hstart, hstop⟩ := hholds
  rw [Option.some.inj hfound] at hslot hstart hstop
  rw [← h.startOf_eq hslot, ← h.stopOf_eq hslot]
  exact ⟨hstart, hstop⟩

end Node

end Green

end LosslessSyntax
