import LosslessSyntax.Proofs.Facade
import LosslessSyntax.Proofs.Green.Locate
import LosslessSyntax.Proofs.Placed.Preorder

/-!
# Searching by offset

Slots without text make many ends and beginnings fall together. Still the ends of slots are in order,
so the search by halving is right, and none of the slots that touch an offset is passed over.

The search for a stretch of text finds the last part in the row of parts that holds it. If there is
text to be held, all other parts that hold it are above this one. If there is none, what follows
decides: the part is the token that begins there or goes on, and at the end of the node the part
that is reached through the last slots.

* **`Green.Node.slotsTouching_exact`**: the tests of the searches and the slots that are found;
* `Placed.Node.lastLeaf`: what is reached from a node through the last slots;
* `Placed.Node.Smallest`: what the search has to find;
* **`Placed.Node.smallest_of_holding`**, **`Placed.Node.touching_of_holding`**: the last part that
  holds a text is that;
* **`Session.covering_exact`**: the search, for every node that a caller can get.
-/

/-! ## Slots at an offset -/

namespace LosslessSyntax.Green.Node

variable {node : Node}

/-- **The search by an offset is exact.** Either test is passed by the slots before the one that is
found and by no others. The slots found for an offset are, in order, those with text that begin there
or before and end there or after; there are at most two, and there is one if the node has text and the
offset is in it. -/
theorem slotsTouching_exact (tidy : node.Tidy) (offset : Nat) :
    (firstFailing (node.stopOf · < offset) 0 node.arity ≤ node.arity ∧ ∀ slot < node.arity,
      (node.stopOf slot < offset ↔ slot < firstFailing (node.stopOf · < offset) 0 node.arity)) ∧
    (firstFailing (node.stopOf · ≤ offset) 0 node.arity ≤ node.arity ∧ ∀ slot < node.arity,
      (node.stopOf slot ≤ offset ↔ slot < firstFailing (node.stopOf · ≤ offset) 0 node.arity)) ∧
    (node.slotsTouching offset).Pairwise (· < ·) ∧
    (∀ slot, slot ∈ node.slotsTouching offset ↔
      slot < node.arity ∧ node.widthOf slot ≠ 0 ∧
        node.startOf slot ≤ offset ∧ offset ≤ node.startOf slot + node.widthOf slot) ∧
    (node.slotsTouching offset).length ≤ 2 ∧
    (node.width ≠ 0 → offset ≤ node.width → node.slotsTouching offset ≠ []) := by
  have hmem : ∀ slot, slot ∈ node.slotsTouching offset ↔
      slot < node.arity ∧ node.Touches offset slot := by
    intro slot
    rw [slotsTouching_eq tidy, List.mem_filter, List.mem_range, decide_eq_true_eq]
  refine ⟨tidy.search_lt offset, tidy.search_le offset, ?_, ?_, ?_, ?_⟩
  · rw [slotsTouching_eq tidy]
    exact List.pairwise_lt_range.filter _
  · intro slot
    rw [hmem]
    apply and_congr_right
    intro hslot
    have hstop : node.startOf slot + node.widthOf slot = node.before (slot + 1) :=
      tidy.stopOf_eq hslot
    rw [hstop, tidy.startOf_eq hslot, Touches]
  · rcases slotsTouching_cases tidy offset with hnone | ⟨i, hone, -⟩ | ⟨i, j, htwo, -⟩
    · simp [hnone]
    · simp [hone]
    · simp [htwo]
  · intro htext hoffset
    obtain ⟨slot, hslot, htouches⟩ := tidy.exists_touches htext hoffset
    exact List.ne_nil_of_mem ((hmem slot).2 ⟨hslot, htouches⟩)

open Session in
/-- Where two names meet, the empty one that stands there, too, is left out. -/
theorem slotsTouching_exact_names : names.Tidy ∧ names.slotsTouching 1 ≠ [] ∧
    0 ∈ names.slotsTouching 1 ∧ 1 ∉ names.slotsTouching 1 ∧ 2 ∈ names.slotsTouching 1 := by
  obtain ⟨s, reached, held⟩ := names_reachable
  have fits : Placed.Tree.Fits ⟨0, 0, names⟩ := fits_of_reachable reached held (by decide)
  have tidy : names.Tidy := fits.wellFormed.tidy
  obtain ⟨-, -, -, hmem, -, hsome⟩ := slotsTouching_exact tidy 1
  refine ⟨tidy, hsome (by decide) (by decide), ?_, ?_, ?_⟩ <;> rw [hmem] <;> decide

end LosslessSyntax.Green.Node

/-! ## The smallest part around a stretch of text -/

namespace LosslessSyntax

namespace Placed

/-- The token or the node without slots that is reached from a node by going down into the last slot
as long as there is one. -/
def Node.lastLeaf (node : Node) : Element :=
  match _found : node.below? (node.arity - 1) with
  | none => .node node
  | some (.token t) => .token t
  | some (.node n) => n.lastLeaf
termination_by sizeOf node.green
decreasing_by exact Node.sizeOf_lt_of_slot (Node.below?_green _found)

/-- Whether the stretch of a part holds a text. -/
def Element.Covers (element : Element) (span : Span) : Prop :=
  ∃ whole, element.span = .ok whole ∧ whole.covers span = true

/-- A part of a node holds a text, and no smaller one does; where there is no text to be held, at the
end of the node, it is reached through the last slots. -/
structure Node.Smallest (node : Node) (span : Span) (element : Element) : Prop where
  mem_parts : element ∈ (Element.node node).parts
  covers : element.Covers span
  eq_or_above : span.start < span.stop → ∀ other ∈ (Element.node node).parts, other.Covers span →
    other = element ∨ ∃ above ∈ element.above, other = .node above
  at_stop : span.start = span.stop → node.stop = .ok span.start → element = node.lastLeaf

/-! ## The last of a row -/

theorem last_of_filter {α : Type} {row : List α} {R : α → α → Prop} (ordered : row.Pairwise R)
    {p : α → Bool} {last : α} (h : (row.filter p).getLast? = some last) :
    last ∈ row ∧ p last = true ∧ ∀ x ∈ row, p x = true → x = last ∨ R x last := by
  obtain ⟨init, hinit⟩ := List.getLast?_eq_some_iff.1 h
  have hself : last ∈ row.filter p :=
    hinit ▸ List.mem_append_right init (List.mem_singleton_self last)
  obtain ⟨hmem, hlast⟩ := List.mem_filter.1 hself
  have hfiltered := ordered.filter p
  rw [hinit, List.pairwise_append] at hfiltered
  refine ⟨hmem, hlast, fun x hx hpx => ?_⟩
  have hrow : x ∈ init ++ [last] := hinit ▸ List.mem_filter.2 ⟨hx, hpx⟩
  rcases List.mem_append.1 hrow with hbefore | hsame
  · exact .inr (hfiltered.2.2 x hbefore last (List.mem_singleton_self last))
  · exact .inl (List.mem_singleton.1 hsame)

section

variable {tree : Tree} {node : Node} {span : Span} {element : Element}

theorem Element.Stands.covers_iff (standing : element.Stands tree) (fits : tree.Fits) :
    element.Covers span ↔ element.start ≤ span.start ∧ span.stop ≤ element.start + element.width := by
  unfold Element.Covers
  rw [standing.span_eq fits]
  simp [Span.covers]

/-! ## Through the last slots -/

theorem Node.lastLeaf_of_slot {slot : Nat} {below : Element} (hslot : slot + 1 = node.arity)
    (h : node.below? slot = some below) :
    node.lastLeaf = match below with
      | .token t => .token t
      | .node n => n.lastLeaf := by
  obtain rfl : slot = node.arity - 1 := by omega
  rw [lastLeaf]
  split
  · next hnone => rw [h] at hnone; cases hnone
  · next t ht => rw [h] at ht; cases ht; rfl
  · next n hn => rw [h] at hn; cases hn; rfl

/-- What is reached through the last slots is the last part of the row, and ends with the node. -/
theorem Node.lastLeaf_spec (standing : node.Stands tree) (fits : tree.Fits) :
    (Element.node node).parts.getLast? = some node.lastLeaf ∧
      node.lastLeaf.start + node.lastLeaf.width = node.start + node.width := by
  induction node using Node.descend with
  | step node ih =>
    cases harity : node.arity with
    | zero =>
      have hnone : node.below? (node.arity - 1) = none :=
        Node.below?_eq_none_iff.2 (by omega)
      have hleaf : node.lastLeaf = .node node := by
        rw [lastLeaf]
        split <;> simp_all
      have hparts : node.parts = [] := Node.partsFrom_none (Nat.le_of_eq harity)
      rw [hleaf]
      exact ⟨by rw [Element.parts, hparts]; rfl, rfl⟩
    | succ slot =>
      obtain ⟨below, hbelow⟩ := Option.isSome_iff_exists.1
        (Node.below?_isSome.2 (show slot < node.arity by omega))
      have hstop : below.start + below.width = node.start + node.width := by
        have hwidth : node.green.before node.arity = node.width :=
          (standing.wellFormed fits).tidy.before_arity
        rw [(standing.below?_inside fits hbelow).2.1, ← harity, hwidth]
      have hlast : ∀ last, below.parts.getLast? = some last →
          (Element.node node).parts.getLast? = some last := by
        intro last h
        have hnone : node.partsFrom (slot + 1) = [] := Node.partsFrom_none (Nat.le_of_eq harity)
        rw [Element.parts, Node.parts_split (show slot < node.arity by omega), hnone, partsIn, hbelow,
          List.append_nil, Option.elim_some, ← List.cons_append, List.getLast?_append, h]
        rfl
      rw [lastLeaf_of_slot harity.symm hbelow]
      cases below with
      | token t => exact ⟨hlast _ rfl, hstop⟩
      | node n =>
        obtain ⟨hrow, hend⟩ := ih slot n hbelow (standing.below? hbelow)
        exact ⟨hlast _ hrow, hend.trans hstop⟩

/-! ## The last part that holds a text -/

theorem Node.holding_last (h : (node.holding span).getLast? = some element) :
    element ∈ (Element.node node).parts ∧
    element.Holds span.start span.stop (node.start + node.width) ∧
    ∀ other ∈ (Element.node node).parts, other.Holds span.start span.stop (node.start + node.width) →
      other = element ∨ other.path <+: element.path ∨ LeftOf other.path element.path := by
  unfold Node.holding holdingOf at h
  obtain ⟨hmem, hholds, hothers⟩ := last_of_filter (Element.node node).parts_ordered h
  exact ⟨hmem, of_decide_eq_true hholds,
    fun other hother hother' => hothers other hother (decide_eq_true hother')⟩

/-- **The last part that holds a text is the smallest one.** -/
theorem Node.smallest_of_holding (standing : node.Stands tree) (fits : tree.Fits)
    (h : (node.holding span).getLast? = some element) : node.Smallest span element := by
  obtain ⟨hmem, ⟨hfirst, hlast, -⟩, hothers⟩ := Node.holding_last h
  have hroot : (Element.node node).Stands tree := standing
  have helement := hroot.of_mem_parts hmem
  refine ⟨hmem, (helement.covers_iff fits).2 ⟨hfirst, hlast⟩, fun htext other hother hcovers => ?_,
    fun hempty hstop => ?_⟩
  · have hstanding := hroot.of_mem_parts hother
    obtain ⟨hstart, hreach⟩ := (hstanding.covers_iff fits).1 hcovers
    rcases hothers other hother ⟨hstart, hreach, .inl (by omega)⟩ with
      hsame | honward | hleft
    · exact .inl hsame
    · exact hstanding.eq_or_above helement honward
    · -- the other one would have ended before the text
      have hends := hstanding.stop_le_of_leftOf helement fits hleft
      omega
  · obtain ⟨hleaf, hend⟩ := Node.lastLeaf_spec standing fits
    have hspan : node.start + node.width = span.start := by
      rw [standing.stop_eq fits, standing.stopOf_eq] at hstop
      exact Except.ok.inj hstop
    have hleafHolds : node.lastLeaf.Holds span.start span.stop (node.start + node.width) := by
      have hzero : node.lastLeaf.start ≤ node.lastLeaf.start + node.lastLeaf.width :=
        Nat.le_add_right _ _
      exact ⟨by omega, by omega, .inr hspan.symm⟩
    obtain ⟨init, hinit⟩ := List.getLast?_eq_some_iff.1 hleaf
    have hone : holdingOf span.start span.stop (node.start + node.width) [node.lastLeaf] =
        [node.lastLeaf] := List.filter_cons_of_pos (decide_eq_true hleafHolds)
    rw [Node.holding, hinit, holdingOf_append, hone, List.getLast?_concat] at h
    exact (Option.some.inj h).symm

theorem Node.tokens_ordered (node : Node) :
    node.tokens.Pairwise fun a b => a.path <+: b.path ∨ LeftOf a.path b.path := by
  refine (List.pairwise_cons.1 (Element.node node).parts_ordered).2.filterMap _
    fun x y hxy a ha b hb => ?_
  cases x with
  | node n => cases ha
  | token t =>
    cases y with
    | node n => cases hb
    | token t' =>
      cases ha
      cases hb
      exact hxy

theorem Node.Stands.exists_below (standing : node.Stands tree) (fits : tree.Fits) {offset : Nat}
    (hstart : node.start ≤ offset) (hstop : offset < node.start + node.width) :
    ∃ slot below, node.below? slot = some below ∧ below.start ≤ offset ∧
      offset < below.start + below.width := by
  have htidy := (standing.wellFormed fits).tidy
  have hwidth : node.green.before node.green.arity = node.width := htidy.before_arity
  have harity : 0 < node.green.arity := by
    rcases Nat.eq_zero_or_pos node.green.arity with hzero | hpos
    · rw [hzero, Green.Node.before_zero] at hwidth
      omega
    · exact hpos
  obtain ⟨slot, hslot, hbefore, -, hafter, -⟩ :=
    Green.Node.slotCovering?_cases htidy harity (offset - node.start) (offset - node.start)
  obtain ⟨below, hbelow⟩ := Option.isSome_iff_exists.1 (Node.below?_isSome.2 hslot)
  have hbelowStart := Node.below?_start hbelow
  have hbelowStop := (standing.below?_inside fits hbelow).2.1
  refine ⟨slot, below, hbelow, by omega, ?_⟩
  rcases hafter with hafter | hafter
  · omega
  · rw [hafter] at hbelowStop
    omega

/-- **Within the text of a node the last part that holds an offset is the last token that touches
it.** -/
theorem Node.touching_of_holding (standing : node.Stands tree) (fits : tree.Fits)
    (hempty : span.start = span.stop) (hstop : span.start < node.start + node.width)
    (h : (node.holding span).getLast? = some element) :
    ∃ token, element = .token token ∧ (node.touching span.start).getLast? = some token := by
  obtain ⟨hmem, ⟨hfirst, -, hbeyond⟩, hothers⟩ := Node.holding_last h
  have hroot : (Element.node node).Stands tree := standing
  have helement := hroot.of_mem_parts hmem
  have hlast := hbeyond.resolve_right (Nat.ne_of_lt hstop)
  cases element with
  | node n =>
    -- what is in the slot that goes on after the offset would come later
    obtain ⟨slot, below, hbelow, hbelowStart, hbelowStop⟩ :=
      Node.Stands.exists_below helement fits hfirst hlast
    have hpath := Node.below?_path hbelow
    have hpart : below ∈ (Element.node node).parts := Element.mem_parts_trans hmem
      (List.mem_cons_of_mem _ (Node.mem_parts.2 ⟨slot, below, hbelow, below.mem_parts_self⟩))
    have hlonger : n.path <+: below.path := hpath ▸ List.prefix_append _ _
    have hbelowHolds : below.Holds span.start span.stop (node.start + node.width) :=
      ⟨hbelowStart, by omega, .inl hbelowStop⟩
    rcases hothers below hpart hbelowHolds with hsame | honward | hleft
    · have hlength := congrArg List.length hpath
      rw [hsame, List.length_append] at hlength
      exact absurd hlength (by simp [Element.path])
    · have hlength := honward.length_le
      rw [hpath, List.length_append] at hlength
      exact absurd hlength (by simp [Element.path])
    · exact absurd hlonger hleft.not_prefix.2
  | token t =>
    refine ⟨t, rfl, ?_⟩
    have htext : t.text ≠ "" := by
      intro hnone
      have hzero : t.green.width = 0 := String.utf8ByteSize_eq_zero_iff.2 hnone
      change span.start < t.start + t.green.width at hlast
      change t.start ≤ span.start at hfirst
      omega
    have htokens : t ∈ node.tokens :=
      List.mem_filterMap.2 ⟨_, List.mem_of_ne_of_mem (by simp) hmem, rfl⟩
    have htouches : decide (t.Touches span.start) = true :=
      decide_eq_true ⟨htext, hfirst, Nat.le_of_lt hlast⟩
    have hmemTouching : t ∈ node.touching span.start := List.mem_filter.2 ⟨htokens, htouches⟩
    obtain ⟨last, hlastToken⟩ := Option.isSome_iff_exists.1
      (List.getLast?_isSome.2 (List.ne_nil_of_mem hmemTouching))
    unfold Node.touching at hlastToken ⊢
    obtain ⟨hlastMem, hlastTouches, hbefore⟩ := last_of_filter node.tokens_ordered hlastToken
    have hlastStands : (Element.token last).Stands tree := standing.of_mem_tokens hlastMem
    rcases hbefore t htokens htouches with rfl | honward | hleft
    · exact hlastToken
    · obtain hsame | ⟨above, -, hnode⟩ := helement.eq_or_above hlastStands honward
      · cases hsame
        exact hlastToken
      · cases hnode
    · -- a token further right begins after the offset
      have hends := helement.stop_le_of_leftOf hlastStands fits hleft
      have hbegins := (of_decide_eq_true hlastTouches).2.1
      change _ ≤ last.start at hends
      omega

end

end Placed

namespace Session

open Placed

theorem right?_eq {found : Touching Token} : found.right? = found.toList.getLast? := by
  cases found <;> rfl

/-- **The smallest part around a stretch of text.** A stretch within a node is always held by a part
of the node, and the search finds the smallest one that holds it, whatever was placed before. For a
stretch without text this is the token on the right at that offset or, at the end of the node, what is
reached through the last slots. It can fail only where there are more slots than can be numbered. -/
theorem covering_exact {s : Session} (reached : s.Reachable) {tree : Tree}
    (held : tree.green.toElement ∈ s.parts) (room : tree.start + tree.green.width ≤ maxSize)
    (calls : List Call) {node : Node}
    (given : ⟨.node, node⟩ ∈ ((Facade.start tree.root).after calls).handles) :
    ∃ whole, node.span = .ok whole ∧ ∀ span, whole.covers span = true →
      ∃ element memo, node.Smallest span element ∧
        (node.covering span ((Facade.start tree.root).after calls).memo = .ok element memo ∨
          ¬ tree.Narrow ∧ node.covering span ((Facade.start tree.root).after calls).memo =
            .error .slotTooLarge memo) ∧
        (span.isEmpty = true → span.start < whole.stop → ∃ token found memo,
          element = .token token ∧ found.right? = some token ∧
          (node.tokensAt span.start ((Facade.start tree.root).after calls).memo = .ok found memo ∨
            ¬ tree.Narrow ∧ node.tokensAt span.start ((Facade.start tree.root).after calls).memo =
              .error .slotTooLarge memo)) := by
  have fits := fits_of_reachable reached held room
  have valid := (Facade.valid_start tree).after fits calls
  have standing : node.Stands tree := valid.handles _ given
  refine ⟨_, if_pos (standing.stop_le fits), fun span hcovers => ?_⟩
  have hinside : node.start ≤ span.start ∧ span.stop ≤ node.start + node.width := by
    simpa [Span.covers] using hcovers
  have hcovering := node.covering_gives standing fits span
  rw [if_pos hinside] at hcovering
  obtain ⟨element, hlast, hgives⟩ := hcovering
  obtain ⟨memo, hrun⟩ := hgives.run valid.memo
  refine ⟨element, memo, Node.smallest_of_holding standing fits hlast, hrun, fun hempty hstop => ?_⟩
  obtain ⟨token, helement, htouching⟩ :=
    Node.touching_of_holding standing fits (eq_of_beq hempty) hstop hlast
  obtain ⟨found, hfound, hrow⟩ := node.tokensAt_gives standing fits span.start
  obtain ⟨memo', hrun'⟩ := hfound.run valid.memo
  exact ⟨token, found, memo', helement, by rw [right?_eq, hrow, htouching], hrun'⟩

/-- The text after the empty name is held by the second name, and so is the end of all names. -/
theorem covering_exact_names : ∃ s : Session, s.Reachable ∧ names.toElement ∈ s.parts ∧
    ∃ second : Token, second.text = "y" ∧
      (∃ memo, (Tree.root ⟨0, 7, names⟩).covering ⟨8, 9, by decide⟩ ∅ = .ok (.token second) memo) ∧
      ∃ memo, (Tree.root ⟨0, 7, names⟩).covering ⟨9, 9, by decide⟩ ∅ = .ok (.token second) memo := by
  obtain ⟨s, reached, held⟩ := names_reachable
  let second : Token := (Tree.root ⟨0, 7, names⟩).tokenBelow 2
    ⟨2, .name, .none, "y", .none, by decide, by decide, by decide⟩
  have hbelow : (Tree.root ⟨0, 7, names⟩).below? 2 = some (.token second) := rfl
  have hsecond : .token second ∈ (Element.node (Tree.root ⟨0, 7, names⟩)).parts :=
    List.mem_cons_of_mem _ (Node.mem_parts.2 ⟨2, _, hbelow, List.mem_cons_self⟩)
  have hroot : ⟨.node, Tree.root ⟨0, 7, names⟩⟩ ∈
      ((Facade.start (Tree.root ⟨0, 7, names⟩)).after []).handles := List.mem_cons_self
  obtain ⟨whole, hwhole, hcovering⟩ := covering_exact reached held (by decide) [] hroot
  have hspan : whole = ⟨7, 9, by decide⟩ := (Except.ok.inj hwhole).symm
  subst hspan
  refine ⟨s, reached, held, second, rfl, ?_, ?_⟩
  · obtain ⟨element, memo, hsmallest, hrun | ⟨hwide, -⟩, -⟩ := hcovering ⟨8, 9, by decide⟩ rfl
    · rcases hsmallest.eq_or_above (by decide) _ hsecond ⟨⟨8, 9, by decide⟩, rfl, rfl⟩ with
        rfl | ⟨above, -, hnode⟩
      · exact ⟨memo, hrun⟩
      · cases hnode
    · exact absurd (names_narrow 7) hwide
  · obtain ⟨element, memo, hsmallest, hrun | ⟨hwide, -⟩, -⟩ := hcovering ⟨9, 9, by decide⟩ rfl
    · have hleaf : element = .token second :=
        (hsmallest.at_stop rfl rfl).trans (Node.lastLeaf_of_slot rfl hbelow)
      exact ⟨memo, hleaf ▸ hrun⟩
    · exact absurd (names_narrow 7) hwide

end Session

end LosslessSyntax
