import LosslessSyntax.Placed.Offset
import LosslessSyntax.Proofs.Green.Locate
import LosslessSyntax.Proofs.Placed.Parts

/-!
# The tokens at an offset

The tokens with text that hold an offset or have it at an end are at most two, and two of them meet
at the offset. The search by slots finds just these.

* `Placed.Token.Touches`, `Placed.Node.touching`: the tokens below a node that touch an offset;
* `Placed.Node.ink`: the tokens with text, which are all that matters;
* `Placed.Node.touching_eq`: they are in the slots that touch the offset;
* **`Placed.Node.Stands.touching_meets`**: there are at most two of them;
* **`Placed.Node.tokensAt_gives`**: the search finds them.
-/

namespace LosslessSyntax.Placed

/-- A token touches an offset if it has text and holds the offset or has it at an end. -/
def Token.Touches (offset : Nat) (token : Token) : Prop :=
  token.text ≠ "" ∧ token.start ≤ offset ∧ offset ≤ token.start + token.green.width

instance (offset : Nat) : DecidablePred (Token.Touches offset) :=
  fun _ => inferInstanceAs (Decidable (_ ∧ _ ∧ _))

/-- The tokens of a row that touch an offset. -/
def touchingOf (offset : Nat) (row : List Element) : List Token :=
  (row.filterMap Element.token?).filter (Token.Touches offset ·)

/-- The tokens below a node that touch an offset, in order. -/
def Node.touching (node : Node) (offset : Nat) : List Token :=
  node.tokens.filter (Token.Touches offset ·)

/-- Where a token starts, and what it is. -/
def Token.mark (token : Token) : Nat × Green.Token := (token.start, token.green)

/-- The tokens with text below a node. -/
def Node.ink (node : Node) : List (Nat × Green.Token) :=
  (node.tokens.filter (·.text ≠ "")).map Token.mark

/-- The tokens that touch an offset are found among those with text; no others count. -/
theorem Node.touching_mark (node : Node) (offset : Nat) :
    (node.touching offset).map Token.mark =
      node.ink.filter fun (start, green) => start ≤ offset ∧ offset ≤ start + green.width := by
  rw [ink, List.filter_map, List.filter_filter, touching]
  refine congrArg (List.map Token.mark) (List.filter_congr fun token _ => ?_)
  rw [Bool.eq_iff_iff, decide_eq_true_iff, Token.Touches]
  rw [Bool.and_eq_true, decide_eq_true_iff, and_comm]
  exact and_congr_left' decide_eq_true_iff.symm

section

variable {tree : Tree} {node : Node} {offset : Nat}

theorem Token.width_ne_zero {token : Token} (h : token.text ≠ "") : token.green.width ≠ 0 :=
  fun hwidth => h (String.utf8ByteSize_eq_zero_iff.1 hwidth)

theorem touchingOf_flatMap (slots : List Nat) (partsIn : Nat → List Element) :
    touchingOf offset (slots.flatMap partsIn) =
      slots.flatMap fun slot => touchingOf offset (partsIn slot) := by
  rw [touchingOf, List.filterMap_flatMap, List.filter_flatMap]
  rfl

theorem flatMap_filter_eq {α β : Type} (row : List α) (keep : α → Bool) (f : α → List β)
    (h : ∀ x ∈ row, keep x = false → f x = []) : (row.filter keep).flatMap f = row.flatMap f := by
  induction row with
  | nil => rfl
  | cons x row ih =>
    have hrest := ih fun y hy => h y (List.mem_cons_of_mem x hy)
    cases hx : keep x with
    | true => rw [List.filter_cons_of_pos hx, List.flatMap_cons, List.flatMap_cons, hrest]
    | false =>
      rw [List.filter_cons_of_neg (by simp [hx]), List.flatMap_cons, h x List.mem_cons_self hx,
        List.nil_append, hrest]

theorem Element.Stands.mem_touchingOf {element : Element} (standing : element.Stands tree)
    (fits : tree.Fits) {token : Token} (h : token ∈ touchingOf offset element.parts) :
    token.Touches offset ∧ element.start ≤ token.start ∧
      token.start + token.green.width ≤ element.start + element.width := by
  obtain ⟨hrow, htouches⟩ := List.mem_filter.1 h
  obtain ⟨part, hpart, htoken⟩ := List.mem_filterMap.1 hrow
  refine ⟨of_decide_eq_true htouches, ?_⟩
  have hinside := standing.inside_parts fits hpart
  cases part with
  | node n => cases htoken
  | token t =>
    cases htoken
    exact hinside

theorem Element.Stands.touchingOf_eq_nil {element : Element} (standing : element.Stands tree)
    (fits : tree.Fits) (h : element.width = 0 ∨ offset < element.start ∨
      element.start + element.width < offset) : touchingOf offset element.parts = [] := by
  rw [List.eq_nil_iff_forall_not_mem]
  intro token htoken
  obtain ⟨⟨htext, hstart, hstop⟩, hinside⟩ := standing.mem_touchingOf fits htoken
  have hwidth := Token.width_ne_zero htext
  omega

/-- **The tokens that touch an offset are in the slots that touch it.** -/
theorem Node.touching_eq (standing : node.Stands tree) (fits : tree.Fits)
    (h : node.start ≤ offset) : node.touching offset =
      (node.green.slotsTouching (offset - node.start)).flatMap fun slot =>
        touchingOf offset (node.partsIn slot) := by
  have htidy := (standing.wellFormed fits).tidy
  rw [Green.Node.slotsTouching_eq htidy, flatMap_filter_eq, ← touchingOf_flatMap]
  · exact congrArg (touchingOf offset) node.parts_eq
  · intro slot hslot htouches
    obtain ⟨below, hbelow⟩ := Option.isSome_iff_exists.1
      (Node.below?_isSome.2 (List.mem_range.1 hslot))
    rw [partsIn, hbelow]
    refine (standing.below? hbelow).touchingOf_eq_nil fits ?_
    have hstart := Node.below?_start hbelow
    have hstop := (standing.below?_inside fits hbelow).2.1
    rw [decide_eq_false_iff_not, Green.Node.Touches, Green.Node.widthOf_eq] at htouches
    omega

/-- At most one token, or two that meet at an offset between `low` and `high`. -/
def Meets (low high offset : Nat) (row : List Token) : Prop :=
  row.length ≤ 1 ∨ ∃ l r, row = [l, r] ∧ low < offset ∧ offset < high ∧
    l.start + l.green.width = offset ∧ r.start = offset

theorem Meets.mono {low low' high high' : Nat} {row : List Token} (h : Meets low high offset row)
    (hlow : low' ≤ low) (hhigh : high ≤ high') : Meets low' high' offset row := by
  rcases h with hone | ⟨l, r, hrow, h1, h2, h3, h4⟩
  · exact .inl hone
  · exact .inr ⟨l, r, hrow, by omega, by omega, h3, h4⟩

theorem touchingOf_token (t : Token) : (touchingOf offset (Element.token t).parts).length ≤ 1 :=
  List.length_filter_le _ [t]

theorem touchingOf_node (n : Node) : touchingOf offset (Element.node n).parts = n.touching offset :=
  rfl

/-- The tokens in a slot meet within the slot if those of a node in it meet within the node. -/
theorem Node.partsIn_meets (standing : node.Stands tree) (fits : tree.Fits) {slot : Nat}
    (hslot : slot < node.arity) (ih : ∀ n, node.below? slot = some (.node n) →
      Meets n.start (n.start + n.width) offset (n.touching offset)) :
    Meets (node.start + node.green.before slot) (node.start + node.green.before (slot + 1)) offset
      (touchingOf offset (node.partsIn slot)) := by
  obtain ⟨below, hbelow⟩ := Option.isSome_iff_exists.1 (Node.below?_isSome.2 hslot)
  have hstart := Node.below?_start hbelow
  have hstop := (standing.below?_inside fits hbelow).2.1
  rw [partsIn, hbelow, ← hstart, ← hstop]
  cases below with
  | token t => exact .inl (touchingOf_token t)
  | node n => exact ih n hbelow

theorem Node.Stands.mem_touchingOf_partsIn (standing : node.Stands tree) (fits : tree.Fits)
    (offset : Nat) {slot : Nat} (hslot : slot < node.arity) :
    ∀ t ∈ touchingOf offset (node.partsIn slot), t.Touches offset ∧
      node.start + node.green.before slot ≤ t.start ∧
      t.start + t.green.width ≤ node.start + node.green.before (slot + 1) := by
  intro t h
  obtain ⟨below, hbelow⟩ := Option.isSome_iff_exists.1 (Node.below?_isSome.2 hslot)
  rw [Node.partsIn, hbelow] at h
  rw [← Node.below?_start hbelow, ← (standing.below?_inside fits hbelow).2.1]
  exact (standing.below? hbelow).mem_touchingOf fits h

/-- Of two slots that touch an offset neither has two tokens there. -/
theorem Node.length_of_two_slots {i j : Nat} (hij : i < j) (hstart : node.start ≤ offset)
    (hti : node.green.Touches (offset - node.start) i)
    (htj : node.green.Touches (offset - node.start) j) {left right : List Token}
    (hleft : Meets (node.start + node.green.before i) (node.start + node.green.before (i + 1))
      offset left)
    (hright : Meets (node.start + node.green.before j) (node.start + node.green.before (j + 1))
      offset right) : left.length ≤ 1 ∧ right.length ≤ 1 := by
  obtain ⟨hendi, hstartj⟩ := Green.Node.touches_meet hij hti htj
  constructor
  · rcases hleft with hone | ⟨l, r, -, -, hlt, -⟩
    · exact hone
    · omega
  · rcases hright with hone | ⟨l, r, -, hlt, -⟩
    · exact hone
    · omega

/-- **At most two tokens touch an offset, and two of them meet there.** -/
theorem Node.Stands.touching_meets (standing : node.Stands tree) (fits : tree.Fits) (offset : Nat) :
    Meets node.start (node.start + node.width) offset (node.touching offset) := by
  induction node using Node.descend with
  | step node ih =>
    by_cases houtside : offset < node.start
    · have hnil : touchingOf offset (Element.node node).parts = [] :=
        Element.Stands.touchingOf_eq_nil standing fits (.inr (.inl houtside))
      rw [← touchingOf_node, hnil]
      exact .inl (Nat.zero_le 1)
    have hinside := Nat.le_of_not_lt houtside
    have htidy := (standing.wellFormed fits).tidy
    have hle : ∀ i, node.green.before i ≤ node.width := fun i => by
      have h := node.green.before_le i
      rwa [← htidy.width_eq] at h
    have hmeets : ∀ i, i < node.arity → Meets (node.start + node.green.before i)
        (node.start + node.green.before (i + 1)) offset (touchingOf offset (node.partsIn i)) :=
      fun i hi => partsIn_meets standing fits hi fun n hn => ih i n hn (standing.below? hn)
    rw [touching_eq standing fits hinside]
    rcases Green.Node.slotsTouching_cases htidy (offset - node.start) with
      hnone | ⟨i, hone, hi, -⟩ | ⟨i, j, htwo, hij, hj, hti, htj⟩
    · rw [hnone]
      exact .inl (Nat.zero_le 1)
    · rw [hone, List.flatMap_singleton]
      have := hle (i + 1)
      exact (hmeets i hi).mono (by omega) (by omega)
    · have hi : i < node.arity := Nat.lt_trans hij hj
      have hmemi := standing.mem_touchingOf_partsIn fits offset hi
      have hmemj := standing.mem_touchingOf_partsIn fits offset hj
      obtain ⟨honei, honej⟩ :=
        length_of_two_slots hij hinside hti htj (hmeets i hi) (hmeets j hj)
      obtain ⟨hendi, hstartj⟩ := Green.Node.touches_meet hij hti htj
      rw [htwo, List.flatMap_cons, List.flatMap_singleton]
      generalize touchingOf offset (node.partsIn i) = left at honei hmemi ⊢
      generalize touchingOf offset (node.partsIn j) = right at honej hmemj ⊢
      match left, right with
      | [], right => exact .inl honej
      | [l], [] => exact .inl (Nat.le_refl 1)
      | [l], [r] =>
        obtain ⟨hl, -, hlstop⟩ := hmemi l List.mem_cons_self
        obtain ⟨hr, hrstart, -⟩ := hmemj r List.mem_cons_self
        have hwidthi := hti.1
        have hwidthj := htj.1
        have hlej := hle (j + 1)
        rw [Green.Node.widthOf_eq] at hwidthi hwidthj
        have hlt := hl.2.2
        have hrt := hr.2.1
        exact .inr ⟨l, r, rfl, by omega, by omega, by omega, by omega⟩
      | [l], _ :: _ :: _ => exact absurd honej (by simp)
      | _ :: _ :: _, _ => exact absurd honei (by simp)

end

/-! ## The search -/

/-- The search in a slot. -/
def Node.touchingAt (node : Node) (offset slot : Nat) : Query (Touching Token) :=
  match _h : node.green.slots[slot]? with
  | some (.token green) => return .one (← node.tokenAt slot green)
  | some (.node head slots) => do
    ((← node.placeNode slot ⟨head, slots⟩).withGreen ⟨head, slots⟩).tokensAt offset
  | none => throw (node.green.noSlot slot)

/-- The search in the slots that were found. -/
def Node.touchingIn (node : Node) (offset : Nat) : List Nat → Query (Touching Token)
  | [] => return .none
  | [slot] => node.touchingAt offset slot
  | slot :: next :: _ => do
    let before ← node.touchingAt offset slot
    let after ← node.touchingAt offset next
    return before.join after

theorem Node.tokensAt_eq {tree : Tree} {node : Node} (standing : node.Stands tree)
    (fits : tree.Fits) (offset : Nat) : node.tokensAt offset =
      if node.width = 0 ∨ offset < node.start ∨ node.start + node.width < offset then
        pure .none
      else node.touchingIn offset (node.green.slotsTouching (offset - node.start)) := by
  rw [Node.tokensAt, standing.span_ok fits]
  change (if Span.isEmpty ⟨node.start, node.start + node.width, _⟩ ||
      !Span.touches ⟨node.start, node.start + node.width, _⟩ offset
      then (pure .none : Query (Touching Token)) else _) = _
  by_cases hskip : node.width = 0 ∨ offset < node.start ∨ node.start + node.width < offset
  · rw [if_pos hskip, if_pos (by simp [Span.isEmpty, Span.touches]; omega)]
  · rw [if_neg hskip, if_neg (by simp [Span.isEmpty, Span.touches]; omega)]
    rfl

section

variable {tree : Tree} {node : Node} {offset : Nat}

theorem Node.touchingAt_eq (node : Node) (offset slot : Nat) : node.touchingAt offset slot =
    (match node.green.slots[slot]? with
    | some (.token green) => return .one (← node.tokenAt slot green)
    | some (.node head slots) => do
      ((← node.placeNode slot ⟨head, slots⟩).withGreen ⟨head, slots⟩).tokensAt offset
    | none => throw (node.green.noSlot slot)) := by
  unfold touchingAt
  cases node.green.slots[slot]? with
  | none => rfl
  | some e => cases e <;> rfl

theorem Node.touchingAt_gives (standing : node.Stands tree) (fits : tree.Fits) {slot : Nat}
    (hslot : slot < node.green.arity) (hstart : node.start ≤ offset)
    (htouches : node.green.Touches (offset - node.start) slot)
    (ih : ∀ below, node.below? slot = some (.node below) → ∃ found,
      Query.Gives tree (below.tokensAt offset) (.ok found) ∧ found.toList = below.touching offset) :
    ∃ found, Query.Gives tree (node.touchingAt offset slot) (.ok found) ∧
      found.toList = touchingOf offset (node.partsIn slot) := by
  obtain ⟨e, hfound⟩ : ∃ e, node.green.slots[slot]? = some e :=
    ⟨_, Array.getElem?_eq_getElem hslot⟩
  rw [touchingAt_eq, hfound]
  cases e with
  | token green =>
    have htouching : touchingOf offset (node.partsIn slot) = [node.tokenBelow slot green] := by
      have hsucc := Green.Node.before_succ hfound
      have hwidth := htouches.1
      rw [Green.Node.widthOf_eq, hsucc] at hwidth
      have htext : Token.Touches offset (node.tokenBelow slot green) := by
        refine ⟨fun htext => ?_, ?_, ?_⟩
        · have hzero : green.width = 0 := String.utf8ByteSize_eq_zero_iff.2 htext
          have hgreen : (Green.Element.token green).width = green.width := rfl
          omega
        · change node.start + node.green.before slot ≤ offset
          have := htouches.2.1
          omega
        · change offset ≤ node.start + node.green.before slot + (Green.Element.token green).width
          have := htouches.2.2
          omega
      rw [partsIn, Node.below?_of_token hfound]
      exact List.filter_cons_of_pos (decide_eq_true htext)
    rw [htouching]
    exact ⟨.one _, (tokenAt_gives standing fits hfound).bind_ok (Query.Gives.pure _), rfl⟩
  | node head slots =>
    have hbelow := Node.below?_of_node hfound
    obtain ⟨found, hgives, hrow⟩ := ih _ hbelow
    rw [partsIn, hbelow]
    exact ⟨found, (placeNode_gives standing fits hfound).bind_ok hgives, hrow⟩

theorem Touching.toList_join {α : Type} {before after : Touching α}
    (hbefore : before.toList.length ≤ 1) (hafter : after.toList.length ≤ 1) :
    (before.join after).toList = before.toList ++ after.toList := by
  cases before with
  | none => cases after <;> first | rfl | exact absurd hafter (by simp [toList])
  | one l => cases after <;> first | rfl | exact absurd hafter (by simp [toList])
  | two l r => exact absurd hbefore (by simp [toList])

/-- **The search finds the tokens that touch the offset.** -/
theorem Node.tokensAt_gives (standing : node.Stands tree) (fits : tree.Fits) (offset : Nat) :
    ∃ found, Query.Gives tree (node.tokensAt offset) (.ok found) ∧
      found.toList = node.touching offset := by
  induction node using Node.descend with
  | step node ih =>
    rw [tokensAt_eq standing fits]
    split_ifs with hskip
    · have hnil : touchingOf offset (Element.node node).parts = [] :=
        Element.Stands.touchingOf_eq_nil standing fits hskip
      exact ⟨.none, Query.Gives.pure _, hnil.symm⟩
    have hinside : node.start ≤ offset := by omega
    have htidy := (standing.wellFormed fits).tidy
    have hsearch : ∀ i, i < node.arity → node.green.Touches (offset - node.start) i →
        ∃ found, Query.Gives tree (node.touchingAt offset i) (.ok found) ∧
          found.toList = touchingOf offset (node.partsIn i) :=
      fun i hi hti => touchingAt_gives standing fits hi hinside hti fun below hbelow =>
        ih i below hbelow (standing.below? hbelow)
    rw [touching_eq standing fits hinside]
    rcases Green.Node.slotsTouching_cases htidy (offset - node.start) with
      hnone | ⟨i, hone, hi, hti⟩ | ⟨i, j, htwo, hij, hj, hti, htj⟩
    · rw [hnone]
      exact ⟨.none, Query.Gives.pure _, rfl⟩
    · rw [hone, List.flatMap_singleton]
      exact hsearch i hi hti
    · have hi : i < node.arity := Nat.lt_trans hij hj
      have hmeets : ∀ k, k < node.arity → Meets (node.start + node.green.before k)
          (node.start + node.green.before (k + 1)) offset (touchingOf offset (node.partsIn k)) :=
        fun k hk => partsIn_meets standing fits hk fun n hn =>
          (standing.below? hn).touching_meets fits offset
      obtain ⟨honei, honej⟩ :=
        length_of_two_slots hij hinside hti htj (hmeets i hi) (hmeets j hj)
      obtain ⟨left, hleft, hrowi⟩ := hsearch i hi hti
      obtain ⟨right, hright, hrowj⟩ := hsearch j hj htj
      rw [htwo, List.flatMap_cons, List.flatMap_singleton, ← hrowi, ← hrowj]
      refine ⟨left.join right, hleft.bind_ok (hright.bind_ok (Query.Gives.pure _)), ?_⟩
      exact Touching.toList_join (hrowi ▸ honei) (hrowj ▸ honej)

end

end LosslessSyntax.Placed
