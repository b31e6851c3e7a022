import LosslessSyntax.Placed.Offset
import LosslessSyntax.Proofs.Green.Locate
import LosslessSyntax.Proofs.Placed.Parts

/-!
# The part that holds a stretch of text

Of the parts below a node that hold a stretch of text the search finds the last one. Parts that end
where the text begins count only at the end of the node.

* `Placed.Element.Holds`: a part that holds a stretch of text;
* `Placed.Node.holding`: the parts of a node that do;
* **`Placed.Node.coveringFrom_gives`**: the search finds the last of them;
* **`Placed.Node.covering_gives`**: so does it for every stretch within a node.
-/

namespace LosslessSyntax.Placed

/-- A part holds the text from `first` to `last` if it reaches from the one to the other, and goes on
after `first` unless all of the text ends there, at `stop`. -/
def Element.Holds (first last stop : Nat) (element : Element) : Prop :=
  element.start ≤ first ∧ last ≤ element.start + element.width ∧
    (first < element.start + element.width ∨ first = stop)

instance (first last stop : Nat) : DecidablePred (Element.Holds first last stop) :=
  fun _ => inferInstanceAs (Decidable (_ ∧ _ ∧ _))

/-- The parts of a row that hold a stretch of text. -/
def holdingOf (first last stop : Nat) (row : List Element) : List Element :=
  row.filter (Element.Holds first last stop ·)

/-- The parts of a node, itself among them, that hold a stretch of text. -/
def Node.holding (node : Node) (span : Span) : List Element :=
  holdingOf span.start span.stop (node.start + node.width) (Element.node node).parts

section

variable {tree : Tree} {node : Node} {first last stop : Nat}

theorem holdingOf_eq_nil {row : List Element}
    (h : ∀ element ∈ row, ¬ element.Holds first last stop) : holdingOf first last stop row = [] := by
  refine List.filter_eq_nil_iff.2 fun element hmem => ?_
  rw [decide_eq_true_eq]
  exact h element hmem

theorem holdingOf_append (row row' : List Element) : holdingOf first last stop (row ++ row') =
    holdingOf first last stop row ++ holdingOf first last stop row' := List.filter_append ..

theorem holdingOf_node (h : (Element.node node).Holds first last stop) :
    holdingOf first last stop (Element.node node).parts =
      .node node :: holdingOf first last stop node.parts :=
  List.filter_cons_of_pos (decide_eq_true h)

theorem Node.holdingOf_parts (standing : node.Stands tree) (fits : tree.Fits) {slot : Nat}
    (hslot : slot < node.arity)
    (hafter : first - node.start < node.green.before (slot + 1) ∨ slot + 1 = node.green.arity) :
    holdingOf first last stop node.parts =
      holdingOf first last stop ((List.range slot).flatMap node.partsIn) ++
        holdingOf first last stop (node.partsIn slot) := by
  have hnone : holdingOf first last stop (node.partsFrom (slot + 1)) = [] := by
    refine holdingOf_eq_nil fun element hmem hholds => ?_
    rw [Node.partsFrom_eq, List.mem_flatMap] at hmem
    obtain ⟨i, hi, hmem⟩ := hmem
    have hrange := List.mem_range'_1.1 hi
    have hinside := standing.inside_partsIn fits hmem
    have hmono := node.green.before_mono (show slot + 1 ≤ i by omega)
    have hstart := hholds.1
    rcases hafter with hafter | hafter
    · omega
    · change slot + 1 = node.arity at hafter
      omega
  rw [Node.parts_split hslot, holdingOf_append, holdingOf_append, hnone, List.append_nil]

end

/-! ## The search -/

section

variable {tree : Tree} {node : Node} {first last stop : Nat}

theorem Node.coveringFrom_eq (node : Node) (first last : Nat) : node.coveringFrom first last =
    (match node.green.slotCovering? (first - node.start) (last - node.start) with
    | none => return .node node
    | some slot =>
      match node.green.slots[slot]? with
      | some (.token green) => return .token (← node.tokenAt slot green)
      | some (.node head slots) => do
        ((← node.placeNode slot ⟨head, slots⟩).withGreen ⟨head, slots⟩).coveringFrom first last
      | none => throw (node.green.noSlot slot)) := by
  rw [coveringFrom.eq_def]
  cases node.green.slotCovering? (first - node.start) (last - node.start) with
  | none => rfl
  | some slot =>
    dsimp only
    cases node.green.slots[slot]? with
    | none => rfl
    | some e => cases e <;> rfl

/-- **The search finds the last part that holds the text.** -/
theorem Node.coveringFrom_gives (standing : node.Stands tree) (fits : tree.Fits)
    (hle : first ≤ last) (hstop : node.start + node.width ≤ stop)
    (hholds : (Element.node node).Holds first last stop) : ∃ element,
      (holdingOf first last stop (Element.node node).parts).getLast? = some element ∧
      Query.Gives tree (node.coveringFrom first last) (.ok element) := by
  induction node using Node.descend with
  | step node ih =>
    have htidy := (standing.wellFormed fits).tidy
    obtain ⟨hfirst, hlast, hbeyond⟩ := hholds
    change node.start ≤ first at hfirst
    change last ≤ node.start + node.width at hlast
    change first < node.start + node.width ∨ first = stop at hbeyond
    rw [coveringFrom_eq, holdingOf_node ⟨hfirst, hlast, hbeyond⟩]
    by_cases harity : node.green.arity = 0
    · have hparts : node.parts = [] := Node.partsFrom_none (Nat.le_of_eq harity)
      rw [Green.Node.slotCovering?_none harity, hparts]
      exact ⟨_, rfl, Query.Gives.pure _⟩
    obtain ⟨slot, hslot, hstart, hbefore, hafter, hcovering⟩ := Green.Node.slotCovering?_cases htidy
      (Nat.pos_of_ne_zero harity) (first - node.start) (last - node.start)
    obtain ⟨below, hbelow⟩ := Option.isSome_iff_exists.1 (Node.below?_isSome.2 hslot)
    have hbelowStart := Node.below?_start hbelow
    have hbelowStop := (standing.below?_inside fits hbelow).2.1
    have hend : slot + 1 = node.green.arity → node.green.before (slot + 1) = node.width :=
      fun h => h ▸ htidy.before_arity
    have hrow : node.partsIn slot = below.parts := by
      rw [partsIn, hbelow]
      rfl
    rw [hcovering, Node.holdingOf_parts standing fits hslot hafter, hrow, ← List.cons_append,
      List.getLast?_append]
    split_ifs with hcovers
    · have hbelowHolds : below.Holds first last stop := by
        refine ⟨by omega, by omega, ?_⟩
        rcases hafter with hafter | hafter
        · exact .inl (by omega)
        · have hwidth := hend hafter
          omega
      have hgreen := Node.below?_green hbelow
      cases below with
      | token t =>
        have hone : holdingOf first last stop (Element.token t).parts = [.token t] :=
          List.filter_cons_of_pos (decide_eq_true hbelowHolds)
        have htoken : some (Element.token (node.tokenBelow slot t.green)) = some (.token t) :=
          (Node.below?_of_token hgreen).symm.trans hbelow
        rw [hone, ← Option.some.inj htoken]
        dsimp only
        rw [hgreen]
        exact ⟨_, rfl, (tokenAt_gives standing fits hgreen).bind_ok (Query.Gives.pure _)⟩
      | node n =>
        have hstopBelow := (standing.below?_inside fits hbelow).2.2
        obtain ⟨element, hlastBelow, hgives⟩ := ih slot n hbelow (standing.below? hbelow)
          (Nat.le_trans hstopBelow hstop) hbelowHolds
        have hnode : some (Element.node (node.nodeBelow slot n.green)) = some (.node n) :=
          (Node.below?_of_node hgreen).symm.trans hbelow
        rw [← Element.node.inj (Option.some.inj hnode)] at hgives
        rw [hlastBelow]
        dsimp only
        rw [hgreen]
        exact ⟨element, rfl, (placeNode_gives standing fits hgreen).bind_ok hgives⟩
    · -- the text does not end at the end of the node, or the slot would be its last and hold it
      have hinner : first ≠ stop := by
        intro heq
        rcases hafter with hafter | hafter
        · omega
        · have hwidth := hend hafter
          omega
      have hnoneBelow : holdingOf first last stop below.parts = [] := by
        refine holdingOf_eq_nil fun element hmem hholds => ?_
        have hinside := (standing.below? hbelow).inside_parts fits hmem
        have hreach := hholds.2.1
        omega
      have hnoneBefore : holdingOf first last stop ((List.range slot).flatMap node.partsIn) = [] := by
        refine holdingOf_eq_nil fun element hmem hholds => ?_
        obtain ⟨i, hi, hmem⟩ := List.mem_flatMap.1 hmem
        have hinside := standing.inside_partsIn fits hmem
        have hpass := hbefore i (List.mem_range.1 hi)
        rcases hholds.2.2 with hmore | hstops
        · omega
        · exact hinner hstops
      rw [hnoneBelow, hnoneBefore]
      exact ⟨.node node, rfl, Query.Gives.pure _⟩

/-- **The part that holds a stretch of text within a node**, or the refusal of a text that is not. -/
theorem Node.covering_gives (standing : node.Stands tree) (fits : tree.Fits) (span : Span) :
    if node.start ≤ span.start ∧ span.stop ≤ node.start + node.width then
      ∃ element, (node.holding span).getLast? = some element ∧
        Query.Gives tree (node.covering span) (.ok element)
    else Query.Gives tree (node.covering span) (.error (.spanOutsideNode span node.kind
      ⟨node.start, node.start + node.width, Nat.le_add_right _ _⟩)) := by
  unfold covering
  rw [standing.span_ok fits]
  split_ifs with hinside
  · have hcovers : Span.covers ⟨node.start, node.start + node.width, Nat.le_add_right _ _⟩ span =
        true := by simpa [Span.covers] using hinside
    obtain ⟨element, hlast, hgives⟩ := Node.coveringFrom_gives standing fits span.start_le_stop
      (Nat.le_refl (node.start + node.width)) ⟨hinside.1, hinside.2, by
        have hle := Nat.le_trans span.start_le_stop hinside.2
        change span.start < node.start + node.width ∨ _
        omega⟩
    refine ⟨element, hlast, (Query.Gives.lift (.ok _)).bind_ok ?_⟩
    rw [if_pos hcovers]
    exact hgives
  · have hcovers : ¬ Span.covers ⟨node.start, node.start + node.width, Nat.le_add_right _ _⟩ span =
        true := by simpa [Span.covers] using hinside
    refine (Query.Gives.lift (.ok _)).bind_ok ?_
    rw [if_neg hcovers]
    exact Query.Gives.throw _

end

end LosslessSyntax.Placed
