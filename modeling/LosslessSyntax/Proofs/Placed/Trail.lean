import LosslessSyntax.Proofs.Placed.FillsRows
import LosslessSyntax.Proofs.Placed.Preorder

/-!
# What a search leaves behind

A search by offset places the nodes that it goes through, and no others: for an offset these are the
nodes with text that touch it, for a stretch of text the nodes on the way to the part that is found.
Nodes that were placed before stay as they are.

* `Placed.Memo.Gains`: a memo that has grown by given nodes and by no others;
* `Placed.Node.placeNode_gains`: placing a single node;
* `Placed.Node.TouchedBelow`, **`Placed.Node.tokensAt_gains`**: the search for an offset;
* `Placed.Node.OnWay`, **`Placed.Node.covering_gains`**: the search for a stretch of text;
* `Placed.Query.Gives.run_fills`: a query with one answer comes to it, and does what it does.
-/

namespace LosslessSyntax.Placed

/-! ## What a memo gains -/

/-- A memo has grown by the nodes that are `added`, each in its slot, and by no others. -/
structure Memo.Gains (memo memo' : Memo) (added : Node → Prop) : Prop where
  grows : Memo.Grows memo memo'
  placed : ∀ node, added node → memo'[node.address]? = some node
  kept : ∀ address, (∀ node, added node → node.address ≠ address) →
    memo'[address]? = memo[address]?

namespace Memo.Gains

variable {memo memo' memo'' : Memo} {added first second : Node → Prop}

theorem none (memo : Memo) (h : ∀ node, ¬ added node) : Memo.Gains memo memo added where
  grows := Memo.Grows.refl memo
  placed node hadded := absurd hadded (h node)
  kept _ _ := rfl

theorem trans (h : Memo.Gains memo memo' first) (h' : Memo.Gains memo' memo'' second)
    (hboth : ∀ node, added node ↔ first node ∨ second node) : Memo.Gains memo memo'' added where
  grows := h.grows.trans h'.grows
  placed node hadded := by
    rcases (hboth node).1 hadded with hfirst | hsecond
    · exact h'.grows _ _ (h.placed node hfirst)
    · exact h'.placed node hsecond
  kept address hother := by
    rw [h'.kept address fun node hsecond => hother node ((hboth node).2 (.inr hsecond))]
    exact h.kept address fun node hfirst => hother node ((hboth node).2 (.inl hfirst))

theorem congr (h : Memo.Gains memo memo' first) (hsame : ∀ node, added node ↔ first node) :
    Memo.Gains memo memo' added :=
  h.trans (none memo' fun _ => not_false) fun node => (hsame node).trans (or_iff_left not_false).symm

end Memo.Gains

section

variable {tree : Tree} {memo : Memo} {node below : Node} {slot offset : Nat} {element : Element}

theorem Node.placeNode_gains (h : node.Lives tree memo) {head : Green.Head}
    {slots : Array Green.Element} (found : node.green.slots[slot]? = some (.node head slots)) :
    Query.Fills tree memo (node.placeNode slot ⟨head, slots⟩) fun memo' placed =>
      (placed = node.nodeBelow slot ⟨head, slots⟩ ∧ placed.Lives tree memo') ∧
      Memo.Gains memo memo' (· = node.nodeBelow slot ⟨head, slots⟩) := by
  intro sound
  have hfills := placeNode_fills h found sound
  rw [placeNode_eq sound h.standing found] at hfills ⊢
  cases hfill : node.fill slot ⟨head, slots⟩ memo with
  | error violation =>
    rw [hfill] at hfills
    exact hfills
  | ok memo' =>
    rw [hfill] at hfills
    obtain ⟨hext, hplaced⟩ := hfills
    obtain ⟨hmem, hother⟩ := getElem?_fill hfill
    refine ⟨hext, hplaced, hext.grows, ?_, fun address hne => hother address (hne _ rfl).symm⟩
    rintro _ rfl
    exact (getElem?_of_slot (sound.extend hext) h.standing found hmem).1

theorem Query.Gives.run_fills {α : Type} {query : Query α} {value : α} {claim : Memo → α → Prop}
    (h : Query.Gives tree query (.ok value)) (fills : Query.Fills tree memo query claim)
    (sound : tree.Sound memo) : (∃ memo', query memo = .ok value memo' ∧ claim memo' value) ∨
      ¬ tree.Narrow ∧ ∃ memo', query memo = .error .slotTooLarge memo' := by
  obtain ⟨memo', hrun | ⟨hwide, hrun⟩⟩ := h.run sound.keeps
  · have hquery := fills sound
    rw [hrun] at hquery
    exact .inl ⟨memo', hrun, hquery.2⟩
  · exact .inr ⟨hwide, memo', hrun⟩

/-! ## The search for an offset -/

/-- A node touches an offset if it has text and holds the offset or has it at an end. -/
def Node.Touches (offset : Nat) (node : Node) : Prop :=
  node.width ≠ 0 ∧ node.start ≤ offset ∧ offset ≤ node.start + node.width

/-- The nodes below a node that touch an offset. -/
def Node.TouchedBelow (node : Node) (offset : Nat) (below : Node) : Prop :=
  .node below ∈ node.parts ∧ below.Touches offset

/-- The nodes in a slot and below it that touch an offset. -/
def Node.TouchedIn (node : Node) (offset slot : Nat) (below : Node) : Prop :=
  .node below ∈ node.partsIn slot ∧ below.Touches offset

/-- The nodes that touch an offset are in the slots that touch it. -/
theorem Node.touchedBelow_iff (standing : node.Stands tree) (fits : tree.Fits)
    (hstart : node.start ≤ offset) : node.TouchedBelow offset below ↔
      ∃ slot ∈ node.green.slotsTouching (offset - node.start), node.TouchedIn offset slot below := by
  unfold TouchedBelow TouchedIn
  rw [Green.Node.slotsTouching_eq (standing.wellFormed fits).tidy, parts_eq, List.mem_flatMap]
  constructor
  · rintro ⟨⟨slot, hslot, hmem⟩, htouches⟩
    refine ⟨slot, List.mem_filter.2 ⟨hslot, decide_eq_true ?_⟩, hmem, htouches⟩
    have hinside := standing.inside_partsIn fits hmem
    change _ ≤ below.start ∧ below.start + below.width ≤ _ at hinside
    obtain ⟨hwidth, hfirst, hlast⟩ := htouches
    rw [Green.Node.Touches, Green.Node.widthOf_eq]
    omega
  · rintro ⟨slot, hslot, hmem, htouches⟩
    exact ⟨⟨slot, List.mem_of_mem_filter hslot, hmem⟩, htouches⟩

theorem Node.not_touchedBelow (standing : node.Stands tree) (fits : tree.Fits)
    (h : node.width = 0 ∨ offset < node.start ∨ node.start + node.width < offset) :
    ¬ node.TouchedBelow offset below := by
  rintro ⟨hmem, hwidth, hstart, hstop⟩
  have hinside := standing.inside fits hmem
  change _ ≤ below.start ∧ below.start + below.width ≤ _ at hinside
  omega

theorem Node.touchingAt_gains (h : node.Lives tree memo) (fits : tree.Fits)
    (hstart : node.start ≤ offset) (htouches : node.green.Touches (offset - node.start) slot)
    (ih : ∀ below memo, node.below? slot = some (.node below) → below.Lives tree memo →
      Query.Fills tree memo (below.tokensAt offset) fun memo' _ =>
        Memo.Gains memo memo' (below.TouchedBelow offset)) :
    Query.Fills tree memo (node.touchingAt offset slot) fun memo' _ =>
      Memo.Gains memo memo' (node.TouchedIn offset slot) := by
  rw [touchingAt_eq]
  cases hfound : node.green.slots[slot]? with
  | none => exact Query.Fills.throw _
  | some e =>
    cases e with
    | token green =>
      refine Query.Fills.lift_bind fun token _ => Query.Fills.pure (Memo.Gains.none memo ?_)
      rintro below ⟨hmem, -⟩
      rw [partsIn, below?_of_token hfound] at hmem
      exact absurd (List.mem_singleton.1 hmem) (by simp)
    | node head slots =>
      have hbelow := below?_of_node hfound
      refine (placeNode_gains h hfound).bind fun placed memo' _ hplaced => ?_
      obtain ⟨⟨rfl, hlives⟩, hgains⟩ := hplaced
      rw [nodeBelow_withGreen]
      refine (ih _ memo' hbelow hlives).imp fun memo'' _ _ hgains' => hgains.trans hgains' ?_
      intro below
      -- the node in the slot touches the offset as the slot does
      have hslot : (node.nodeBelow slot ⟨head, slots⟩).Touches offset := by
        have hfirst := Node.below?_start hbelow
        have hlast := (h.standing.below?_inside fits hbelow).2.1
        change (node.nodeBelow slot ⟨head, slots⟩).start = _ at hfirst
        change (node.nodeBelow slot ⟨head, slots⟩).start +
          (node.nodeBelow slot ⟨head, slots⟩).width = _ at hlast
        rw [Green.Node.Touches, Green.Node.widthOf_eq] at htouches
        exact ⟨by omega, by omega, by omega⟩
      unfold TouchedIn TouchedBelow
      rw [partsIn, hbelow]
      change Element.node below ∈ .node (node.nodeBelow slot ⟨head, slots⟩) :: _ ∧ _ ↔ _
      rw [List.mem_cons, Element.node.injEq]
      constructor
      · rintro ⟨hsame | hmem, htouch⟩
        · exact .inl hsame
        · exact .inr ⟨hmem, htouch⟩
      · rintro (rfl | ⟨hmem, htouch⟩)
        · exact ⟨.inl rfl, hslot⟩
        · exact ⟨.inr hmem, htouch⟩

/-- **The search for an offset places the nodes with text that touch it.** -/
theorem Node.tokensAt_gains (h : node.Lives tree memo) (fits : tree.Fits) (offset : Nat) :
    Query.Fills tree memo (node.tokensAt offset) fun memo' _ =>
      Memo.Gains memo memo' (node.TouchedBelow offset) := by
  induction node using Node.descend generalizing memo with
  | step node ih =>
    have standing := h.standing
    rw [tokensAt_eq standing fits]
    split_ifs with hskip
    · exact Query.Fills.pure (Memo.Gains.none memo fun _ => not_touchedBelow standing fits hskip)
    have hstart : node.start ≤ offset := by omega
    have hbelow := fun below => @touchedBelow_iff tree node below offset standing fits hstart
    have hslot : ∀ {slot memo}, node.green.Touches (offset - node.start) slot →
        node.Lives tree memo → Query.Fills tree memo (node.touchingAt offset slot) fun memo' _ =>
          Memo.Gains memo memo' (node.TouchedIn offset slot) := fun {slot} _ hti h =>
      touchingAt_gains h fits hstart hti fun below _ hbelow hlives => ih slot below hbelow hlives
    rcases Green.Node.slotsTouching_cases (standing.wellFormed fits).tidy (offset - node.start) with
      hnone | ⟨i, hone, -, hti⟩ | ⟨i, j, htwo, -, -, hti, htj⟩
    · rw [hnone] at hbelow ⊢
      exact Query.Fills.pure (Memo.Gains.none memo fun below => by simp [hbelow])
    · rw [hone] at hbelow ⊢
      exact (hslot hti h).imp fun _ _ _ hgains => hgains.congr fun below => by simp [hbelow]
    · rw [htwo] at hbelow ⊢
      refine (hslot hti h).bind fun before m₁ h₁ hgains₁ => ?_
      refine (hslot htj (h.mono h₁.grows)).bind fun after m₂ _ hgains₂ => Query.Fills.pure ?_
      exact hgains₁.trans hgains₂ fun below => by simp [hbelow]

/-! ## The search for a stretch of text -/

/-- The nodes below a node that are on the way to one of its parts, the part itself among them. -/
def Node.OnWay (node : Node) (element : Element) (below : Node) : Prop :=
  .node below ∈ node.parts ∧ (element = .node below ∨ below ∈ element.above)

theorem Node.Stands.mem_parts_iff (standing : node.Stands tree) : .node below ∈ node.parts ↔
    below.Stands tree ∧ node.path <+: below.path ∧ node.path ≠ below.path := by
  have hnode : (Element.node node).Stands tree := standing
  constructor
  · intro hmem
    refine ⟨standing.of_mem_parts hmem, ?_⟩
    obtain ⟨slot, part, hpart, hmem⟩ := Node.mem_parts.1 hmem
    have hpre := Element.path_prefix hmem
    rw [Node.below?_path hpart] at hpre
    refine ⟨(List.prefix_append _ _).trans hpre, fun hsame => ?_⟩
    have hlength := hpre.length_le
    change _ ≤ below.path.length at hlength
    rw [← hsame, List.length_append] at hlength
    exact absurd hlength (by simp)
  · rintro ⟨hstanding, hpre, hne⟩
    have hbelow : (Element.node below).Stands tree := hstanding
    rcases List.mem_cons.1 ((hnode.mem_parts_iff hbelow).2 hpre) with hsame | hmem
    · exact absurd (congrArg Element.path hsame).symm hne
    · exact hmem

theorem Node.Stands.onWay_iff (standing : node.Stands tree) (hpart : element.Stands tree) :
    node.OnWay element below ↔ below.Stands tree ∧ (node.path <+: below.path ∧
      node.path ≠ below.path) ∧ below.path <+: element.path := by
  unfold Node.OnWay
  rw [standing.mem_parts_iff, and_assoc]
  refine and_congr_right fun hbelow => and_congr_right fun _ => ?_
  have hstanding : (Element.node below).Stands tree := hbelow
  constructor
  · rintro (rfl | habove)
    · exact List.prefix_refl _
    · exact ((hpart.mem_above_iff hbelow).1 habove).1
  · intro hpre
    rcases hstanding.eq_or_above hpart hpre with hsame | ⟨above, habove, hsame⟩
    · exact .inl hsame.symm
    · cases hsame
      exact .inr habove

theorem Node.Stands.not_onWay_self (standing : node.Stands tree) :
    ¬ node.OnWay (.node node) below := by
  have hnode : (Element.node node).Stands tree := standing
  rw [standing.onWay_iff hnode]
  rintro ⟨-, ⟨hpre, hne⟩, hpre'⟩
  exact hne (hpre.eq_of_length_le hpre'.length_le)

theorem Node.Stands.not_onWay_token (standing : node.Stands tree) {token : Token}
    (h : node.below? slot = some (.token token)) : ¬ node.OnWay (.token token) below := by
  have htoken := standing.below? h
  rw [standing.onWay_iff htoken, Node.below?_path h]
  rintro ⟨hbelow, ⟨hpre, hne⟩, hpre'⟩
  rcases List.prefix_concat_iff.1 hpre' with hsame | hpre'
  · have hstanding : (Element.node below).Stands tree := hbelow
    exact absurd (hstanding.eq_of_path htoken (hsame.trans (Node.below?_path h).symm)) (by simp)
  · exact hne (hpre.eq_of_length_le hpre'.length_le)

/-- The way to what is in a slot or below it begins with the node in the slot. -/
theorem Node.Stands.onWay_cons (standing : node.Stands tree) {next : Node}
    (h : node.below? slot = some (.node next)) (hpart : element ∈ (Element.node next).parts) :
    node.OnWay element below ↔ below = next ∨ next.OnWay element below := by
  have hnext : next.Stands tree := standing.below? h
  have hnextElement : (Element.node next).Stands tree := hnext
  have helement := hnextElement.of_mem_parts hpart
  have hpath : next.path = node.path ++ [slot] := Node.below?_path h
  have hto : next.path <+: element.path := Element.path_prefix hpart
  have hfrom : node.path <+: next.path := hpath ▸ List.prefix_append _ _
  have hlength : next.path.length = node.path.length + 1 := by simp [hpath]
  rw [standing.onWay_iff helement, hnext.onWay_iff helement]
  constructor
  · rintro ⟨hbelow, ⟨hpre, hne⟩, hpre'⟩
    have hlonger : next.path.length ≤ below.path.length := by
      have hlt : node.path.length ≠ below.path.length := fun heq => hne (hpre.eq_of_length heq)
      have hle := hpre.length_le
      omega
    have honward := List.prefix_of_prefix_length_le hto hpre' hlonger
    by_cases hsame : next.path = below.path
    · exact .inl (hbelow.eq_of_path hnext hsame.symm)
    · exact .inr ⟨hbelow, ⟨honward, hsame⟩, hpre'⟩
  · rintro (rfl | ⟨hbelow, ⟨hpre, -⟩, hpre'⟩)
    · exact ⟨hnext, ⟨hfrom, fun hsame => by rw [hsame] at hlength; omega⟩, hto⟩
    · refine ⟨hbelow, ⟨hfrom.trans hpre, fun hsame => ?_⟩, hpre'⟩
      have hle := hpre.length_le
      rw [← hsame] at hle
      omega

theorem Node.eq_of_tokenAt (wellFormed : node.green.WellFormed) {green : Green.Token}
    (found : node.green.slots[slot]? = some (.token green)) {token : Token}
    (h : node.tokenAt slot green = .ok token) : token = node.tokenBelow slot green := by
  rw [tokenAt_eq_offsetBelow wellFormed found] at h
  cases hoffset : node.offsetBelow slot with
  | ok start =>
    rw [hoffset] at h
    cases h
    rfl
  | error violation =>
    rw [hoffset] at h
    cases h

theorem Node.coveringFrom_gains (h : node.Lives tree memo) (first last : Nat) :
    Query.Fills tree memo (node.coveringFrom first last) fun memo' element =>
      element ∈ (Element.node node).parts ∧ Memo.Gains memo memo' (node.OnWay element) := by
  induction node using Node.descend generalizing memo with
  | step node ih =>
    have standing := h.standing
    rw [coveringFrom_eq]
    cases node.green.slotCovering? (first - node.start) (last - node.start) with
    | none =>
      refine Query.Fills.pure ⟨Element.mem_parts_self _, Memo.Gains.none memo fun _ => ?_⟩
      exact standing.not_onWay_self
    | some slot =>
      dsimp only
      cases hfound : node.green.slots[slot]? with
      | none => exact Query.Fills.throw _
      | some e =>
        have hinParts : ∀ {below part}, node.below? slot = some below → part ∈ below.parts →
            part ∈ (Element.node node).parts := fun hbelow hpart =>
          List.mem_cons_of_mem _ (Node.mem_parts.2 ⟨slot, _, hbelow, hpart⟩)
        cases e with
        | token green =>
          have hbelow := below?_of_token hfound
          refine Query.Fills.ofSound fun sound => Query.Fills.lift_bind fun token htoken => ?_
          have wellFormed := standing.wellFormed_of_sound sound
          rw [eq_of_tokenAt wellFormed hfound htoken]
          refine Query.Fills.pure ⟨hinParts hbelow (Element.mem_parts_self _), ?_⟩
          exact Memo.Gains.none memo fun _ => standing.not_onWay_token hbelow
        | node head slots =>
          have hbelow := below?_of_node hfound
          refine (placeNode_gains h hfound).bind fun placed memo' _ hplaced => ?_
          obtain ⟨⟨rfl, hlives⟩, hgains⟩ := hplaced
          rw [nodeBelow_withGreen]
          refine (ih slot _ hbelow hlives).imp fun memo'' element _ hfurther => ?_
          obtain ⟨hpart, hgains'⟩ := hfurther
          exact ⟨hinParts hbelow hpart, hgains.trans hgains' fun _ => standing.onWay_cons hbelow hpart⟩

/-- **The search for a stretch of text places the nodes on the way to what it finds.** -/
theorem Node.covering_gains (h : node.Lives tree memo) (span : Span) :
    Query.Fills tree memo (node.covering span) fun memo' element =>
      Memo.Gains memo memo' (node.OnWay element) := by
  refine Query.Fills.lift_bind fun whole _ => ?_
  split_ifs with hcovers
  · exact (coveringFrom_gains h span.start span.stop).imp fun _ _ _ hfound => hfound.2
  · exact Query.Fills.throw _

end

end LosslessSyntax.Placed
