import LosslessSyntax.Proofs.Green.Splice
import LosslessSyntax.Proofs.Placed.Beside

/-!
# The order of the parts

All parts of a tree stand in one row, each before what is below it, and what is in a slot before what
is in later slots. So of two parts in the row the first is above the second, or it is to the left of
it: their paths part in some node, and the text of the first ends before that of the second begins.

* `Placed.LeftOf`: a path that turns off to the left of another one;
* `Placed.Element.above`: the nodes above a part;
* `Placed.Element.Precedes`: a part that comes before another one in the row of a tree;
* **`Placed.Element.parts_ordered`**: what comes first is above or to the left;
* **`Placed.Element.Stands.stop_le_of_leftOf`**: what is to the left ends first;
* **`Placed.Element.Stands.mem_parts_iff`**, **`Placed.Element.Stands.mem_above_iff`**: what is below
  a part and what is above it, told by paths.
-/

namespace LosslessSyntax

open Green

namespace Placed

/-- One path turns off to the left of another one: up to some node they are one, and there the first
goes on in an earlier slot. -/
inductive LeftOf : List Nat → List Nat → Prop
  | turn {i j : Nat} (h : i < j) (p q : List Nat) : LeftOf (i :: p) (j :: q)
  | along (slot : Nat) {p q : List Nat} (h : LeftOf p q) : LeftOf (slot :: p) (slot :: q)

/-- The nodes above a part, from the inside out. -/
def Element.above (element : Element) : List Node := (element.parent?.map Node.ancestors).getD []

/-- In the row of all parts of a tree, one part comes before another one. -/
def Element.Precedes (tree : Tree) (a b : Element) : Prop :=
  ∃ before after, (Element.node tree.root).parts = before ++ a :: after ∧ b ∈ after

/-! ## Paths that part -/

namespace LeftOf

variable {p q p' q' : List Nat}

theorem append_left (common : List Nat) (h : LeftOf p q) : LeftOf (common ++ p) (common ++ q) := by
  induction common with
  | nil => exact h
  | cons slot common ih => exact .along slot ih

theorem of_prefix (h : LeftOf p q) (hp : p <+: p') (hq : q <+: q') : LeftOf p' q' := by
  obtain ⟨rest, rfl⟩ := hp
  obtain ⟨rest', rfl⟩ := hq
  induction h with
  | turn h p q => exact .turn h _ _
  | along slot _ ih => exact .along slot ih

theorem not_prefix (h : LeftOf p q) : ¬ p <+: q ∧ ¬ q <+: p := by
  induction h with
  | turn h p q =>
    rw [List.cons_prefix_cons, List.cons_prefix_cons]
    exact ⟨fun honward => Nat.ne_of_lt h honward.1, fun honward => Nat.ne_of_gt h honward.1⟩
  | along slot _ ih =>
    rw [List.cons_prefix_cons, List.cons_prefix_cons]
    exact ⟨fun honward => ih.1 honward.2, fun honward => ih.2 honward.2⟩

end LeftOf

/-- Of two paths one goes on from the other, or they part. -/
theorem prefix_or_leftOf (p q : List Nat) : p <+: q ∨ q <+: p ∨ LeftOf p q ∨ LeftOf q p := by
  induction p generalizing q with
  | nil => exact .inl List.nil_prefix
  | cons i p ih =>
    cases q with
    | nil => exact .inr (.inl List.nil_prefix)
    | cons j q =>
      rcases Nat.lt_trichotomy i j with h | rfl | h
      · exact .inr (.inr (.inl (.turn h p q)))
      · rw [List.cons_prefix_cons, List.cons_prefix_cons]
        rcases ih q with h | h | h | h
        · exact .inl ⟨rfl, h⟩
        · exact .inr (.inl ⟨rfl, h⟩)
        · exact .inr (.inr (.inl (.along i h)))
        · exact .inr (.inr (.inr (.along i h)))
      · exact .inr (.inr (.inr (.turn h q p)))

/-! ## The text of what has parted -/

section

variable {root e f : Green.Element} {p q : List Nat}

theorem startAt_add_le (h : root.WellFormed) (he : root.at? p = some e) :
    root.startAt p + e.width ≤ root.width := by
  induction p generalizing root with
  | nil =>
    rw [Green.Element.at?_nil, Option.some_inj] at he
    rw [he, startAt_nil, Nat.zero_add]
  | cons slot p ih =>
    cases h with
    | token t => simp at he
    | @node head slots tidy below =>
      rw [Green.Element.at?_node_cons, Option.bind_eq_some_iff] at he
      obtain ⟨child, hchild, he⟩ := he
      have hinside := ih (below child (Array.mem_of_getElem? hchild)) he
      have hsucc : Green.Node.before ⟨head, slots⟩ (slot + 1) =
          Green.Node.before ⟨head, slots⟩ slot + child.width := Green.Node.before_succ hchild
      have hle := Green.Node.before_le ⟨head, slots⟩ (slot + 1)
      rw [← tidy.width_eq] at hle
      rw [startAt_cons hchild]
      change _ ≤ Green.Node.width ⟨head, slots⟩
      omega

theorem startAt_of_leftOf (h : root.WellFormed) (hpq : LeftOf p q) (he : root.at? p = some e)
    (hf : root.at? q = some f) : root.startAt p + e.width ≤ root.startAt q := by
  induction hpq generalizing root with
  | @turn i j hij p q =>
    cases h with
    | token t => simp at he
    | @node head slots tidy below =>
      rw [Green.Element.at?_node_cons, Option.bind_eq_some_iff] at he hf
      obtain ⟨child, hchild, he⟩ := he
      obtain ⟨child', hchild', -⟩ := hf
      have hinside := startAt_add_le (below child (Array.mem_of_getElem? hchild)) he
      have hsucc : Green.Node.before ⟨head, slots⟩ (i + 1) =
          Green.Node.before ⟨head, slots⟩ i + child.width := Green.Node.before_succ hchild
      have hmono := Green.Node.before_mono ⟨head, slots⟩ (show i + 1 ≤ j from hij)
      rw [startAt_cons hchild, startAt_cons hchild']
      omega
  | along slot _ ih =>
    cases h with
    | token t => simp at he
    | @node head slots tidy below =>
      rw [Green.Element.at?_node_cons, Option.bind_eq_some_iff] at he hf
      obtain ⟨child, hchild, he⟩ := he
      obtain ⟨child', hchild', hf⟩ := hf
      cases hchild.symm.trans hchild'
      have hinside := ih (below child (Array.mem_of_getElem? hchild)) he hf
      rw [startAt_cons hchild, startAt_cons hchild]
      omega

end

section

variable {tree : Tree} {a b element : Element}

theorem Element.Stands.span_eq (standing : element.Stands tree) (fits : tree.Fits) :
    element.span = .ok ⟨element.start, element.start + element.width, Nat.le_add_right _ _⟩ := by
  cases element with
  | node n => exact if_pos (Node.Stands.stop_le standing fits)
  | token t => exact if_pos (Token.Stands.stop_le standing fits)

/-- **What is to the left ends before the other begins.** -/
theorem Element.Stands.stop_le_of_leftOf (ha : a.Stands tree) (hb : b.Stands tree)
    (fits : tree.Fits) (h : LeftOf a.path b.path) : a.start + a.width ≤ b.start := by
  have hle := startAt_of_leftOf fits.wellFormed h ha.at? hb.at?
  rw [ha.start_eq, hb.start_eq, Element.width]
  omega

/-! ## The row of all parts -/

theorem Node.children_ordered (node : Node) :
    node.children.Pairwise fun a b => LeftOf a.path b.path := by
  refine List.Pairwise.filterMap node.below? (fun i j hij a ha b hb => ?_) List.pairwise_lt_range
  rw [Node.below?_path ha, Node.below?_path hb]
  exact LeftOf.append_left _ (.turn hij [] [])

/-- **Of two parts in a row the first is above the other one or to the left of it.** -/
theorem Element.parts_ordered (element : Element) :
    element.parts.Pairwise fun a b => a.path <+: b.path ∨ LeftOf a.path b.path := by
  induction element using Element.descend with
  | token t => exact List.pairwise_singleton _ _
  | node n ih =>
    refine List.pairwise_cons.2 ⟨fun part hpart => .inl ?_, ?_⟩
    · exact Element.path_prefix (List.mem_cons_of_mem _ hpart)
    · rw [n.parts_children, List.pairwise_flatMap]
      refine ⟨ih, n.children_ordered.imp fun hleft x hx y hy => .inr ?_⟩
      exact hleft.of_prefix (Element.path_prefix hx) (Element.path_prefix hy)

theorem Element.Precedes.cases (h : Element.Precedes tree a b) :
    a.path <+: b.path ∨ LeftOf a.path b.path := by
  obtain ⟨before, after, hrow, hb⟩ := h
  have hordered := (Element.node tree.root).parts_ordered
  rw [hrow, List.pairwise_append, List.pairwise_cons] at hordered
  exact hordered.2.1.1 b hb

/-! ## One path, one part -/

theorem Element.Stands.eq_of_path (ha : a.Stands tree) (hb : b.Stands tree)
    (h : a.path = b.path) : a = b := by
  have hgreen : a.green = b.green := by
    have hat := ha.at?
    rw [h, hb.at?] at hat
    exact (Option.some.inj hat).symm
  cases a with
  | node n =>
    cases b with
    | node m => exact congrArg Element.node (Node.Stands.eq_of_path ha hb h)
    | token t => cases hgreen
  | token t =>
    cases b with
    | node m => cases hgreen
    | token t' => exact congrArg Element.token (Token.Stands.eq_of_path ha hb h)

theorem Tree.exists_standing {path : List Nat} {e : Green.Element} (h : tree.part? path = some e) :
    ∃ element : Element, element.Stands tree ∧ element.path = path ∧ element.green = e := by
  induction path using List.reverseRecOn generalizing e with
  | nil =>
    refine ⟨.node tree.root, .root, rfl, ?_⟩
    rw [Tree.part?, Green.Element.at?_nil] at h
    exact Option.some.inj h
  | append_singleton path slot ih =>
    rw [Tree.part?, Green.Element.at?_append, Option.bind_eq_some_iff] at h
    obtain ⟨above, habove, h⟩ := h
    obtain ⟨parent, standing, rfl, rfl⟩ := ih habove
    cases parent with
    | token t => simp [Element.green] at h
    | node n =>
      change (Green.Element.node n.green.head n.green.slots).at? [slot] = some e at h
      rw [Green.Element.at?_node_cons, Option.bind_eq_some_iff] at h
      obtain ⟨child, hchild, h⟩ := h
      rw [Green.Element.at?_nil, Option.some_inj] at h
      obtain ⟨below, hbelow⟩ := Option.isSome_iff_exists.1
        (Node.below?_isSome.2 (Green.Node.lt_arity_of_slot hchild))
      have hgreen := Node.below?_green hbelow
      rw [hchild, Option.some_inj] at hgreen
      exact ⟨below, Node.Stands.below? standing hbelow, Node.below?_path hbelow, hgreen ▸ h⟩

/-! ## Above and below -/

theorem Element.mem_parts_self (element : Element) : element ∈ element.parts := by
  cases element <;> exact List.mem_cons_self

theorem Element.mem_parts_trans (hb : b ∈ a.parts) (h : element ∈ b.parts) :
    element ∈ a.parts := by
  induction a using Element.descend with
  | token t => rwa [List.mem_singleton.1 hb] at h
  | node n ih =>
    rcases List.mem_cons.1 hb with rfl | hb
    · exact h
    · rw [n.parts_children, List.mem_flatMap] at hb
      obtain ⟨below, hmem, hb⟩ := hb
      refine List.mem_cons_of_mem _ ?_
      rw [n.parts_children, List.mem_flatMap]
      exact ⟨below, hmem, ih below hmem hb⟩

/-- **What is below a part has the paths that go on from its path.** -/
theorem Element.Stands.mem_parts_iff (ha : a.Stands tree) (hb : b.Stands tree) :
    b ∈ a.parts ↔ a.path <+: b.path := by
  refine ⟨Element.path_prefix, fun h => ?_⟩
  induction hpath : b.path.length generalizing b with
  | zero =>
    rw [List.eq_nil_of_length_eq_zero hpath, List.prefix_nil] at h
    rw [ha.eq_of_path hb (h.trans (List.eq_nil_of_length_eq_zero hpath).symm)]
    exact b.mem_parts_self
  | succ length ih =>
    rcases hb.parent_cases with ⟨-, hnil, -⟩ | ⟨parent, hparent, hstanding, hlast⟩
    · rw [hnil] at hpath
      cases hpath
    rw [hlast, List.prefix_concat_iff] at h
    rcases h with h | h
    · rw [ha.eq_of_path hb (h.trans hlast.symm)]
      exact b.mem_parts_self
    · have hlength : parent.path.length = length := by
        rw [hlast, List.length_append] at hpath
        exact Nat.succ.inj hpath
      have habove : Element.node parent ∈ a.parts := ih hstanding h hlength
      refine Element.mem_parts_trans habove (List.mem_cons_of_mem _ ?_)
      exact Node.mem_parts.2 ⟨_, b, (hb.below?_eq hparent).2, b.mem_parts_self⟩

theorem Node.Stands.mem_ancestors_iff {node above : Node} (hn : node.Stands tree)
    (ha : above.Stands tree) : above ∈ node.ancestors ↔ above.path <+: node.path := by
  have hpaths : above.path ∈ node.ancestors.map Node.path ↔ above.path <+: node.path := by
    rw [hn.ancestors_path, List.mem_reverse, List.mem_inits]
  rw [← hpaths, List.mem_map]
  constructor
  · exact fun h => ⟨above, h, rfl⟩
  · rintro ⟨n, h, hpath⟩
    rwa [← (hn.of_mem_ancestors h).eq_of_path ha hpath]

/-- **What is above a part has the paths that its path goes on from.** -/
theorem Element.Stands.mem_above_iff (he : element.Stands tree) {above : Node}
    (ha : above.Stands tree) :
    above ∈ element.above ↔ above.path <+: element.path ∧ above.path ≠ element.path := by
  unfold Element.above
  rcases he.parent_cases with ⟨hparent, hnil, -⟩ | ⟨parent, hparent, hstanding, hlast⟩
  · rw [hparent, hnil, List.prefix_nil]
    exact ⟨fun h => absurd h List.not_mem_nil, fun h => absurd h.1 h.2⟩
  · rw [hparent]
    change above ∈ parent.ancestors ↔ _
    rw [hstanding.mem_ancestors_iff ha, hlast, List.prefix_concat_iff]
    constructor
    · intro h
      refine ⟨.inr h, fun heq => ?_⟩
      have hlength := h.length_le
      rw [heq, List.length_append] at hlength
      exact absurd hlength (by simp)
    · exact fun h => h.1.resolve_left h.2

theorem Element.Stands.of_mem_above (he : element.Stands tree) {above : Node}
    (h : above ∈ element.above) : above.Stands tree := by
  unfold Element.above at h
  rcases he.parent_cases with ⟨hparent, -⟩ | ⟨parent, hparent, hstanding, -⟩
  · rw [hparent] at h
    exact absurd h List.not_mem_nil
  · rw [hparent] at h
    exact hstanding.of_mem_ancestors h

/-- What is above another part in the row is it, or a node above it. -/
theorem Element.Stands.eq_or_above (ha : a.Stands tree) (hb : b.Stands tree)
    (h : a.path <+: b.path) : a = b ∨ ∃ above ∈ b.above, a = .node above := by
  by_cases hpath : a.path = b.path
  · exact .inl (ha.eq_of_path hb hpath)
  refine .inr ?_
  cases a with
  | node n => exact ⟨n, (hb.mem_above_iff ha).2 ⟨h, hpath⟩, rfl⟩
  | token t =>
    -- nothing is below a token
    have hmem := (ha.mem_parts_iff hb).2 h
    exact absurd (congrArg Element.path (List.mem_singleton.1 hmem)).symm hpath

theorem Element.Stands.precedes_or (ha : a.Stands tree) (hb : b.Stands tree) (hne : a ≠ b) :
    Element.Precedes tree a b ∨ Element.Precedes tree b a := by
  have hroot : (Element.node tree.root).Stands tree := Node.Stands.root
  have hmem : a ∈ (Element.node tree.root).parts := (hroot.mem_parts_iff ha).2 List.nil_prefix
  have hmem' : b ∈ (Element.node tree.root).parts := (hroot.mem_parts_iff hb).2 List.nil_prefix
  obtain ⟨before, after, hrow⟩ := List.append_of_mem hmem
  rw [hrow, List.mem_append, List.mem_cons] at hmem'
  rcases hmem' with hbefore | rfl | hafter
  · obtain ⟨first, between, rfl⟩ := List.append_of_mem hbefore
    exact .inr ⟨first, between ++ a :: after, by simp [hrow], by simp⟩
  · exact absurd rfl hne
  · exact .inl ⟨before, after, hrow, hafter⟩

end

end Placed

end LosslessSyntax
