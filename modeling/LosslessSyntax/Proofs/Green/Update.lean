import LosslessSyntax.Proofs.Green.Equality
import LosslessSyntax.Proofs.Placed.Preorder

/-!
# The laws of splicing

A splice is told by its path and by the new part, but for identities. Where one splice follows
another one at the same path, only the second counts; splices at paths that part do not see each
other; and to put back what is there takes nothing from a tree but the annotations on the way.

Away from its path a splice changes nothing: the same parts are there, those to the left where they
were, those to the right moved by what the new part is wider than the old one.

* `Green.Element.unnoted`: a tree without the annotations of the nodes above a path;
* `Green.Head.CopyOf`: what the copy of a node has in common with it;
* **`Green.Element.Spliced.unique`**, **`Green.Element.Spliced.again`**,
  **`Green.Element.Spliced.comm`**, **`Green.Element.Spliced.same`**: the laws;
* **`Green.Element.Spliced.at?_beside`**, **`Green.Element.Spliced.startAt_before`**,
  **`Green.Element.Spliced.startAt_after`**, **`Green.Element.Spliced.above`**: what is away from the
  path, and above it.
-/

namespace LosslessSyntax.Green

open Placed (LeftOf startAt_nil startAt_cons)

/-- A tree without the annotations of the nodes above a path. -/
def Element.unnoted : Element → List Nat → Element
  | e, [] => e
  | .token t, _ :: _ => .token t
  | .node head slots, slot :: path =>
    .node { head with notes := none } (slots.modify slot fun e => e.unnoted path)
termination_by _ path => path.length

/-- What a head has in common with the one that it was copied from; annotations are not copied. -/
structure Head.CopyOf (copy head : Head) : Prop where
  kind : copy.kind = head.kind
  shape : copy.shape = head.shape
  notes : copy.notes = none

/-! ## Nodes that are alike -/

section

variable {head : Head} {slots : Array Element} {slot : Nat} {e e' : Element}

theorem Element.WellFormed.of_set
    (h : (Element.node head (slots.setIfInBounds slot e')).WellFormed)
    (found : slots[slot]? = some e) : e'.WellFormed :=
  h.inSlot (slot_set found e')

theorem Element.WellFormed.of_set_of_ne {i j : Nat} {f' : Element} (hij : i ≠ j)
    (h : (Element.node head ((slots.setIfInBounds i e').setIfInBounds j f')).WellFormed)
    (found : slots[i]? = some e) : e'.WellFormed := by
  rw [Array.setIfInBounds_comm _ _ hij] at h
  exact h.of_set ((Array.getElem?_setIfInBounds_ne hij.symm).trans found)

theorem Element.AlikeRows.set {as bs : Array Element}
    (h : Element.AlikeRows as.toList bs.toList) (slot : Nat) (he : e.Alike e') :
    Element.AlikeRows (as.setIfInBounds slot e).toList (bs.setIfInBounds slot e').toList := by
  rw [Element.AlikeRows, Array.toList_setIfInBounds, Array.toList_setIfInBounds, List.map_set,
    List.map_set, h, he]

theorem Node.Tidy.alike {a b : Node} (ha : a.Tidy) (hb : b.Tidy) (copied : a.head.CopyOf head)
    (copied' : b.head.CopyOf head) (rows : Element.AlikeRows a.slots.toList b.slots.toList) :
    a.toElement.Alike b.toElement := by
  refine alike_of_rows (copied.kind.trans copied'.kind.symm) (copied.shape.trans copied'.shape.symm)
    ?_ (copied.notes.trans copied'.notes.symm) rows
  rw [ha.width_eq, hb.width_eq, widths, widths, rows.widths]

end

/-! ## Splices that follow one another -/

namespace Element

variable {root result result' new : Element} {path : List Nat}

/-- **The path and the new part tell the result**, but for identities. -/
theorem Spliced.unique (h : Spliced new path root result) (h' : Spliced new path root result')
    (well : result.WellFormed) (well' : result'.WellFormed) : result.Alike result' := by
  induction h generalizing result' with
  | here old =>
    cases h'
    rfl
  | inSlot kind shape notes found _ ih =>
    cases h' with
    | inSlot kind' shape' notes' found' spliced' =>
      cases found.symm.trans found'
      have hbelow := ih spliced' (well.of_set found) (well'.of_set found)
      exact well.tidy.alike well'.tidy ⟨kind, shape, notes⟩ ⟨kind', shape', notes'⟩
        (AlikeRows.set rfl _ hbelow)

/-- **Of two splices at one path the second counts.** -/
theorem Spliced.again {first : Element} (h : Spliced first path root result)
    (h' : Spliced new path result result') : Spliced new path root result' := by
  induction h generalizing result' with
  | here old =>
    cases h'
    exact .here old
  | inSlot kind shape notes found _ ih =>
    cases h' with
    | inSlot kind' shape' notes' found' spliced' =>
      rw [slot_set found, Option.some_inj] at found'
      subst found'
      rw [Array.setIfInBounds_setIfInBounds]
      exact .inSlot (kind'.trans kind) (shape'.trans shape) notes' found (ih spliced')

/-- **Splices at paths that part can be made in either order.** -/
theorem Spliced.comm {a b left both right both' : Element} {p q : List Nat} (hpq : LeftOf p q)
    (ha : Spliced a p root left) (hab : Spliced b q left both) (hb : Spliced b q root right)
    (hba : Spliced a p right both') (well : both.WellFormed) (well' : both'.WellFormed) :
    both.Alike both' := by
  induction hpq generalizing root left both right both' with
  | @turn i j hij p q =>
    cases ha with
    | inSlot kindA shapeA notesA foundA splicedA =>
    cases hab with
    | inSlot kindAB shapeAB notesAB foundAB splicedAB =>
    cases hb with
    | inSlot kindB shapeB notesB foundB splicedB =>
    cases hba with
    | inSlot kindBA shapeBA notesBA foundBA splicedBA =>
      -- each of the two finds in its slot what the other one has left alone
      have hj := (Array.getElem?_setIfInBounds_ne (Nat.ne_of_lt hij)).symm.trans foundAB
      have hi := (Array.getElem?_setIfInBounds_ne (Nat.ne_of_gt hij)).symm.trans foundBA
      cases foundB.symm.trans hj
      cases foundA.symm.trans hi
      have hfirst := splicedA.unique splicedBA (well.of_set_of_ne (Nat.ne_of_lt hij) foundA)
        (well'.of_set foundBA)
      have hsecond := splicedAB.unique splicedB (well.of_set foundAB)
        (well'.of_set_of_ne (Nat.ne_of_gt hij) foundB)
      refine well.tidy.alike well'.tidy ⟨kindAB.trans kindA, shapeAB.trans shapeA, notesAB⟩
        ⟨kindBA.trans kindB, shapeBA.trans shapeB, notesBA⟩ ?_
      dsimp only
      rw [Array.setIfInBounds_comm _ _ (Nat.ne_of_gt hij)]
      exact (AlikeRows.set rfl i hfirst).set j hsecond
  | along slot hpq ih =>
    cases ha with
    | inSlot kindA shapeA notesA foundA splicedA =>
    cases hab with
    | inSlot kindAB shapeAB notesAB foundAB splicedAB =>
    cases hb with
    | inSlot kindB shapeB notesB foundB splicedB =>
    cases hba with
    | inSlot kindBA shapeBA notesBA foundBA splicedBA =>
      cases foundA.symm.trans foundB
      rw [slot_set foundA, Option.some_inj] at foundAB foundBA
      subst foundAB foundBA
      rw [Array.setIfInBounds_setIfInBounds] at well well' ⊢
      rw [Array.setIfInBounds_setIfInBounds]
      have hbelow := ih splicedA splicedAB splicedB splicedBA (well.of_set foundA)
        (well'.of_set foundB)
      exact well.tidy.alike well'.tidy ⟨kindAB.trans kindA, shapeAB.trans shapeA, notesAB⟩
        ⟨kindBA.trans kindB, shapeBA.trans shapeB, notesBA⟩ (AlikeRows.set rfl slot hbelow)

/-- **The tree becomes wider by what the new part is wider than the old one.** -/
theorem Spliced.width_add (h : Spliced new path root result) {old : Element}
    (hold : root.at? path = some old) (well : root.WellFormed) (well' : result.WellFormed) :
    result.width + old.width = root.width + new.width := by
  induction h with
  | here whole =>
    rw [at?_nil, Option.some_inj] at hold
    rw [hold, Nat.add_comm]
  | @inSlot head head' slots slot path e e' kind shape notes found _ ih =>
    rw [at?_node_cons, found, Option.bind_some] at hold
    have hbelow := ih hold (well.inSlot found) (well'.of_set found)
    have hle := well.tidy.slot_width_le found
    have hwidth := well'.tidy.width_eq
    rw [Node.widths, well.tidy.width_set found] at hwidth
    change head'.width = head.width - e.width + e'.width at hwidth
    change e.width ≤ head.width at hle
    change head'.width + old.width = head.width + new.width
    omega

/-! ## What is there put back -/

theorem unnoted_cons {head : Head} {slots : Array Element} {slot : Nat} {e : Element}
    (found : slots[slot]? = some e) (path : List Nat) :
    (node head slots).unnoted (slot :: path) =
      .node { head with notes := none } (slots.setIfInBounds slot (e.unnoted path)) := by
  have hslots : (slots.modify slot fun e => e.unnoted path) =
      slots.setIfInBounds slot (e.unnoted path) := by
    rw [← Array.getElem?_toList] at found
    rw [← Array.toList_inj, Array.toList_modify, List.modify_eq_set_getElem?, found,
      Array.toList_setIfInBounds]
    rfl
  rw [unnoted, hslots]

/-- **To put back what is there takes away the annotations above it**, and nothing else. -/
theorem Spliced.same {old : Element} (h : Spliced old path root result)
    (hold : root.at? path = some old) (well : root.WellFormed) (well' : result.WellFormed) :
    result.Alike (root.unnoted path) := by
  induction h with
  | here whole =>
    rw [at?_nil, Option.some_inj] at hold
    rw [hold, unnoted]
    rfl
  | @inSlot head head' slots slot path e e' kind shape notes found spliced ih =>
    have hwidth := (Spliced.inSlot kind shape notes found spliced).width_add hold well well'
    rw [at?_node_cons, found, Option.bind_some] at hold
    have hbelow := ih hold (well.inSlot found) (well'.of_set found)
    rw [unnoted_cons found]
    exact Node.alike_of_rows (a := ⟨head', _⟩) (b := ⟨{ head with notes := none }, _⟩) kind shape
      (Nat.add_right_cancel hwidth) notes (AlikeRows.set rfl slot hbelow)

end Element

/-! ## Away from the path -/

section

variable {head head' : Head} {slots : Array Element} {slot slot' : Nat} {e : Element}

theorem Node.before_set_of_le (h : slot' ≤ slot) (new : Element) :
    Node.before ⟨head', slots.setIfInBounds slot new⟩ slot' = Node.before ⟨head, slots⟩ slot' := by
  rw [before, before, widths, widths, Array.toList_setIfInBounds, List.map_set,
    List.take_set_of_le h]

theorem Node.before_set_of_lt (h : slot < slot') (found : slots[slot]? = some e) (new : Element) :
    Node.before ⟨head', slots.setIfInBounds slot new⟩ slot' + e.width =
      Node.before ⟨head, slots⟩ slot' + new.width := by
  obtain ⟨left, right, hlength, hrow, hset⟩ := row_around found
  obtain ⟨count, rfl⟩ := Nat.exists_eq_add_of_lt h
  rw [before, before, widths, widths, hrow, hset]
  simp only [List.map_append, List.map_cons, List.take_append, List.length_map, hlength,
    List.sum_append]
  rw [show slot + count + 1 - slot = count + 1 by omega, List.take_succ_cons, List.take_succ_cons,
    List.sum_cons, List.sum_cons]
  omega

end

namespace Element

variable {root result new old part : Element} {path q : List Nat}

/-- **What is neither above the path nor below it stays.** -/
theorem Spliced.at?_beside (h : Spliced new path root result) (habove : ¬ q <+: path)
    (hbelow : ¬ path <+: q) : result.at? q = root.at? q := by
  induction h generalizing q with
  | here whole => exact absurd List.nil_prefix hbelow
  | @inSlot head head' slots slot path e e' kind shape notes found _ ih =>
    cases q with
    | nil => exact absurd List.nil_prefix habove
    | cons first q =>
      rw [at?_node_cons, at?_node_cons]
      by_cases hfirst : first = slot
      · subst hfirst
        rw [List.cons_prefix_cons, not_and] at habove hbelow
        rw [slot_set found, found]
        exact ih (habove rfl) (hbelow rfl)
      · rw [Array.getElem?_setIfInBounds_ne (Ne.symm hfirst)]

/-- **What is above the path and to the left of it starts where it did.** -/
theorem Spliced.startAt_before (h : Spliced new path root result)
    (hq : q <+: path ∨ LeftOf q path) : result.startAt q = root.startAt q := by
  induction h generalizing q with
  | here whole =>
    rcases hq with honward | hleft
    · rw [List.prefix_nil.1 honward, startAt_nil, startAt_nil]
    · cases hleft
  | @inSlot head head' slots slot path e e' kind shape notes found _ ih =>
    cases q with
    | nil => rw [startAt_nil, startAt_nil]
    | cons first q =>
      have hslot : first = slot ∧ (q <+: path ∨ LeftOf q path) ∨ first < slot := by
        rcases hq with honward | hleft
        · rw [List.cons_prefix_cons] at honward
          exact .inl ⟨honward.1, .inl honward.2⟩
        · cases hleft with
          | turn hlt _ _ => exact .inr hlt
          | along _ hleft => exact .inl ⟨rfl, .inr hleft⟩
      rcases hslot with ⟨rfl, hinside⟩ | hlt
      · rw [startAt_cons (slot_set found e'), startAt_cons found, ih hinside,
          Node.before_set_of_le (Nat.le_refl _)]
      · rw [startAt, startAt, Node.before_set_of_le (Nat.le_of_lt hlt),
          Array.getElem?_setIfInBounds_ne (Nat.ne_of_gt hlt)]

/-- **What is to the right of the path is moved by what the new part is wider than the old one.** -/
theorem Spliced.startAt_after (h : Spliced new path root result)
    (hold : root.at? path = some old) (well : root.WellFormed) (well' : result.WellFormed)
    (hq : LeftOf path q) : result.startAt q + old.width = root.startAt q + new.width := by
  induction h generalizing q with
  | here whole => cases hq
  | @inSlot head head' slots slot path e e' kind shape notes found spliced ih =>
    rw [at?_node_cons, found, Option.bind_some] at hold
    cases hq with
    | @turn _ j hlt _ q =>
      have hbefore : Node.before ⟨head', slots.setIfInBounds slot e'⟩ j + e.width =
          Node.before ⟨head, slots⟩ j + e'.width := Node.before_set_of_lt hlt found e'
      have hwidth := spliced.width_add hold (well.inSlot found) (well'.of_set found)
      rw [startAt, startAt, Array.getElem?_setIfInBounds_ne (Nat.ne_of_lt hlt)]
      omega
    | along _ hq =>
      have hbelow := ih hold (well.inSlot found) (well'.of_set found) hq
      have hbefore : Node.before ⟨head', slots.setIfInBounds slot e'⟩ slot =
          Node.before ⟨head, slots⟩ slot := Node.before_set_of_le (Nat.le_refl slot) e'
      rw [startAt_cons (slot_set found e'), startAt_cons found, hbefore]
      omega

/-- **What is above the path becomes wider by what the new part is wider than the old one.** -/
theorem Spliced.above (h : Spliced new path root result) (hold : root.at? path = some old)
    (hsort : new.isNode = old.isNode) (well : root.WellFormed) (well' : result.WellFormed)
    (hq : q <+: path) (hpart : root.at? q = some part) :
    ∃ part', result.at? q = some part' ∧ part'.isNode = part.isNode ∧
      part'.width + old.width = part.width + new.width := by
  induction h generalizing q with
  | here whole =>
    rw [at?_nil, Option.some_inj] at hold
    rw [List.prefix_nil.1 hq, at?_nil, Option.some_inj] at hpart
    rw [List.prefix_nil.1 hq, ← hpart, hold]
    exact ⟨new, at?_nil _, hsort, Nat.add_comm _ _⟩
  | @inSlot head head' slots slot path e e' kind shape notes found spliced ih =>
    cases q with
    | nil =>
      rw [at?_nil, Option.some_inj] at hpart
      subst hpart
      exact ⟨_, at?_nil _, rfl,
        (Spliced.inSlot kind shape notes found spliced).width_add hold well well'⟩
    | cons first q =>
      obtain ⟨rfl, hinside⟩ := List.cons_prefix_cons.1 hq
      rw [at?_node_cons, found, Option.bind_some] at hold hpart
      obtain ⟨part', hfound, hpart'⟩ := ih hold (well.inSlot found) (well'.of_set found) hinside
        hpart
      refine ⟨part', ?_, hpart'⟩
      rwa [at?_node_cons, slot_set found, Option.bind_some]

end Element

end LosslessSyntax.Green
