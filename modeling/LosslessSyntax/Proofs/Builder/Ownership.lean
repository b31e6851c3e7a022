import LosslessSyntax.Proofs.Builder.Marks

/-!
# Who has which child

The open entries begin one within the other, so they cut the row into stretches: the innermost entry
has what follows its beginning, each other one has what is between its beginning and that of the next
one inside, and what is before them all belongs to no entry. Closing an entry takes its stretch off the
row, which is possible just if the row goes up to where the entry begins.

* `Builder.stretches`, `Builder.Owns`: the stretches of a row, and the children in them;
* **`Builder.Nested.exists_owner`**: every child is in one stretch, and in no other;
* `Builder.splitOff?`, `Builder.Event.stepChecked?`: events that take no more off the row than it has;
* **`Builder.Event.stepChecked?_eq`**: among nested entries this is never too much.
-/

namespace LosslessSyntax.Builder

open Green

/-! ## Stretches of the row -/

/-- Where the children of each open entry begin and end, the innermost first, if those inside of them
begin at `stop`; the children that belong to no entry come last. -/
def stretches (stop : Nat) : List Entry → List (Nat × Nat)
  | [] => [(0, stop)]
  | entry :: outer => (entry.first, stop) :: stretches entry.first outer

/-- The child at a place belongs to the open entry of a number, counted from the innermost one on; if
there are only as many entries, it belongs to none. -/
def Owns (builder : Builder) (level place : Nat) : Prop :=
  ∃ first stop, (stretches builder.mark builder.opened)[level]? = some (first, stop) ∧
    first ≤ place ∧ place < stop

section

variable {opened : List Entry} {stop : Nat}

theorem stretches_le (sorted : opened.Pairwise fun inner outer => outer.first ≤ inner.first)
    (inside : ∀ entry ∈ opened, entry.first ≤ stop) {stretch : Nat × Nat}
    (h : stretch ∈ stretches stop opened) : stretch.2 ≤ stop := by
  induction opened generalizing stop with
  | nil =>
    rw [stretches, List.mem_singleton] at h
    rw [h]
  | cons entry outer ih =>
    obtain ⟨houter, hsorted⟩ := List.pairwise_cons.1 sorted
    rcases List.mem_cons.1 h with rfl | hrest
    · exact Nat.le_refl _
    · exact (ih hsorted houter hrest).trans (inside entry List.mem_cons_self)

theorem existsUnique_stretch
    (sorted : opened.Pairwise fun inner outer => outer.first ≤ inner.first)
    (inside : ∀ entry ∈ opened, entry.first ≤ stop) {place : Nat} (hplace : place < stop) :
    ∃! level : Nat, ∃ first last, (stretches stop opened)[level]? = some (first, last) ∧
      first ≤ place ∧ place < last := by
  induction opened generalizing stop with
  | nil =>
    refine ⟨0, ⟨0, stop, rfl, Nat.zero_le _, hplace⟩, ?_⟩
    rintro level ⟨first, last, hlevel, -⟩
    cases level with
    | zero => rfl
    | succ level => simp [stretches] at hlevel
  | cons entry outer ih =>
    obtain ⟨houter, hsorted⟩ := List.pairwise_cons.1 sorted
    by_cases hentry : entry.first ≤ place
    · -- it belongs to the innermost entry, for the stretches of the others end where this one begins
      refine ⟨0, ⟨entry.first, stop, rfl, hentry, hplace⟩, ?_⟩
      rintro level ⟨first, last, hlevel, -, hlast⟩
      cases level with
      | zero => rfl
      | succ level =>
        have hle := stretches_le hsorted houter (List.mem_of_getElem? hlevel)
        dsimp only at hle
        omega
    · obtain ⟨level, hlevel, hunique⟩ := ih hsorted houter (Nat.lt_of_not_le hentry)
      refine ⟨level + 1, hlevel, ?_⟩
      rintro other ⟨first, last, hother, hfirst, hlast⟩
      cases other with
      | zero =>
        cases hother
        exact absurd hfirst hentry
      | succ other => rw [hunique other ⟨first, last, hother, hfirst, hlast⟩]

end

variable {builder : Builder}

/-- **Every child belongs to one open entry or to none**, and it is never in doubt to which. -/
theorem Nested.exists_owner (h : builder.Nested) {place : Nat} (hplace : place < builder.mark) :
    ∃! level : Nat, builder.Owns level place :=
  existsUnique_stretch h.sorted h.inside hplace

/-! ## Events with checks -/

/-- The children before a place, and those from it on; refused if the row does not go up to there. -/
def splitOff? (row : Array Element) (first : Nat) : Option (Array Element × Array Element) :=
  if first ≤ row.size then some (row.take first, row.extract first row.size) else none

theorem splitOff?_eq {row : Array Element} {first : Nat} (h : first ≤ row.size) :
    splitOff? row first = some (row.take first, row.extract first row.size) := if_pos h

/-- The shape of an entry that is closed, or why it has none; the children of a list are looked at. -/
def Layout.shapeChecked? (layout : Layout) (entry : Entry) (row : Array Element) :
    Option (Except BuildError Shape) :=
  match layout with
  | node => some (if entry.kind.isList then .error (.listKind entry.kind) else .ok .plain)
  | list => do
    let (_, slots) ← splitOff? row entry.first
    return (listShapeOf entry.kind slots).map .list

namespace Event

/-- An entry is wrapped, if the row goes up to where it begins. -/
def wrappedChecked? (builder : Builder) (opened : List Entry) (entry : Entry) (shape : Shape) :
    Option (Answer × Builder) := do
  let (outside, slots) ← splitOff? builder.children entry.first
  match builder.interner.node entry.kind shape slots builder.supply with
  | .ok (node, interner) supply =>
    return (.ok none, ⟨supply, interner, opened, outside.push node.toElement⟩)
  | .error failure supply => return (.error failure, ⟨supply, builder.interner, opened, outside⟩)

/-- The innermost entry is closed, if the row goes up to where it begins. -/
def closeChecked? (layout : Layout) (builder : Builder) : Option (Answer × Builder) :=
  match builder.opened with
  | [] => some (.error (.violated .nothingOpen), builder)
  | entry :: opened =>
    if entry.layout = layout then do
      match ← layout.shapeChecked? entry builder.children with
      | .error error =>
        return (.error (.rejected error), { builder with opened := [], children := #[] })
      | .ok shape => wrappedChecked? builder opened entry shape
    else some (.error (.violated layout.mismatch), { builder with opened })

/-- The answer to an event, and the builder after it, if no more is taken off the row than it has. -/
def stepChecked? : Event → Builder → Option (Answer × Builder)
  | closeNode, builder => closeChecked? .node builder
  | closeList, builder => closeChecked? .list builder
  | event, builder => some (event.step builder)

theorem shapeChecked?_eq {entry : Entry} {row : Array Element} (h : entry.first ≤ row.size)
    (layout : Layout) : layout.shapeChecked? entry row =
      some (layout.shapeOf entry.kind (row.extract entry.first row.size)) := by
  cases layout with
  | node => rfl
  | list =>
    rw [Layout.shapeChecked?, splitOff?_eq h]
    rfl

theorem wrappedChecked?_eq {entry : Entry} (h : entry.first ≤ builder.children.size)
    (opened : List Entry) (shape : Shape) :
    wrappedChecked? builder opened entry shape = some (wrapped builder opened entry shape) := by
  unfold wrappedChecked? wrapped
  rw [splitOff?_eq h]
  dsimp only [bind, Option.bind]
  cases builder.interner.node entry.kind shape
    (builder.children.extract entry.first builder.children.size) builder.supply <;> rfl

theorem closeChecked?_eq (h : builder.Nested) (layout : Layout) :
    closeChecked? layout builder = some (layout.close.step builder) := by
  rw [step_close]
  unfold closeChecked?
  cases hopened : builder.opened with
  | nil => rfl
  | cons entry opened =>
    have hfirst : entry.first ≤ builder.children.size := by
      apply h.inside
      rw [hopened]
      exact List.mem_cons_self
    dsimp only
    by_cases hlayout : entry.layout = layout
    · rw [if_pos hlayout, if_pos hlayout, shapeChecked?_eq hfirst]
      dsimp only [bind, Option.bind]
      cases layout.shapeOf entry.kind
          (builder.children.extract entry.first builder.children.size) with
      | error error => rfl
      | ok shape => exact wrappedChecked?_eq hfirst opened shape
    · rw [if_neg hlayout, if_neg hlayout]

/-- **No more is ever taken off the row than it has**, if the open entries are nested. -/
theorem stepChecked?_eq (h : builder.Nested) (event : Event) :
    event.stepChecked? builder = some (event.step builder) := by
  cases event with
  | closeNode => exact closeChecked?_eq h .node
  | closeList => exact closeChecked?_eq h .list
  | _ => rfl

end Event

end LosslessSyntax.Builder
