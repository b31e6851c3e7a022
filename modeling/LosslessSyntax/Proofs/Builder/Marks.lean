import LosslessSyntax.Proofs.Builder.Event

/-!
# Marks

A mark is a place in the row, and a builder compares it with two numbers only: the length of the row,
and the place where the innermost entry begins. Open entries begin one within the other, so a node is
opened at a mark just if all of them begin there or before. As long as no entry of the time of the mark
was closed, these are the entries of that time and such as begin at the mark itself. What is not noticed
is an entry at the mark that is still open, and an entry that begins up to the mark and was closed: the
mark may be stale.

* `Builder.Nested`: open entries begin one within the other, and within the row;
* **`Builder.Event.step_nested`**, `Builder.run_nested`: so it is after all events;
* `Builder.Event.Spares`, `Builder.Spared`: events that leave alone what was open, and what is before a
  place;
* **`Builder.openNodeAt_returns`**: when a node is opened at a mark;
* **`Builder.openNodeAt_stale`**: a mark in an entry that was closed.
-/

namespace LosslessSyntax.Builder

/-- Open entries begin one within the other, and within the row. -/
structure Nested (builder : Builder) : Prop where
  sorted : builder.opened.Pairwise fun inner outer => outer.first ≤ inner.first
  inside : ∀ entry ∈ builder.opened, entry.first ≤ builder.mark

theorem nested_start (supply : Nat) (interner : Interner) : (start supply interner).Nested :=
  ⟨List.Pairwise.nil, fun _ h => absurd h List.not_mem_nil⟩

section

variable {builder : Builder}

/-- All that is needed of a place is that it is not before the innermost entry. -/
theorem Nested.begins_iff (h : builder.Nested) {place : Nat} :
    builder.opened.head?.any (place < ·.first) = false ↔
      ∀ entry ∈ builder.opened, entry.first ≤ place := by
  obtain ⟨hsorted, -⟩ := h
  cases hopened : builder.opened with
  | nil => simp
  | cons inner outer =>
    rw [hopened] at hsorted
    have houter := (List.pairwise_cons.1 hsorted).1
    simp only [List.head?_cons, Option.any_some, decide_eq_false_iff_not, Nat.not_lt,
      List.forall_mem_cons]
    exact ⟨fun hle => ⟨hle, fun entry hmem => (houter entry hmem).trans hle⟩, And.left⟩

namespace Event

theorem nested_closed {supply : Nat} {interner : Interner} {entry : Entry} {opened : List Entry}
    {row : Array Green.Element} (h : builder.Nested) (hopened : builder.opened = entry :: opened)
    (hrow : entry.first ≤ row.size) : Nested ⟨supply, interner, opened, row⟩ := by
  obtain ⟨hsorted, -⟩ := h
  rw [hopened, List.pairwise_cons] at hsorted
  exact ⟨hsorted.2, fun outer hmem => (hsorted.1 outer hmem).trans hrow⟩

theorem nested_grown {supply : Nat} {interner : Interner} {row : Array Green.Element}
    (h : builder.Nested) (hrow : builder.mark ≤ row.size) :
    Nested ⟨supply, interner, builder.opened, row⟩ :=
  ⟨h.sorted, fun entry hmem => (h.inside entry hmem).trans hrow⟩

theorem nested_opened (h : builder.Nested) {entry : Entry} (hmark : entry.first ≤ builder.mark)
    (hbegins : ∀ outer ∈ builder.opened, outer.first ≤ entry.first) :
    Nested { builder with opened := entry :: builder.opened } :=
  ⟨List.pairwise_cons.2 ⟨hbegins, h.sorted⟩, List.forall_mem_cons.2 ⟨hmark, h.inside⟩⟩

theorem tokened_nested (h : builder.Nested) (request : Green.Make (Green.Token × Interner)) :
    (tokened builder request).2.Nested := by
  unfold tokened
  cases request builder.supply with
  | ok result next => exact nested_grown h (by simp [Builder.mark])
  | error failure next => exact nested_grown h (Nat.le_refl _)

theorem close_nested (h : builder.Nested) (layout : Layout) :
    (layout.close.step builder).2.Nested := by
  rw [step_close]
  cases hopened : builder.opened with
  | nil => exact h
  | cons entry opened =>
    have hfirst : entry.first ≤ builder.children.size := h.inside entry (hopened ▸ List.mem_cons_self)
    dsimp only
    split_ifs
    · split
      · exact ⟨List.Pairwise.nil, fun _ hmem => absurd hmem List.not_mem_nil⟩
      · -- the row is cut where the entry begins, whether its node can be made or not
        unfold wrapped
        dsimp only
        split
        · exact nested_closed h hopened (by simp; omega)
        · exact nested_closed h hopened (by simp; omega)
    · exact nested_closed h hopened hfirst

/-- **Every event leaves open entries nested**, whether it fails or not. -/
theorem step_nested (h : builder.Nested) (event : Event) : (event.step builder).2.Nested := by
  cases event with
  | openNode kind | openList kind => exact nested_opened h (Nat.le_refl _) h.inside
  | openNodeAt place kind =>
    rw [step_openNodeAt]
    split_ifs with hrow hfirst
    · exact h
    · exact h
    · exact nested_opened h (Nat.le_of_not_lt hrow) (h.begins_iff.1 (Bool.eq_false_iff.2 hfirst))
  | closeNode => exact close_nested h .node
  | closeList => exact close_nested h .list
  | token kind text =>
    rw [step_token, step_triviaToken]
    exact tokened_nested h _
  | triviaToken leading kind text trailing =>
    rw [step_triviaToken]
    exact tokened_nested h _
  | subtree node => exact nested_grown h (by simp [Builder.mark])
  | mark => exact h

end Event

theorem run_nested (h : builder.Nested) (events : List Event) : (builder.run events).2.Nested := by
  induction events generalizing builder with
  | nil => exact h
  | cons event events ih => exact ih (Event.step_nested h event)

/-! ## What begins from a place on -/

/-- An event closes none of the outermost entries, `depth` of them, and opens none before a place. -/
def Event.Spares (place depth : Nat) (builder : Builder) : Event → Prop
  | openNodeAt there _ => place ≤ there
  | closeNode => depth < builder.opened.length
  | closeList => depth < builder.opened.length
  | _ => True

/-- So do all of a row of events. -/
def Spared (place depth : Nat) (builder : Builder) : List Event → Prop
  | [] => True
  | event :: events =>
    event.Spares place depth builder ∧ Spared place depth (event.step builder).2 events

/-- The row goes at least up to a place; some entries that are held are open, and within them only
entries that begin from the place on. -/
structure Beyond (place : Nat) (held : List Entry) (builder : Builder) : Prop where
  row : place ≤ builder.mark
  opened : ∃ inner, builder.opened = inner ++ held ∧ ∀ entry ∈ inner, place ≤ entry.first

variable {place : Nat} {held : List Entry}

theorem Beyond.grown {supply : Nat} {interner : Interner} {row : Array Green.Element}
    (h : builder.Beyond place held) (hrow : builder.mark ≤ row.size) :
    Beyond place held ⟨supply, interner, builder.opened, row⟩ :=
  ⟨h.row.trans hrow, h.opened⟩

theorem Beyond.entered (h : builder.Beyond place held) {entry : Entry} (hfirst : place ≤ entry.first) :
    Beyond place held { builder with opened := entry :: builder.opened } := by
  obtain ⟨hrow, inner, hopened, hinner⟩ := h
  exact ⟨hrow, entry :: inner, by simp [hopened], List.forall_mem_cons.2 ⟨hfirst, hinner⟩⟩

theorem Beyond.tokened (h : builder.Beyond place held)
    (request : Green.Make (Green.Token × Interner)) :
    (Event.tokened builder request).2.Beyond place held := by
  unfold Event.tokened
  cases request builder.supply with
  | ok result next => exact h.grown (by simp [mark])
  | error failure next => exact h.grown (Nat.le_refl _)

theorem Beyond.close (h : builder.Beyond place held) (layout : Layout)
    (spares : held.length < builder.opened.length) {told : Option Nat}
    (fine : (layout.close.step builder).1 = .ok told) :
    (layout.close.step builder).2.Beyond place held := by
  rw [Event.step_close] at fine ⊢
  obtain ⟨hrow, inner, hopened, hinner⟩ := h
  cases inner with
  | nil =>
    rw [hopened] at spares
    exact absurd spares (Nat.lt_irrefl _)
  | cons entry inner =>
    obtain ⟨hfirst, hrest⟩ := List.forall_mem_cons.1 hinner
    rw [hopened] at fine ⊢
    simp only [List.cons_append] at fine ⊢
    split_ifs at fine ⊢ with hlayout
    · split at fine
      · cases fine
      · unfold Event.wrapped at fine ⊢
        dsimp only at fine ⊢
        split at fine
        · refine ⟨?_, inner, rfl, hrest⟩
          simp only [mark] at hrow ⊢
          simp
          omega
        · cases fine

/-- **What is held stays open, and nothing is opened before the place.** -/
theorem Beyond.step (h : builder.Beyond place held) {event : Event}
    (spares : event.Spares place held.length builder) {told : Option Nat}
    (fine : (event.step builder).1 = .ok told) : (event.step builder).2.Beyond place held := by
  cases event with
  | openNode kind | openList kind => exact h.entered h.row
  | openNodeAt there kind =>
    rw [Event.step_openNodeAt] at fine ⊢
    split_ifs at fine ⊢
    exact h.entered spares
  | closeNode => exact h.close .node spares fine
  | closeList => exact h.close .list spares fine
  | token kind text =>
    rw [Event.step_token, Event.step_triviaToken]
    exact h.tokened _
  | triviaToken leading kind text trailing =>
    rw [Event.step_triviaToken]
    exact h.tokened _
  | subtree node => exact h.grown (by simp [mark])
  | mark => exact h

theorem Beyond.run (h : builder.Beyond place held) {events : List Event}
    (spared : Spared place held.length builder events)
    (fine : ∀ answer ∈ (builder.run events).1, ∃ told, answer = .ok told) :
    (builder.run events).2.Beyond place held := by
  induction events generalizing builder with
  | nil => exact h
  | cons event events ih =>
    obtain ⟨hspares, hspared⟩ := spared
    obtain ⟨⟨told, hfirst⟩, hrest⟩ := List.forall_mem_cons.1 fine
    exact ih (h.step hspares hfirst) hspared hrest

end

/-! ## Nodes at marks -/

/-- **When a node is opened at a mark.** The row has to go up to the mark, and all open entries have to
begin there or before. If since the time of the mark nothing has failed, no entry that was open then was
closed and none was opened before the mark, then just those count that were opened since and still are:
all of them have to begin at the mark. So where none does, the innermost entry has to be that of the
time of the mark. -/
theorem openNodeAt_returns {supply : Nat} {interner : Interner} {before since : List Event}
    (fine : ∀ answer ∈ (((start supply interner).run before).2.run since).1,
      ∃ told, answer = .ok told) (kind : Kind) :
    let marked := ((start supply interner).run before).2
    let now := (marked.run since).2
    let returns := ((Event.openNodeAt marked.mark kind).step now).1 = .ok none
    (returns ↔ marked.mark ≤ now.mark ∧ ∀ entry ∈ now.opened, entry.first ≤ marked.mark) ∧
    (Spared marked.mark marked.opened.length marked since →
      ∃ inner, now.opened = inner ++ marked.opened ∧
        (returns ↔ ∀ entry ∈ inner, entry.first = marked.mark) ∧
        ((∀ entry ∈ inner, entry.first ≠ marked.mark) →
          (returns ↔ now.opened = marked.opened))) := by
  intro marked now returns
  have hmarked : marked.Nested := run_nested (nested_start supply interner) before
  have hnow : now.Nested := run_nested hmarked since
  have hreturns : returns ↔
      marked.mark ≤ now.mark ∧ ∀ entry ∈ now.opened, entry.first ≤ marked.mark := by
    unfold returns
    rw [Event.step_openNodeAt, ← hnow.begins_iff]
    split_ifs with hrow hfirst
    · exact iff_of_false nofun fun h => absurd hrow (Nat.not_lt.2 h.1)
    · exact iff_of_false nofun fun h => absurd hfirst (Bool.eq_false_iff.1 h.2)
    · exact iff_of_true rfl ⟨Nat.le_of_not_lt hrow, Bool.eq_false_iff.2 hfirst⟩
  refine ⟨hreturns, fun spared => ?_⟩
  -- what was open at the mark still is, and the rest begins from the mark on
  obtain ⟨hrow, inner, hopened, hinner⟩ : now.Beyond marked.mark marked.opened :=
    Beyond.run ⟨Nat.le_refl _, [], rfl, nofun⟩ spared fine
  have hbegins : returns ↔ ∀ entry ∈ inner, entry.first = marked.mark := by
    rw [hreturns, hopened]
    constructor
    · rintro ⟨-, hall⟩ entry hmem
      exact Nat.le_antisymm (hall entry (List.mem_append_left _ hmem)) (hinner entry hmem)
    · intro hall
      refine ⟨hrow, fun entry hmem => ?_⟩
      rcases List.mem_append.1 hmem with hmem | hmem
      · exact Nat.le_of_eq (hall entry hmem)
      · exact hmarked.inside entry hmem
  refine ⟨inner, hopened, hbegins, fun hapart => ?_⟩
  rw [hbegins, hopened, List.append_left_eq_self]
  constructor
  · intro hall
    exact List.eq_nil_iff_forall_not_mem.2 fun entry hmem => hapart entry hmem (hall entry hmem)
  · rintro rfl
    exact nofun

/-- A reference that begins at the mark is complete when a node is opened there. -/
theorem openNodeAt_returns_name :
    let marked := ((start 0 (.empty .plain)).run [.openNode .exprStmt]).2
    let now := (marked.run [.openNode .nameRef, .token .name "x", .closeNode]).2
    ((Event.openNodeAt marked.mark .binaryExpr).step now).1 = .ok none ∧
      now.opened = marked.opened := by
  have hanswers : (((start 0 (.empty .plain)).run [.openNode .exprStmt]).2.run
      [.openNode .nameRef, .token .name "x", .closeNode]).1 = [.ok none, .ok none, .ok none] := rfl
  have hfine : ∀ answer ∈ (((start 0 (.empty .plain)).run [.openNode .exprStmt]).2.run
      [.openNode .nameRef, .token .name "x", .closeNode]).1, ∃ told, answer = .ok told := by
    rw [hanswers]
    simp
  -- the statement stays open, and the reference is within it
  have hspared : Spared 0 1 ((start 0 (.empty .plain)).run [.openNode .exprStmt]).2
      [.openNode .nameRef, .token .name "x", .closeNode] :=
    ⟨trivial, trivial, Nat.lt_succ_self 1, trivial⟩
  obtain ⟨inner, hopened, hreturns, -⟩ := (openNodeAt_returns hfine .binaryExpr).2 hspared
  obtain rfl : inner = [] := List.append_left_eq_self.1 hopened.symm
  exact ⟨hreturns.2 nofun, hopened⟩

/-- A mark in an entry that was closed since is not refused: the entry begins at the mark, and the node
that it has become goes beyond it. -/
theorem openNodeAt_stale :
    let marked := ((start 0 (.empty .plain)).run [.openNode .parenExpr]).2
    let now := (marked.run [.closeNode]).2
    (marked.run [.closeNode]).1 = [.ok none] ∧
      ((Event.openNodeAt marked.mark .exprStmt).step now).1 = .ok none ∧
      marked.opened.head? = some ⟨.node, .parenExpr, 0⟩ ∧ now.opened.head? = none :=
  ⟨rfl, rfl, rfl, rfl⟩

end LosslessSyntax.Builder
