import LosslessSyntax.Proofs.Builder.Ownership
import LosslessSyntax.Proofs.Session

/-!
# Open entries in all sessions

A parser may close what was never opened, open nodes at marks of long ago or of another builder, and go
on after each failure as if nothing had happened. Whatever it does, the entries that are open begin one
within the other and within the row.

* `Builder.Lasting`, `Builder.nested_lasting`: what stays so of a builder, whatever it is told;
* **`Session.Step.builders`**, `Session.Reachable.builders`: it is so of all builders in all sessions;
* `Session.Reachable.exists_run`: a builder that is held may be told any row of events;
* **`Session.builders_nested`**: no builder takes more off its row than there is, and every child
  belongs to one open entry or to none.
-/

namespace LosslessSyntax

/-- A property of a new builder that no event takes away, whether it fails or not, and that does not
depend on the next free identity. -/
structure Builder.Lasting (property : Builder → Prop) : Prop where
  start : ∀ supply interner, property (start supply interner)
  supply : ∀ builder supply, property builder → property { builder with supply }
  step : ∀ builder (event : Event), property builder → property (event.step builder).2

theorem Builder.nested_lasting : Lasting Nested where
  start := nested_start
  supply _ _ h := ⟨h.sorted, h.inside⟩
  step _ event h := Event.step_nested h event

namespace Session

section

variable {property : Builder → Prop} {s t : Session} {before after : List Builder}
  {builder : Builder}

theorem builders_makes {α : Type} (computation : Green.Make α) (toElement : α → Green.Element) :
    (s.makes computation toElement).builders = s.builders := by
  unfold Session.makes
  cases computation s.supply <;> rfl

theorem builders_interns (before after : List Interner)
    (request : Green.Make (Green.Token × Interner)) :
    (s.interns before after request).builders = s.builders := by
  unfold Session.interns
  cases request s.supply <;> rfl

/-- **Whatever a caller does next, what lasts stays so of all builders.** -/
theorem Step.builders (lasting : Builder.Lasting property)
    (h : ∀ builder ∈ s.builders, property builder) (next : Step s t) :
    ∀ builder ∈ t.builders, property builder := by
  cases next with
  | token | node =>
    rw [builders_makes]
    exact h
  | slot | interner => exact h
  | intern =>
    rw [builders_interns]
    exact h
  | build held =>
    intro builder hbuilder
    rcases List.mem_cons.1 hbuilder with rfl | hrest
    · exact lasting.start s.supply _
    · exact h builder hrest
  | event held offered =>
    intro builder hbuilder
    rcases List.mem_cons.1 (List.perm_middle.mem_iff.1 hbuilder) with rfl | hrest
    · have htold := h _ (held ▸ List.mem_append_cons_self)
      exact lasting.step _ _ (lasting.supply _ _ htold)
    · exact h builder (mem_of_mem_rest held hrest)
  | finish held | giveUp held =>
    intro builder hbuilder
    exact h builder (mem_of_mem_rest held hbuilder)

theorem Reachable.builders (lasting : Builder.Lasting property) (reached : s.Reachable) :
    ∀ builder ∈ s.builders, property builder := by
  induction reached with
  | start =>
    intro builder hbuilder
    exact absurd hbuilder List.not_mem_nil
  | step reached next ih => exact next.builders lasting ih

/-- **Open entries are nested, whatever has failed.** In every builder that a caller holds, the open
entries begin one within the other and within the row. So whatever event comes next, with whatever
mark, it takes no more off the row than there is; and every child of the row belongs to one open entry
or to none, and to no other. -/
theorem builders_nested (reached : s.Reachable) (held : builder ∈ s.builders) :
    builder.opened.Pairwise (fun inner outer => outer.first ≤ inner.first) ∧
    (∀ entry ∈ builder.opened, entry.first ≤ builder.children.size) ∧
    (∀ (event : Builder.Event) (supply : Nat),
      event.stepChecked? { builder with supply } = some (event.step { builder with supply })) ∧
    ∀ place < builder.children.size, ∃! level : Nat, builder.Owns level place := by
  have h : builder.Nested := reached.builders Builder.nested_lasting builder held
  refine ⟨h.sorted, h.inside, fun event supply => ?_, fun place hplace => h.exists_owner hplace⟩
  exact Builder.Event.stepChecked?_eq (Builder.nested_lasting.supply _ _ h) event

/-- A builder that is held may be told any row of events that needs no subtree. -/
theorem Reachable.exists_run (reached : s.Reachable) (held : s.builders = before ++ builder :: after)
    (same : builder.supply = s.supply) (events : List Builder.Event)
    (offered : ∀ event ∈ events, event.Offered ∅) :
    ∃ t : Session, t.Reachable ∧ (builder.run events).2 ∈ t.builders := by
  induction events generalizing s builder with
  | nil => exact ⟨s, reached, held ▸ List.mem_append_cons_self⟩
  | cons event events ih =>
    obtain ⟨hfirst, hrest⟩ := List.forall_mem_cons.1 offered
    have next := reached.step (.event held (hfirst.mono (Set.empty_subset _)))
    have hsupply : { builder with supply := s.supply } = builder := by rw [← same]
    have hbuilders : (s.hears before after builder event).builders =
        before ++ (event.step builder).2 :: after :=
      congrArg (fun builder => before ++ (event.step builder).2 :: after) hsupply
    have hnext : (event.step builder).2.supply = (s.hears before after builder event).supply :=
      congrArg (fun builder => (event.step builder).2.supply) hsupply.symm
    exact ih next hbuilders hnext hrest

end

/-- In a block a mark beyond the row is refused, and an attempt to close a list loses the call that is
open. After that a statement is opened around the second name, which belongs to one entry only; and one
more attempt to close a list takes no more off the row than there is. -/
theorem builders_nested_statement : ∃ (s : Session) (builder : Builder), s.Reachable ∧
    builder ∈ s.builders ∧ builder.opened = [⟨.node, .exprStmt, 1⟩, ⟨.node, .block, 0⟩] ∧
    builder.children.size = 2 ∧ (∃! level : Nat, builder.Owns level 1) ∧
    Builder.Event.closeList.stepChecked? builder = some (Builder.Event.closeList.step builder) := by
  let events : List Builder.Event := [.openNode .block, .token .name "x", .openNodeAt 3 .callExpr,
    .openNode .callExpr, .token .name "y", .closeList, .openNodeAt 1 .exprStmt]
  have h1 := Reachable.step .start (.interner .plain)
  have h2 : Reachable ⟨0, [], [], [.start 0 (.empty .plain)]⟩ :=
    .step h1 (@Step.build _ [] [] (.empty .plain) rfl)
  have hbuilder : [Builder.start 0 (.empty .plain)] = [] ++ Builder.start 0 (.empty .plain) :: [] := rfl
  have hoffered : ∀ event ∈ events, event.Offered ∅ := by
    simp [events, Builder.Event.Offered]
  obtain ⟨s, reached, held⟩ := h2.exists_run hbuilder rfl events hoffered
  obtain ⟨-, -, hchecked, howner⟩ := builders_nested reached held
  exact ⟨s, _, reached, held, rfl, rfl, howner 1 (by decide), hchecked .closeList _⟩

end Session

end LosslessSyntax
