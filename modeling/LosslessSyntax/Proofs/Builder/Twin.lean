import LosslessSyntax.Proofs.Builder.Nest
import LosslessSyntax.Proofs.Green.Equality

/-!
# Two builders that hear the same

What an interner kept before is seen in nothing but identities. Two builders that hear the same events
give the same answers, whatever is in their interners, and build equal trees; and what the caller
gave as a finished subtree is the very same part of both.

* `Nest.Given`: the parts that the caller gave, and where they come to stand;
* `Session.Reachable.run_flattens`: a builder in a session has the row and the marks of a nest;
* **`Session.interning_unseen`**: two builders.
-/

namespace LosslessSyntax

open Green
open Builder (Event)

/-- A part that stands at a path of the tree that the events make, and that the caller gave with a
finished subtree: a nest makes everything else anew, so all that is older than it was given. -/
def Nest.Given (supply : Nat) (events : List Event) (path : List Nat) (part : Element) : Prop :=
  ∃ root, ((Nest.start supply).run events).2.finish = .ok root ∧
    root.toElement.at? path = some part ∧ part.id < supply

namespace Session

/-- A builder gives the answers of a nest, and has the row and the marks of it in the end. -/
theorem Reachable.run_flattens {s : Session} (reached : s.Reachable) {interner : Interner}
    (held : interner ∈ s.interners) {events : List Event}
    (offered : ∀ event ∈ events, event.Offered {e | e ∈ s.parts}) (supply : Nat) :
    ((Builder.start s.supply interner).run events).1 = ((Nest.start supply).run events).1 ∧
      Builder.Flattens supply ((Builder.start s.supply interner).run events).2
        ((Nest.start supply).run events).2 := by
  obtain ⟨parts, h⟩ := reached.exists_stock
  have hb : Builder.InStock parts (Builder.start s.supply interner) :=
    ⟨h.stock, h.interners interner held, fun e he => absurd he (Array.not_mem_empty e)⟩
  exact (Builder.Flattens.start s.supply supply interner).run hb events fun event hevent =>
    (offered event hevent).mono h.held

/-- **What is in an interner is seen in nothing but identities.** The two interners may be any that
callers can have, and the subtrees are parts that both callers hold. -/
theorem interning_unseen {s t : Session} (reached : s.Reachable) (reached' : t.Reachable)
    {interner interner' : Interner} (held : interner ∈ s.interners)
    (held' : interner' ∈ t.interners) (events : List Event)
    (offered : ∀ event ∈ events, event.Offered {e | e ∈ s.parts})
    (offered' : ∀ event ∈ events, event.Offered {e | e ∈ t.parts}) :
    let one := (Builder.start s.supply interner).run events
    let other := (Builder.start t.supply interner').run events
    one.1 = other.1 ∧
    match one.2.finish, other.2.finish with
    | .ok root _, .ok root' _ => root.toElement.equal root'.toElement = true ∧
      ∀ path part, Nest.Given (max s.supply t.supply) events path part →
        root.toElement.at? path = some part ∧ root'.toElement.at? path = some part
    | .error failure _, .error failure' _ => failure = failure'
    | _, _ => False := by
  obtain ⟨hanswers, hflat⟩ := reached.run_flattens held offered (max s.supply t.supply)
  obtain ⟨hanswers', hflat'⟩ := reached'.run_flattens held' offered' (max s.supply t.supply)
  refine ⟨hanswers.trans hanswers'.symm, ?_⟩
  -- both roots are compared with the one of the nest
  have hcopies := hflat.finish_copies
  have hcopies' := hflat'.finish_copies
  generalize ((Builder.start s.supply interner).run events).2.finish = one at hcopies ⊢
  generalize ((Builder.start t.supply interner').run events).2.finish = other at hcopies' ⊢
  cases hnested : ((Nest.start (max s.supply t.supply)).run events).2.finish with
  | ok plan =>
    rw [hnested] at hcopies hcopies'
    cases one with
    | error failure done => exact hcopies.elim
    | ok root done =>
      cases other with
      | error failure done' => exact hcopies'.elim
      | ok root' done' =>
        refine ⟨Element.Alike.equal (hcopies.alike.trans hcopies'.alike.symm), ?_⟩
        rintro path part ⟨plan', hplan, hpart, hold⟩
        rw [hnested] at hplan
        cases hplan
        exact ⟨hcopies.older path part hpart hold, hcopies'.older path part hpart hold⟩
  | error failure =>
    rw [hnested] at hcopies hcopies'
    cases one with
    | ok root done => exact hcopies.elim
    | error failure' done =>
      cases other with
      | ok root done' => exact hcopies'.elim
      | error failure'' done' => exact hcopies.trans hcopies'.symm

/-- A block of a name and a reference to another one. -/
def seenBlock : List Event := [.openNode .block, .token .name "y", .subtree seenRef, .closeNode]

/-- One interner is new and the other one keeps a name; the same reference is given to both builders,
after that name. -/
theorem interning_unseen_reference : ∃ (s t : Session) (interner interner' : Interner) (ref : Node),
    s.Reachable ∧ t.Reachable ∧ interner ∈ s.interners ∧ interner' ∈ t.interners ∧
    interner.tokens.size = 0 ∧ interner'.tokens.size = 1 ∧
    let events : List Event := [.openNode .block, .token .name "y", .subtree ref, .closeNode]
    ∃ root done root' done', ((Builder.start s.supply interner).run events).2.finish = .ok root done ∧
      ((Builder.start t.supply interner').run events).2.finish = .ok root' done' ∧
      root.toElement.equal root'.toElement = true ∧
      root.toElement.at? [1] = some ref.toElement ∧ root'.toElement.at? [1] = some ref.toElement := by
  let y : Token := ⟨2, .name, .none, "y", .none, by decide, by decide, by decide⟩
  let keeping : Interner := (Interner.empty .plain).withToken y
    (Interner.tokenHash .plain .none .name "y" .none)
  have hnew : Reachable ⟨2, [seenRef.toElement, .token seen], [.empty .plain], []⟩ :=
    .step seenRef_reachable (.interner .plain)
  have hempty : ([.empty .plain] : List Interner) = [] ++ .empty .plain :: [] := rfl
  have hkeep := Step.intern (s := ⟨2, [seenRef.toElement, .token seen], [.empty .plain], []⟩) hempty
    .none .name "y" .none
  have hkept : Reachable ⟨3, [.token y, seenRef.toElement, .token seen], [keeping], []⟩ := .step hnew hkeep
  have offered : ∀ event ∈ seenBlock,
      event.Offered {e | e ∈ [seenRef.toElement, .token seen]} := by
    simp [seenBlock, Event.Offered]
  have offered' : ∀ event ∈ seenBlock,
      event.Offered {e | e ∈ [.token y, seenRef.toElement, .token seen]} := by
    simp [seenBlock, Event.Offered]
  obtain ⟨-, hfinish⟩ :=
    interning_unseen hnew hkept List.mem_cons_self List.mem_cons_self seenBlock offered offered'
  obtain ⟨plan, hplan, hgiven⟩ : ∃ plan, ((Nest.start 3).run seenBlock).2.finish = .ok plan ∧
    plan.slots[1]? = some seenRef.toElement := ⟨_, rfl, rfl⟩
  obtain ⟨root, done, hroot⟩ : ∃ root done,
    ((Builder.start 2 (.empty .plain)).run seenBlock).2.finish = .ok root done := ⟨_, _, rfl⟩
  -- the other builder is as successful
  obtain ⟨root', done', hroot'⟩ : ∃ root done,
      ((Builder.start 3 keeping).run seenBlock).2.finish = .ok root done := by
    rw [hroot] at hfinish
    cases hfinished : ((Builder.start 3 keeping).run seenBlock).2.finish with
    | ok root' done' => exact ⟨root', done', rfl⟩
    | error failure done' =>
      rw [hfinished] at hfinish
      exact hfinish.elim
  rw [hroot, hroot'] at hfinish
  have hat : plan.toElement.at? [1] = some seenRef.toElement := by
    rw [Node.toElement, Element.at?_node_cons, hgiven]
    exact Element.at?_nil _
  obtain ⟨hone, hother⟩ := hfinish.2 [1] seenRef.toElement ⟨plan, hplan, hat, by decide⟩
  exact ⟨_, _, _, _, seenRef, hnew, hkept, List.mem_cons_self, List.mem_cons_self, rfl, rfl, root, done,
    root', done', hroot, hroot', hfinish.1, hone, hother⟩

end Session

end LosslessSyntax
