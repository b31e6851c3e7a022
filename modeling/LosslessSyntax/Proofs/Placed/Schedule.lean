import LosslessSyntax.Proofs.Placed.Asking
import LosslessSyntax.Proofs.Placed.Preorder
import LosslessSyntax.Proofs.Placed.Skipping
import Mathlib.Data.List.Induction
import Mathlib.Data.List.TakeWhile

/-!
# Walks under a schedule

Who has a walk may skip the rest of the innermost node after each event, as long as there is one.
Whenever this is done, the walk meets what is met by recursion; and a walk over nodes meets the same,
apart from the tokens.

* `Placed.Walk.heed`: the next event, and a skip after it if the schedule has one;
* `Visit.heeding`: the schedule that knows nothing of visits that are passed by;
* `Visit.Heeds`, **`Green.Node.heeds_traverse`**: a row of visits that keeps to a schedule;
* **`Placed.Walk.heed_reads`**: a step, for both kinds of walks;
* **`Placed.Node.Stands.walk_heeds`**, **`Placed.Node.Stands.nodeWalk_heeds`**: all steps;
* `Placed.Element.Stands.count_visit`: without skips, each part below a node is met once.
-/

namespace LosslessSyntax

/-! ## Visits that are passed by -/

namespace Visit

/-- The schedule that knows nothing of visits that are passed by, and skips nothing after them. -/
def heeding (passes : Visit → Bool) (skips : List Visit → Bool) (met : List Visit) : Bool :=
  !met.getLast?.any passes && skips (met.filter fun visit => !passes visit)

theorem heeding_none (skips : List Visit → Bool) : heeding (fun _ => false) skips = skips := by
  funext met
  have hlast : met.getLast?.any (fun _ => false) = false := by cases met.getLast? <;> rfl
  have hall : met.filter (fun _ => !false) = met := List.filter_eq_self.2 fun _ _ => rfl
  rw [heeding, hlast, hall]
  rfl

section

variable {passes : Visit → Bool} {skips : List Visit → Bool} {met row : List Visit} {visit : Visit}

theorem heeding_passes (h : passes visit = true) :
    heeding passes skips (met ++ [visit]) = false := by
  rw [heeding, List.getLast?_concat, Option.any_some, h]
  rfl

theorem heeding_keeps (h : passes visit = false) : heeding passes skips (met ++ [visit]) =
    skips (met.filter (fun visit => !passes visit) ++ [visit]) := by
  rw [heeding, List.getLast?_concat, Option.any_some, h, List.filter_append, List.filter_cons, h]
  rfl

/-- What is passed by is met all the same, but is not told. -/
theorem obeying_dropWhile : (obeying (heeding passes skips) met row).filter (fun v => !passes v) =
    (obeying (heeding passes skips) (met ++ row.takeWhile passes) (row.dropWhile passes)).filter
      fun v => !passes v := by
  induction row generalizing met with
  | nil => simp
  | cons visit row ih =>
    cases h : passes visit with
    | false =>
      have hstays : ¬ passes visit = true := by rw [h]; decide
      rw [List.takeWhile_cons_of_neg hstays, List.dropWhile_cons_of_neg hstays, List.append_nil]
    | true =>
      rw [List.takeWhile_cons_of_pos h, List.dropWhile_cons_of_pos h, obeying_cons,
        resume_goes (heeding_passes h), List.filter_cons, h, if_neg (by decide), ih,
        List.append_assoc, List.singleton_append]

theorem inside_filter (tokens : ∀ visit, passes visit = true → visit.isToken = true) :
    inside (met.filter fun v => !passes v) = inside met := by
  induction met using List.reverseRecOn with
  | nil => rfl
  | append_singleton met visit ih =>
    rw [inside_append, List.filter_append, List.filter_cons, List.filter_nil]
    cases h : passes visit with
    | false =>
      rw [← ih, ← inside_append]
      rfl
    | true =>
      obtain ⟨path, rfl⟩ := exists_token_of_isToken (tokens visit h)
      rw [← ih]
      exact congrArg inside (List.append_nil _)

theorem Closes.dropWhile (tokens : ∀ visit, passes visit = true → visit.isToken = true)
    {opened : List (List Nat)} (h : Closes opened row) : Closes opened (row.dropWhile passes) := by
  induction row with
  | nil => exact h
  | cons visit row ih =>
    cases hpasses : passes visit with
    | false => rwa [List.dropWhile_cons, hpasses]
    | true =>
      rw [List.dropWhile_cons_of_pos hpasses]
      obtain ⟨path, rfl⟩ := exists_token_of_isToken (tokens visit hpasses)
      exact ih h

theorem Closes.filter (tokens : ∀ visit, passes visit = true → visit.isToken = true)
    {opened : List (List Nat)} (h : Closes opened row) :
    Closes opened (row.filter fun v => !passes v) := by
  induction row generalizing opened with
  | nil => exact h
  | cons visit row ih =>
    rw [List.filter_cons]
    cases hpasses : passes visit with
    | false =>
      cases visit with
      | enter path => exact @ih (path :: opened) h
      | token path => exact @ih opened h
      | leave path =>
        cases opened with
        | nil => exact h.elim
        | cons first opened => exact ⟨h.1, ih h.2⟩
    | true =>
      obtain ⟨path, rfl⟩ := exists_token_of_isToken (tokens visit hpasses)
      exact @ih opened h

end

/-- A row that goes through the node at a path and keeps to a schedule: it enters this node first and
leaves it last, what is entered is left, from the inside out and each node once, and the innermost node
is left as soon as its rest is skipped. -/
structure Heeds (skips : List Visit → Bool) (node : List Nat) (row : List Visit) : Prop where
  first : row.head? = some (enter node)
  last : row.getLast? = some (leave node)
  nested : Nested row
  once : ∀ path, enter path ∈ row → row.count (enter path) = 1 ∧ row.count (leave path) = 1
  skipped : ∀ before after path outer, row = before ++ after → before ≠ [] → skips before = true →
    inside before = path :: outer → after.head? = some (leave path)

theorem Heeds.nodes {skips : List Visit → Bool} {node : List Nat} {row : List Visit}
    (h : Heeds (heeding isToken skips) node row) :
    Heeds skips node (row.filter fun visit => !visit.isToken) where
  first := by
    cases row with
    | nil => exact h.first
    | cons visit row =>
      cases h.first
      rfl
  last := by
    cases row using List.reverseRecOn with
    | nil => exact h.last
    | append_singleton row visit =>
      have hlast := h.last
      rw [List.getLast?_concat] at hlast
      cases hlast
      rw [List.filter_append]
      exact List.getLast?_concat
  nested := Closes.filter (fun _ h => h) h.nested
  once path hmem := by
    have honce := h.once path (List.mem_of_mem_filter hmem)
    rwa [List.count_filter rfl, List.count_filter rfl]
  skipped before after path outer split some skipped innermost := by
    -- the row up to the visit after which the skip comes
    rcases List.eq_nil_or_concat before with rfl | ⟨early, visit, rfl⟩
    · exact absurd rfl some
    rw [List.concat_eq_append] at split skipped innermost
    rw [List.append_assoc, List.singleton_append, List.filter_eq_append_iff] at split
    obtain ⟨l, rest, rfl, rfl, hrest⟩ := split
    obtain ⟨between, later, rfl, htokens, hvisit, rfl⟩ := List.filter_eq_cons_iff.1 hrest
    have hself : ∀ v : Visit, isToken v = true → v.isToken = true := fun _ h => h
    have hbetween : between.filter (fun v => !v.isToken) = [] :=
      List.filter_eq_nil_iff.2 htokens
    have hshort : (l ++ between).filter (fun v => !v.isToken) = l.filter fun v => !v.isToken := by
      rw [List.filter_append, hbetween, List.append_nil]
    have hkept : visit.isToken = false := by simpa using hvisit
    have hopened : inside (l ++ between ++ [visit]) = path :: outer := by
      rw [inside_append, ← inside_filter hself, hshort, ← inside_append,
        innermost]
    have hnext := h.skipped (l ++ between ++ [visit]) later path outer (by simp) (by simp)
      (by rw [heeding_keeps hkept, hshort, skipped]) hopened
    cases later with
    | nil => cases hnext
    | cons next later =>
      cases hnext
      rfl

end Visit

/-- **What is met in a node by recursion keeps to the schedule.** -/
theorem Green.Node.heeds_traverse (node : Green.Node) (skips : List Visit → Bool) (path : List Nat) :
    Visit.Heeds skips path (node.toElement.traverse skips [] path) where
  first := by
    rw [toElement, Element.traverse]
    rfl
  last := by
    rw [toElement, Element.traverse]
    exact List.getLast?_concat
  nested := node.toElement.nested_traverse skips [] path
  once below h :=
    ⟨List.count_eq_one_of_mem (node.toElement.traverse_nodup [] path) h,
      Element.count_leave_of_enter h⟩
  skipped before after below outer split some skipped innermost := by
    rw [← Element.obeying_visits] at split
    have hcloses : Visit.Closes (Visit.inside []) (node.toElement.visits path) :=
      node.toElement.nested_visits path
    exact Visit.leave_of_skips hcloses split some skipped innermost

namespace Placed.Walk

/-! ## Steps -/

/-- The next event of a walk, of which the events before are known. If the schedule says so, the rest
of the innermost node is skipped then; without such a node nothing is asked for. -/
def heed (next : Walk → Query (Option Event × Walk)) (skips : List Visit → Bool)
    (state : List Visit × Walk) : Query (Option Event × List Visit × Walk) := do
  match ← next state.2 with
  | (none, walk) => return (none, state.1, walk)
  | (some event, walk) =>
    let met := state.1 ++ [event.visit]
    if skips met && !(Visit.inside met).isEmpty then
      return (some event, met, ← walk.skip)
    else return (some event, met, walk)

/-- What a walk has to tell from now on, if some visits are passed by. -/
structure Tells (tree : Tree) (passes : Visit → Bool) (skips : List Visit → Bool)
    (state : List Visit × Walk) (row : List Visit) : Prop where
  valid : Valid tree state.2
  told : ∃ met : List Visit, (met.filter fun v => !passes v) = state.1 ∧
    Visit.Closes (Visit.inside met) (left tree state.2) ∧
    row = (Visit.obeying (Visit.heeding passes skips) met (left tree state.2)).filter
      fun v => !passes v

variable {tree : Tree}

theorem Valid.skip_resumes {walk : Walk} (h : Valid tree walk) {opened : List (List Nat)}
    (closes : Visit.Closes opened (left tree walk)) (skips : List Visit → Bool) (met : List Visit) :
    (skips met && !opened.isEmpty) = true ∧ (∃ rest, walk.skip = .ok rest ∧ Valid tree rest ∧
        left tree rest = Visit.resume skips met (left tree walk)) ∨
      (skips met && !opened.isEmpty) = false ∧
        left tree walk = Visit.resume skips met (left tree walk) := by
  cases hskips : skips met with
  | false => exact .inr ⟨rfl, (Visit.resume_goes hskips).symm⟩
  | true =>
    rw [Visit.resume_skips hskips]
    cases opened with
    | nil =>
      have hnone : Visit.skip 0 (left tree walk) = none := closes.skip_none []
      exact .inr ⟨rfl, by rw [hnone]; rfl⟩
    | cons path outer =>
      obtain ⟨last, hskip, -⟩ := closes.skip_eq []
      rcases h.skip_eq with ⟨-, hnone⟩ | ⟨rest, hrest, hvalid, hleft⟩
      · exact absurd (hnone.symm.trans hskip) (Option.some_ne_none _).symm
      · exact .inl ⟨rfl, rest, hrest, hvalid, by rw [hleft]; rfl⟩

theorem Tells.pass {passes : Visit → Bool} {skips : List Visit → Bool}
    (tokens : ∀ visit, passes visit = true → visit.isToken = true)
    {state : List Visit × Walk} {row : List Visit} (h : Tells tree passes skips state row) :
    ∃ met : List Visit, (met.filter fun v => !passes v) = state.1 ∧
      Visit.Closes (Visit.inside met) ((left tree state.2).dropWhile passes) ∧
      row = (Visit.obeying (Visit.heeding passes skips) met
        ((left tree state.2).dropWhile passes)).filter fun v => !passes v := by
  obtain ⟨met, hmet, hcloses, hrow⟩ := h.told
  have hpassed : ((left tree state.2).takeWhile passes).filter (fun v => !passes v) = [] := by
    rw [List.filter_eq_nil_iff]
    intro visit hmem
    rw [List.mem_takeWhile_imp hmem]
    decide
  have hsame : (met ++ (left tree state.2).takeWhile passes).filter (fun v => !passes v) =
      met.filter fun v => !passes v := by
    rw [List.filter_append, hpassed, List.append_nil]
  refine ⟨met ++ (left tree state.2).takeWhile passes, hsame.trans hmet, ?_,
    hrow.trans Visit.obeying_dropWhile⟩
  rw [← Visit.inside_filter tokens, hsame, Visit.inside_filter tokens]
  exact hcloses.dropWhile tokens

/-- **A step of a walk under a schedule tells the first of what there is to tell.** -/
theorem heed_reads {next : Walk → Query (Option Event × Walk)} {passes : Visit → Bool}
    {skips : List Visit → Bool}
    (tokens : ∀ visit, passes visit = true → visit.isToken = true)
    (takes : ∀ walk, Valid tree walk →
      ∃ event rest, Takes tree (next walk) ((left tree walk).dropWhile passes) event rest)
    {state : List Visit × Walk} {row : List Visit} (h : Tells tree passes skips state row) :
    ∃ event rest, Query.Gives tree (heed next skips state) (.ok (event, rest)) ∧
      event.map Event.visit = row.head? ∧ (∀ e, event = some e → e.part.Stands tree) ∧
      Tells tree passes skips rest row.tail := by
  obtain ⟨event, walk, htakes⟩ := takes state.2 h.valid
  obtain ⟨met, hmet, hcloses, rfl⟩ := h.pass tokens
  have hfirst := htakes.first
  have hleft := htakes.left_eq
  unfold heed
  cases hrow : (left tree state.2).dropWhile passes with
  | nil =>
    rw [hrow] at hfirst hleft hcloses
    cases Option.map_eq_none_iff.1 hfirst
    rw [Visit.obeying_nil]
    refine ⟨none, (_, walk), htakes.gives.bind_ok (Query.Gives.pure _), rfl,
      fun _ h => (nomatch h), ⟨htakes.valid, met, hmet, ?_, ?_⟩⟩
    · rw [hleft]
      exact hcloses
    · rw [hleft, List.tail_nil, Visit.obeying_nil]
      rfl
  | cons visit later =>
    rw [hrow] at hfirst hleft hcloses
    obtain ⟨e, rfl, rfl⟩ := Option.map_eq_some_iff.1 hfirst
    have hstanding (e') (h : some e = some e') : e'.part.Stands tree := htakes.standing e' h.symm
    have hkept : passes e.visit = false := by
      have hhead := List.head_dropWhile_not passes (List.ne_nil_of_mem (hrow ▸ List.mem_cons_self))
      simpa [hrow] using hhead
    -- the schedule and the caller know of the same visits
    have htold : (met ++ [e.visit]).filter (fun v => !passes v) = state.1 ++ [e.visit] := by
      rw [List.filter_append, hmet, List.filter_cons, hkept]
      rfl
    have hskips : Visit.heeding passes skips (met ++ [e.visit]) = skips (state.1 ++ [e.visit]) := by
      rw [Visit.heeding_keeps hkept, hmet]
    have hopened : Visit.inside (state.1 ++ [e.visit]) = Visit.inside (met ++ [e.visit]) := by
      rw [← htold, Visit.inside_filter tokens]
    have hcloses' : Visit.Closes (Visit.inside (met ++ [e.visit])) (left tree walk) :=
      hleft ▸ Visit.inside_append met e.visit ▸ hcloses.tail
    have hlater : later = left tree walk := hleft.symm
    rw [Visit.obeying_cons, List.filter_cons, hkept, hlater]
    have hresume := htakes.valid.skip_resumes hcloses' (Visit.heeding passes skips)
      (met ++ [e.visit])
    rw [hskips, ← hopened] at hresume
    rcases hresume with ⟨hdo, rest, hskip, hvalid, hrest⟩ | ⟨hnot, hrest⟩
    · refine ⟨some e, (_, rest), htakes.gives.bind_ok ?_, rfl, hstanding,
        ⟨hvalid, _, htold, ?_, ?_⟩⟩
      · dsimp only
        rw [if_pos hdo, hskip]
        exact (Query.Gives.lift (.ok rest)).bind_ok (Query.Gives.pure _)
      · rw [hrest]
        exact hcloses'.resume
      · rw [hrest]
        rfl
    · refine ⟨some e, (_, walk), htakes.gives.bind_ok ?_, rfl, hstanding,
        ⟨htakes.valid, _, htold, hcloses', ?_⟩⟩
      · dsimp only
        rw [if_neg (by rw [hnot]; decide)]
        exact Query.Gives.pure _
      · rw [← hrest]
        rfl

end Placed.Walk

namespace Placed

variable {tree : Tree} {node : Node}

theorem Node.Stands.tells_walk (standing : node.Stands tree) (passes : Visit → Bool)
    (skips : List Visit → Bool) : Walk.Tells tree passes skips ([], node.walk)
      ((node.green.toElement.traverse (Visit.heeding passes skips) [] node.path).filter
        fun v => !passes v) := by
  have hleft : Walk.left tree node.walk = node.green.toElement.visits node.path := by
    rw [Walk.walk_left, Tree.visits, standing.part?_eq]
    rfl
  refine ⟨Walk.valid_walk standing, [], rfl, ?_, ?_⟩
  · rw [hleft]
    exact node.green.toElement.nested_visits node.path
  · rw [hleft, Green.Element.obeying_visits]

/-- **A walk under a schedule meets what is met by recursion.** -/
theorem Node.Stands.walk_heeds (standing : node.Stands tree) (fits : tree.Fits)
    (skips : List Visit → Bool) (count : Nat) :
    ∃ events, Query.Gives tree (Query.asking (Walk.heed Walk.next skips) count ([], node.walk))
        (.ok events) ∧
      events.map (Option.map Walk.Event.visit) =
        (List.range count).map ((node.green.toElement.traverse skips [] node.path)[·]?) ∧
      ∀ event, some event ∈ events → event.part.Stands tree := by
  have htells := standing.tells_walk (fun _ => false) skips
  simp only [Visit.heeding_none, Bool.not_false, List.filter_true] at htells
  refine (Query.chains_gives tree).asking (fun state row h => ?_) htells count
  refine Walk.heed_reads (fun _ h => absurd h (by decide)) (fun walk hvalid => ?_) h
  have hall : (Walk.left tree walk).dropWhile (fun _ => false) = Walk.left tree walk := by
    cases Walk.left tree walk <;> rfl
  rw [hall]
  exact hvalid.next_takes fits

/-- **A walk over nodes under a schedule meets the same, apart from the tokens.** -/
theorem Node.Stands.nodeWalk_heeds (standing : node.Stands tree) (fits : tree.Fits)
    (skips : List Visit → Bool) (count : Nat) :
    ∃ events, Query.Gives tree (Query.asking (Walk.heed Walk.nextOfNode skips) count ([], node.walk))
        (.ok events) ∧
      events.map (Option.map Walk.Event.visit) = (List.range count).map
        (((node.green.toElement.traverse (Visit.heeding Visit.isToken skips) [] node.path).filter
          fun visit => !visit.isToken)[·]?) ∧
      ∀ event, some event ∈ events → event.part.Stands tree :=
  (Query.chains_gives tree).asking
    (fun _ _ h => Walk.heed_reads (fun _ h => h) (fun _ hvalid => hvalid.nextOfNode_takes fits) h)
    (standing.tells_walk Visit.isToken skips) count

theorem Element.Stands.visit_mem {whole part : Element} (standing : whole.Stands tree)
    (h : part ∈ whole.parts) : part.visit ∈ tree.visits whole.path := by
  cases part with
  | node n =>
    have hpath : n.path ∈ (tree.visits whole.path).filterMap Visit.entered? := by
      rw [← standing.parts_visits fun _ => rfl]
      exact List.mem_filterMap.2 ⟨.node n, h, rfl⟩
    obtain ⟨visit, hmem, hvisit⟩ := List.mem_filterMap.1 hpath
    cases visit with
    | enter path => cases hvisit; exact hmem
    | leave path => cases hvisit
    | token path => cases hvisit
  | token t =>
    have hpath : t.path ∈ (tree.visits whole.path).filterMap Visit.token? := by
      rw [← standing.parts_visits fun _ => rfl]
      exact List.mem_filterMap.2 ⟨.token t, h, rfl⟩
    obtain ⟨visit, hmem, hvisit⟩ := List.mem_filterMap.1 hpath
    cases visit with
    | enter path => cases hvisit
    | leave path => cases hvisit
    | token path => cases hvisit; exact hmem

/-- **Without skips each part at a node or below it is met once.** -/
theorem Element.Stands.count_visit {part : Element} (standing : part.Stands tree)
    (above : node.Stands tree) (below : node.path <+: part.path) :
    (node.green.toElement.traverse (fun _ => false) [] node.path).count part.visit = 1 := by
  refine List.count_eq_one_of_mem (Green.Element.traverse_nodup _ _ _) ?_
  have hwhole : (Element.node node).Stands tree := above
  have hmem := hwhole.visit_mem ((hwhole.mem_parts_iff standing).2 below)
  rw [Green.Element.traverse_never]
  rwa [Tree.visits, hwhole.part?_eq] at hmem

end Placed

end LosslessSyntax
