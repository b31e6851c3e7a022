import LosslessSyntax.Proofs.Placed.Walk

/-!
# Visits with rests skipped

Who goes through a tree may skip the rest of a node at any time: what is left of the node that was
entered last and not left yet is passed by, and leaving it comes next. When this is done is told by
all that was met so far.

* `Green.Element.traverse`: what is met in an element, by recursion;
* `Visit.inside`: the nodes that were entered and are not left yet;
* `Visit.Closes`, `Visit.Nested`: rows in which what is entered is left, from the inside out;
* `Visit.obeying`: what is met of a row;
* **`Green.Element.obeying_visits`**: the two are the same;
* **`Green.Element.nested_traverse`**, **`Visit.leave_of_skips`**: what is met is nested, and a skip
  is followed by the leaving of the innermost node;
* `Green.Element.traverse_sublist`, `Green.Element.traverse_never`: what is met is a part of all
  visits, and all of them if nothing is skipped;
* **`Green.Element.visits_nodup`**: nothing is met twice.
-/

namespace LosslessSyntax

/-! ## What is met in an element -/

namespace Green.Element

mutual

/-- What is met in the element at a path. `skips` tells whether the rest of the innermost node is
skipped after all that was met so far, and `met` is what was met before. -/
def traverse (skips : List Visit → Bool) (met : List Visit) (path : List Nat) :
    Element → List Visit
  | .token _ => [.token path]
  | .node _ ⟨slots⟩ =>
    .enter path :: traverseRow skips (met ++ [.enter path]) path 0 slots ++ [.leave path]

/-- What is met in a row of elements, the first of which is in a slot of the node at a path. -/
def traverseRow (skips : List Visit → Bool) (met : List Visit) (path : List Nat) (slot : Nat) :
    List Element → List Visit
  | [] => []
  | e :: rest =>
    if skips met then [] else
      let first := e.traverse skips met (path ++ [slot])
      first ++ traverseRow skips (met ++ first) path (slot + 1) rest

end

section

variable {skips : List Visit → Bool}

theorem traverseRow_skips {met : List Visit} (h : skips met = true) (path : List Nat) (slot : Nat)
    (row : List Element) : traverseRow skips met path slot row = [] := by
  cases row with
  | nil => rw [traverseRow]
  | cons e row => rw [traverseRow, if_pos h]

theorem traverseRow_goes {met : List Visit} (h : skips met = false) (path : List Nat) (slot : Nat)
    (e : Element) (row : List Element) : traverseRow skips met path slot (e :: row) =
      e.traverse skips met (path ++ [slot]) ++
        traverseRow skips (met ++ e.traverse skips met (path ++ [slot])) path (slot + 1) row := by
  rw [traverseRow, if_neg (by rw [h]; decide)]

end

mutual

theorem traverse_never (e : Element) (met : List Visit) (path : List Nat) :
    e.traverse (fun _ => false) met path = e.visits path := by
  match e with
  | .token t => rw [traverse, visits]
  | .node head ⟨slots⟩ => rw [traverse, visits_row, traverseRow_never slots]

theorem traverseRow_never (row : List Element) (met : List Visit) (path : List Nat) (slot : Nat) :
    traverseRow (fun _ => false) met path slot row = visitsRow path slot row := by
  match row with
  | [] => rw [traverseRow, visitsRow, List.zipIdx_nil, List.flatMap_nil]
  | e :: row =>
    rw [traverseRow_goes rfl, visitsRow_cons, traverse_never e, traverseRow_never row]

end

mutual

theorem traverse_sublist (skips : List Visit → Bool) (e : Element) (met : List Visit)
    (path : List Nat) : (e.traverse skips met path).Sublist (e.visits path) := by
  match e with
  | .token t => rw [traverse, visits]
  | .node head ⟨slots⟩ =>
    rw [traverse, visits_row]
    exact ((traverseRow_sublist skips slots _ path 0).cons_cons _).append (.refl _)

theorem traverseRow_sublist (skips : List Visit → Bool) (row : List Element) (met : List Visit)
    (path : List Nat) (slot : Nat) :
    (traverseRow skips met path slot row).Sublist (visitsRow path slot row) := by
  match row with
  | [] => rw [traverseRow, visitsRow, List.zipIdx_nil, List.flatMap_nil]
  | e :: row =>
    cases h : skips met with
    | true =>
      rw [traverseRow_skips h]
      exact List.nil_sublist _
    | false =>
      rw [traverseRow_goes h, visitsRow_cons]
      exact (traverse_sublist skips e met _).append (traverseRow_sublist skips row _ path _)

end

end Green.Element

/-! ## Nested rows -/

namespace Visit

/-- The nodes that are not left yet after a visit, if those of `inside` were not left before it. -/
def within (inside : List (List Nat)) : Visit → List (List Nat)
  | enter path => path :: inside
  | leave _ => inside.tail
  | token _ => inside

/-- The nodes that were entered and are not left yet, the innermost first. -/
def inside (met : List Visit) : List (List Nat) := met.foldl within []

theorem inside_append (met : List Visit) (visit : Visit) :
    inside (met ++ [visit]) = within (inside met) visit := by
  rw [inside, List.foldl_append]
  rfl

/-- A row in which the nodes of `inside`, the innermost first, are left, and so is every node that is
entered, always the one that was entered last. -/
def Closes : (inside : List (List Nat)) → List Visit → Prop
  | inside, [] => inside = []
  | inside, enter path :: row => Closes (path :: inside) row
  | inside, token _ :: row => Closes inside row
  | [], leave _ :: _ => False
  | path :: inside, leave path' :: row => path = path' ∧ Closes inside row

/-- A row in which every node that is entered is left, always the one that was entered last. -/
def Nested (row : List Visit) : Prop := Closes [] row

theorem Closes.tail {inside : List (List Nat)} {visit : Visit} {row : List Visit}
    (h : Closes inside (visit :: row)) : Closes (visit.within inside) row := by
  cases visit with
  | enter path => exact h
  | token path => exact h
  | leave path =>
    cases inside with
    | nil => exact h.elim
    | cons path' inside => exact h.2

/-- **To skip is to go on to the leaving of the innermost node**; `opened` are the nodes that were
entered meanwhile. -/
theorem Closes.skip_eq (opened : List (List Nat)) {inside : List (List Nat)} {path : List Nat}
    {row : List Visit} (h : Closes (opened ++ path :: inside) row) :
    ∃ rest, skip opened.length row = some (leave path :: rest) ∧ Closes inside rest := by
  induction row generalizing opened with
  | nil => exact absurd h (by simp [Closes])
  | cons visit row ih =>
    cases visit with
    | enter path' => exact ih (path' :: opened) h
    | token path' => exact ih opened h
    | leave path' =>
      cases opened with
      | nil =>
        obtain ⟨rfl, hrest⟩ := h
        exact ⟨row, rfl, hrest⟩
      | cons first opened => exact ih opened h.2

theorem Closes.skip_none (opened : List (List Nat)) {row : List Visit} (h : Closes opened row) :
    skip opened.length row = none := by
  induction row generalizing opened with
  | nil => rw [skip]
  | cons visit row ih =>
    cases visit with
    | enter path => exact ih (path :: opened) h
    | token path => exact ih opened h
    | leave path =>
      cases opened with
      | nil => exact h.elim
      | cons first opened => exact ih opened h.2

/-- A node is left as often as it is entered, now or before. -/
theorem Closes.count {inside : List (List Nat)} {row : List Visit} (h : Closes inside row)
    (path : List Nat) : row.count (leave path) = row.count (enter path) + inside.count path := by
  induction row generalizing inside with
  | nil =>
    cases h
    rfl
  | cons visit row ih =>
    have hrow := ih h.tail
    cases visit with
    | enter path' =>
      rw [within, List.count_cons] at hrow
      simp only [List.count_cons, beq_iff_eq, reduceCtorEq, if_false, enter.injEq]
      simp only [beq_iff_eq] at hrow
      omega
    | token path' =>
      rw [within] at hrow
      simp only [List.count_cons, beq_iff_eq, reduceCtorEq, if_false]
      omega
    | leave path' =>
      cases inside with
      | nil => exact h.elim
      | cons first inside =>
        obtain ⟨rfl, -⟩ := h
        simp only [within, List.tail_cons] at hrow
        simp only [List.count_cons, beq_iff_eq, reduceCtorEq, if_false, leave.injEq]
        omega

end Visit

namespace Green.Element

variable (skips : List Visit → Bool)

mutual

theorem closes_traverse (e : Element) (met : List Visit) (path : List Nat)
    {inside : List (List Nat)} {rest : List Visit} (h : Visit.Closes inside rest) :
    Visit.Closes inside (e.traverse skips met path ++ rest) := by
  match e with
  | .token t =>
    rw [traverse]
    exact h
  | .node head ⟨slots⟩ =>
    rw [traverse, List.append_assoc, List.cons_append]
    exact closes_traverseRow slots _ path 0 ⟨rfl, h⟩

theorem closes_traverseRow (row : List Element) (met : List Visit) (path : List Nat) (slot : Nat)
    {inside : List (List Nat)} {rest : List Visit} (h : Visit.Closes inside rest) :
    Visit.Closes inside (traverseRow skips met path slot row ++ rest) := by
  match row with
  | [] =>
    rw [traverseRow]
    exact h
  | e :: row =>
    cases hskips : skips met with
    | true =>
      rw [traverseRow_skips hskips]
      exact h
    | false =>
      rw [traverseRow_goes hskips, List.append_assoc]
      exact closes_traverse e _ _ (closes_traverseRow row _ path _ h)

end

/-- **What is met in an element is nested**, wherever rests are skipped. -/
theorem nested_traverse (e : Element) (met : List Visit) (path : List Nat) :
    Visit.Nested (e.traverse skips met path) := by
  have h := closes_traverse skips e met path (show Visit.Closes [] [] from rfl)
  rwa [List.append_nil] at h

theorem nested_visits (e : Element) (path : List Nat) : Visit.Nested (e.visits path) :=
  e.traverse_never [] path ▸ nested_traverse _ e [] path

end Green.Element

/-! ## What is met of a row -/

namespace Visit

/-- What is left of a row of visits after the rest of the innermost node was skipped, if it is skipped
after all that was met. -/
def resume (skips : List Visit → Bool) (met row : List Visit) : List Visit :=
  if skips met then (skip 0 row).getD row else row

theorem length_skip {depth : Nat} {row rest : List Visit} (h : skip depth row = some rest) :
    rest.length ≤ row.length := by
  fun_induction skip depth row with
  | case1 => cases h
  | case2 depth path row ih => exact Nat.le_succ_of_le (ih h)
  | case3 depth path row ih => exact Nat.le_succ_of_le (ih h)
  | case4 path row =>
    cases h
    exact Nat.le_refl _
  | case5 depth path row ih => exact Nat.le_succ_of_le (ih h)

theorem length_resume (skips : List Visit → Bool) (met row : List Visit) :
    (resume skips met row).length ≤ row.length := by
  unfold resume
  split_ifs
  · cases hskip : skip 0 row with
    | none => exact Nat.le_refl _
    | some rest => exact length_skip hskip
  · exact Nat.le_refl _

/-- What is met of a row of visits, where rests are skipped. -/
def obeying (skips : List Visit → Bool) (met : List Visit) : List Visit → List Visit
  | [] => []
  | visit :: row =>
    visit :: obeying skips (met ++ [visit]) (resume skips (met ++ [visit]) row)
termination_by row => row.length
decreasing_by exact Nat.lt_succ_of_le (length_resume _ _ _)

section

variable {skips : List Visit → Bool} {met row : List Visit}

@[simp] theorem obeying_nil : obeying skips met [] = [] := by rw [obeying]

theorem obeying_cons (visit : Visit) : obeying skips met (visit :: row) =
    visit :: obeying skips (met ++ [visit]) (resume skips (met ++ [visit]) row) := by rw [obeying]

theorem resume_goes (h : skips met = false) : resume skips met row = row :=
  if_neg (by rw [h]; decide)

theorem resume_skips (h : skips met = true) : resume skips met row = (skip 0 row).getD row := if_pos h

theorem Closes.resume {inside : List (List Nat)} (h : Closes inside row) :
    Closes inside (resume skips met row) := by
  cases hskips : skips met with
  | false => rwa [resume_goes hskips]
  | true =>
    rw [resume_skips hskips]
    cases inside with
    | nil =>
      have hnone : skip 0 row = none := h.skip_none []
      rwa [hnone]
    | cons path inside =>
      obtain ⟨rest, hskip, hrest⟩ := h.skip_eq []
      have hsome : skip 0 row = some (leave path :: rest) := hskip
      rw [hsome]
      exact ⟨rfl, hrest⟩

/-- **After a skip the innermost node is left next.** -/
theorem leave_of_skips (closes : Closes (inside met) row) {before after : List Visit}
    {path : List Nat} {outer : List (List Nat)} (split : obeying skips met row = before ++ after)
    (some : before ≠ []) (skipped : skips (met ++ before) = true)
    (innermost : inside (met ++ before) = path :: outer) : after.head? = .some (leave path) := by
  induction before generalizing met row with
  | nil => exact absurd rfl some
  | cons first before ih =>
    cases row with
    | nil =>
      rw [obeying_nil] at split
      cases split
    | cons visit row =>
      rw [obeying_cons, List.cons_append] at split
      obtain ⟨rfl, hsplit⟩ := List.cons.inj split
      have hcloses : Closes (inside (met ++ [visit])) row := inside_append met visit ▸ closes.tail
      rw [List.append_cons] at skipped innermost
      cases before with
      | nil =>
        rw [List.append_nil] at skipped innermost
        rw [innermost] at hcloses
        obtain ⟨rest, hskip, -⟩ := hcloses.skip_eq []
        have hsome : skip 0 row = .some (leave path :: rest) := hskip
        rw [resume_skips skipped, hsome, Option.getD_some, obeying_cons, List.nil_append] at hsplit
        rw [← hsplit]
        rfl
      | cons second before =>
        exact ih hcloses.resume hsplit (List.cons_ne_nil _ _) skipped innermost

end

end Visit

namespace Green.Element

variable (skips : List Visit → Bool)

mutual

/-- What is met of the visits of an element is what is met in it by recursion. -/
theorem obeying_visits_append (e : Element) (met : List Visit) (path : List Nat)
    (rest : List Visit) : Visit.obeying skips met (e.visits path ++ rest) =
      e.traverse skips met path ++ Visit.obeying skips (met ++ e.traverse skips met path)
        (Visit.resume skips (met ++ e.traverse skips met path) rest) := by
  match e with
  | .token t =>
    rw [visits, traverse]
    exact Visit.obeying_cons _
  | .node head ⟨slots⟩ =>
    have hrow := obeying_visitsRow slots (met ++ [.enter path]) path 0 rest
    rw [Visit.obeying_cons] at hrow
    rw [visits_row, traverse]
    simp only [List.cons_append, List.append_assoc, List.nil_append, Visit.obeying_cons] at hrow ⊢
    rw [hrow]

theorem obeying_visitsRow (row : List Element) (met : List Visit) (path : List Nat) (slot : Nat)
    (rest : List Visit) :
    Visit.obeying skips met
        (Visit.resume skips met (visitsRow path slot row ++ .leave path :: rest)) =
      traverseRow skips met path slot row ++
        Visit.obeying skips (met ++ traverseRow skips met path slot row) (.leave path :: rest) := by
  -- whether the first element is met is told by what was met before
  cases hskips : skips met with
  | true =>
    rw [Visit.resume_skips hskips, skip_visitsRow, traverseRow_skips hskips, List.append_nil]
    rfl
  | false =>
    rw [Visit.resume_goes hskips]
    match row with
    | [] =>
      rw [traverseRow, List.append_nil]
      rfl
    | e :: row =>
      rw [visitsRow_cons, List.append_assoc, obeying_visits_append e, traverseRow_goes hskips,
        obeying_visitsRow row, List.append_assoc, List.append_assoc]

end

/-- **What is met of all visits is what is met by recursion.** -/
theorem obeying_visits (e : Element) (path : List Nat) :
    Visit.obeying skips [] (e.visits path) = e.traverse skips [] path := by
  have h := obeying_visits_append skips e [] path []
  have hnil : Visit.resume skips ([] ++ e.traverse skips [] path) [] = [] :=
    List.eq_nil_of_length_eq_zero (Nat.le_zero.1 (Visit.length_resume _ _ _))
  rwa [hnil, Visit.obeying_nil, List.append_nil, List.append_nil] at h

end Green.Element

/-! ## Nothing twice -/

/-- The part that a visit is about. -/
def Visit.path : Visit → List Nat
  | enter path => path
  | leave path => path
  | token path => path

namespace Green.Element

mutual

theorem path_of_mem_visits (e : Element) (path : List Nat) {visit : Visit}
    (h : visit ∈ e.visits path) : path <+: visit.path := by
  match e with
  | .token t =>
    rw [visits, List.mem_singleton] at h
    rw [h]
    exact List.prefix_rfl
  | .node head ⟨slots⟩ =>
    rw [visits_row, List.mem_append, List.mem_cons, List.mem_singleton] at h
    rcases h with (rfl | h) | rfl
    · exact List.prefix_rfl
    · obtain ⟨slot, -, hslot⟩ := path_of_mem_visitsRow slots path 0 h
      exact (List.prefix_append path [slot]).trans hslot
    · exact List.prefix_rfl

theorem path_of_mem_visitsRow (row : List Element) (path : List Nat) (slot : Nat) {visit : Visit}
    (h : visit ∈ visitsRow path slot row) :
    ∃ later, slot ≤ later ∧ path ++ [later] <+: visit.path := by
  match row with
  | [] => exact absurd h List.not_mem_nil
  | e :: row =>
    rw [visitsRow_cons, List.mem_append] at h
    rcases h with h | h
    · exact ⟨slot, Nat.le_refl _, path_of_mem_visits e _ h⟩
    · obtain ⟨later, hle, hlater⟩ := path_of_mem_visitsRow row path (slot + 1) h
      exact ⟨later, Nat.le_of_succ_le hle, hlater⟩

end

theorem path_ne_of_mem_visitsRow {row : List Element} {path : List Nat} {slot : Nat} {visit : Visit}
    (h : visit ∈ visitsRow path slot row) : visit.path ≠ path := by
  obtain ⟨later, -, hlater⟩ := path_of_mem_visitsRow row path slot h
  intro heq
  have hlength := hlater.length_le
  rw [heq, List.length_append] at hlength
  exact absurd hlength (by simp)

mutual

/-- **Nothing is met twice.** -/
theorem visits_nodup (e : Element) (path : List Nat) : (e.visits path).Nodup := by
  match e with
  | .token t =>
    rw [visits]
    exact List.nodup_singleton _
  | .node head ⟨slots⟩ =>
    have hne {visit : Visit} (h : visit ∈ visitsRow path 0 slots) : visit.path ≠ path :=
      path_ne_of_mem_visitsRow h
    rw [visits_row, List.nodup_append, List.nodup_cons]
    refine ⟨⟨fun h => hne h rfl, visitsRow_nodup slots path 0⟩, List.nodup_singleton _, ?_⟩
    rintro visit h _ hlast rfl
    rw [List.mem_singleton.1 hlast, List.mem_cons] at h
    rcases h with h | h
    · cases h
    · exact hne h rfl

theorem visitsRow_nodup (row : List Element) (path : List Nat) (slot : Nat) :
    (visitsRow path slot row).Nodup := by
  match row with
  | [] => exact List.nodup_nil
  | e :: row =>
    rw [visitsRow_cons, List.nodup_append]
    refine ⟨visits_nodup e _, visitsRow_nodup row path _, ?_⟩
    -- the paths go on in different slots
    rintro visit h _ hlater rfl
    obtain ⟨later, hle, hlater⟩ := path_of_mem_visitsRow row path (slot + 1) hlater
    have hfirst := path_of_mem_visits e _ h
    have heq := (List.prefix_of_prefix_length_le hfirst hlater (by simp)).eq_of_length (by simp)
    have hslot : slot = later := by simpa using heq
    omega

end

theorem traverse_nodup {skips : List Visit → Bool} (e : Element) (met : List Visit)
    (path : List Nat) : (e.traverse skips met path).Nodup :=
  (e.visits_nodup path).sublist (traverse_sublist skips e met path)

theorem count_leave_of_enter {skips : List Visit → Bool} {e : Element} {met : List Visit}
    {path node : List Nat} (h : .enter node ∈ e.traverse skips met path) :
    (e.traverse skips met path).count (.leave node) = 1 := by
  have hcount := (nested_traverse skips e met path).count node
  rw [hcount, List.count_nil, Nat.add_zero]
  exact List.count_eq_one_of_mem (e.traverse_nodup met path) h

end Green.Element

end LosslessSyntax
