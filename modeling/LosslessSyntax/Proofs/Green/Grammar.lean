import LosslessSyntax.Proofs.Green.ListRows

/-!
# Rows that make a list

A row makes a list if it has nodes only, or if nodes and tokens take turns in it and a node comes
first. Whether a node may stand in an odd slot is thus not told by what is before it, but by whether
there is a token anywhere in the row. What is refused is the first slot that is out of turn.

* `Green.Turns`, `Green.MakesList`: the rows that make a list;
* `Green.HasListShape`: the shape of such a list;
* `Green.OutOfTurn`, `Green.FirstOutOfTurn`: what is refused, and why;
* `Green.Turns.inTurn`, `Green.turns_of_inTurn`: rows in which nothing is out of turn;
* `Green.checkSlots_separated`: what the check of the slots comes to;
* **`Green.listShapeOf_grammar`**: which rows make a list of which shape, and what is refused else.
-/

namespace LosslessSyntax.Green

/-! ## The grammar -/

/-- Rows in which nodes and tokens take turns and a node comes first. A token may come last. -/
inductive Turns : List Element → Prop
  | nil : Turns []
  | last (head : Head) (slots : Array Element) : Turns [.node head slots]
  | next (head : Head) (slots : Array Element) (token : Token) {rest : List Element}
      (turns : Turns rest) : Turns (.node head slots :: .token token :: rest)

/-- Rows that make a list: nodes only, or nodes and tokens in turn. -/
def MakesList (row : List Element) : Prop := (∀ e ∈ row, e.isNode = true) ∨ Turns row

/-- The shape of a list over a row of slots. -/
inductive HasListShape : List Element → ListShape → Prop
  | empty : HasListShape [] .empty
  | single (e : Element) : HasListShape [e] .single
  | many {row : List Element} (several : 2 ≤ row.length) (nodes : ∀ e ∈ row, e.isNode = true) :
      HasListShape row .many
  | separated {row : List Element} (several : 2 ≤ row.length) {token : Token}
      (has : .token token ∈ row) : HasListShape row .separated

/-- What is out of turn in a slot, and how it is refused: a token in an even slot, a node in an odd
one. -/
inductive OutOfTurn (slot : Nat) : Element → BuildError → Prop
  | token (t : Token) (even : slot % 2 = 0) : OutOfTurn slot (.token t) (.tokenAsElement slot t.kind)
  | node (head : Head) (slots : Array Element) (odd : slot % 2 = 1) :
      OutOfTurn slot (.node head slots) (.nodeAsSeparator slot head.kind)

/-- The first slot of a row that is out of turn, the slots being counted from `first`, is refused with
this error. -/
def FirstOutOfTurn (first : Nat) (row : List Element) (error : BuildError) : Prop :=
  ∃ i e, row[i]? = some e ∧ OutOfTurn (first + i) e error ∧
    ∀ j < i, ∀ x error', row[j]? = some x → ¬ OutOfTurn (first + j) x error'

/-! ## Turns by slots -/

section

variable {slot : Nat} {e : Element} {row : List Element} {error : BuildError}

theorem not_outOfTurn_iff :
    (∀ error, ¬ OutOfTurn slot e error) ↔ (e.isNode = true ↔ slot % 2 = 0) := by
  cases e with
  | token t =>
    have hsort : (Element.token t).isNode = false := rfl
    rw [hsort]
    constructor
    · intro h
      exact ⟨nofun, fun heven => absurd (.token t heven) (h _)⟩
    · rintro h _ ⟨_, heven⟩
      exact Bool.false_ne_true (h.2 heven)
  | node head slots =>
    have hsort : (Element.node head slots).isNode = true := rfl
    rw [hsort]
    constructor
    · intro h
      refine iff_of_true rfl ?_
      by_contra hodd
      exact h _ (.node head slots (Nat.mod_two_ne_zero.1 hodd))
    · rintro h _ (_ | ⟨_, _, hodd⟩)
      have heven := h.1 rfl
      omega

theorem OutOfTurn.unique {error' : BuildError} (h : OutOfTurn slot e error)
    (h' : OutOfTurn slot e error') : error = error' := by
  cases h <;> cases h' <;> rfl

theorem Turns.inTurn (h : Turns row) :
    ∀ i e, row[i]? = some e → (e.isNode = true ↔ i % 2 = 0) := by
  induction h with
  | nil => exact fun i e he => by simp at he
  | last head slots =>
    intro i e he
    obtain ⟨rfl, rfl⟩ : i = 0 ∧ e = .node head slots := by
      cases i <;> simp_all
    exact iff_of_true rfl rfl
  | next head slots token _ ih =>
    intro i e he
    match i with
    | 0 =>
      cases he
      exact iff_of_true rfl rfl
    | 1 =>
      cases he
      exact iff_of_false Bool.false_ne_true Nat.one_ne_zero
    | i + 2 =>
      rw [ih i e he]
      omega

-- two slots are taken at a time, so that the next one is even again
theorem turns_of_inTurn : ∀ row : List Element,
    (∀ i e, row[i]? = some e → (e.isNode = true ↔ i % 2 = 0)) → Turns row
  | [], _ => .nil
  | [.node head slots], _ => .last head slots
  | .token _ :: _, h => absurd ((h 0 _ rfl).2 rfl) Bool.false_ne_true
  | .node _ _ :: .node _ _ :: _, h => absurd ((h 1 _ rfl).1 rfl) Nat.one_ne_zero
  | .node head slots :: .token t :: rest, h =>
    .next head slots t <| turns_of_inTurn rest fun i e he => by
      rw [h (i + 2) e he]
      omega

theorem Turns.not_firstOutOfTurn (h : Turns row) : ¬ FirstOutOfTurn 0 row error := by
  rintro ⟨i, e, he, hout, -⟩
  rw [Nat.zero_add] at hout
  exact not_outOfTurn_iff.2 (h.inTurn i e he) error hout

theorem FirstOutOfTurn.unique {first : Nat} {error' : BuildError}
    (h : FirstOutOfTurn first row error) (h' : FirstOutOfTurn first row error') :
    error = error' := by
  obtain ⟨i, e, he, hout, hbefore⟩ := h
  obtain ⟨j, x, hx, hout', hbefore'⟩ := h'
  rcases Nat.lt_trichotomy i j with hlt | rfl | hlt
  · exact absurd hout (hbefore' i hlt e error he)
  · cases he.symm.trans hx
    exact hout.unique hout'
  · exact absurd hout' (hbefore j hlt x error' hx)

end

/-! ## The check of the slots -/

section

variable {slot : Nat} {e : Element} {row : List Element} {error : BuildError}

theorem firstOutOfTurn_head (h : OutOfTurn slot e error) : FirstOutOfTurn slot (e :: row) error :=
  ⟨0, e, rfl, h, fun _ hlt => absurd hlt (Nat.not_lt_zero _)⟩

/-- If the first slot is in turn, those after it are asked. -/
theorem firstOutOfTurn_tail (inTurn : ∀ error, ¬ OutOfTurn slot e error)
    (h : FirstOutOfTurn (slot + 1) row error) : FirstOutOfTurn slot (e :: row) error := by
  obtain ⟨i, x, hx, hout, hbefore⟩ := h
  refine ⟨i + 1, x, hx, by rwa [Nat.add_right_comm] at hout, fun j hj y error' hy => ?_⟩
  cases j with
  | zero =>
    cases hy
    exact inTurn error'
  | succ j =>
    rw [show slot + (j + 1) = slot + 1 + j by omega]
    exact hbefore j (Nat.lt_of_succ_lt_succ hj) y error' hy

/-- **The check of a separated list refuses the first slot that is out of turn.** -/
theorem checkSlots_separated (slot : Nat) (row : List Element) :
    match checkSlots true slot row with
    | .ok _ => ∀ i e, row[i]? = some e → (e.isNode = true ↔ (slot + i) % 2 = 0)
    | .error error => FirstOutOfTurn slot row error := by
  induction row generalizing slot with
  | nil => exact fun i e he => by simp at he
  | cons e row ih =>
    by_cases hturn : e.isNode = true ↔ slot % 2 = 0
    · have hnext : checkSlots true slot (e :: row) = checkSlots true (slot + 1) row := by
        cases e with
        | token t =>
          have hodd : slot % 2 ≠ 0 := fun heven => Bool.false_ne_true (hturn.2 heven)
          rw [checkSlots, if_neg (by simpa using hodd)]
        | node head slots =>
          have heven : slot % 2 = 0 := hturn.1 rfl
          rw [checkSlots, if_neg (by simp [heven])]
      rw [hnext]
      have hrest := ih (slot + 1)
      split at hrest
      · intro i x hx
        cases i with
        | zero =>
          cases hx
          exact hturn
        | succ i =>
          rw [hrest i x hx]
          omega
      · exact firstOutOfTurn_tail (not_outOfTurn_iff.2 hturn) hrest
    · cases e with
      | token t =>
        have heven : slot % 2 = 0 := by
          by_contra hodd
          exact hturn (iff_of_false Bool.false_ne_true hodd)
        rw [checkSlots, if_pos (by simp [heven])]
        exact firstOutOfTurn_head (.token t heven)
      | node head slots =>
        have hodd : slot % 2 = 1 :=
          Nat.mod_two_ne_zero.1 fun heven => hturn (iff_of_true rfl heven)
        rw [checkSlots, if_pos (by simp [hodd])]
        exact firstOutOfTurn_head (.node head slots hodd)

theorem checkSlots_nodes (nodes : ∀ e ∈ row, e.isNode = true) (slot : Nat) :
    checkSlots false slot row = .ok () := by
  rw [← (rows_of_nodes nodes).1]
  exact checkSlots_elements slot _

end

/-! ## What makes a list -/

section

variable {kind : Kind} {slots : Array Element} {shape : ListShape} {error : BuildError}

theorem HasListShape.unique {row : List Element} {shape' : ListShape} (h : HasListShape row shape)
    (h' : HasListShape row shape') : shape = shape' := by
  cases h with
  | empty =>
    cases h' with
    | empty => rfl
    | many several _ | separated several _ => cases several
  | single e =>
    cases h' with
    | single e => rfl
    | many several _ | separated several _ => exact absurd several (Nat.lt_irrefl 1)
  | many several nodes =>
    cases h' with
    | empty => cases several
    | single e => exact absurd several (Nat.lt_irrefl 1)
    | many several _ => rfl
    | separated several has => exact absurd (nodes _ has) Bool.false_ne_true
  | separated several has =>
    cases h' with
    | empty => cases several
    | single e => exact absurd several (Nat.lt_irrefl 1)
    | many several nodes => exact absurd (nodes _ has) Bool.false_ne_true
    | separated several _ => rfl

theorem hasListShape_of_size (slots : Array Element) :
    HasListShape slots.toList (match slots.size with
      | 0 => .empty
      | 1 => .single
      | _ => if slots.any fun slot => !slot.isNode then .separated else .many) := by
  obtain ⟨row⟩ := slots
  rw [List.any_toArray, List.size_toArray]
  match row with
  | [] => exact .empty
  | [e] => exact .single e
  | e :: e' :: rest =>
    have several : 2 ≤ (e :: e' :: rest).length := Nat.le_add_left 2 _
    change HasListShape _ (if _ then _ else _)
    split_ifs with hany
    · obtain ⟨x, hx, htoken⟩ := List.any_eq_true.1 hany
      cases x with
      | token t => exact .separated several hx
      | node head slots => cases htoken
    · refine .many several fun x hx => ?_
      by_contra htoken
      exact hany (List.any_eq_true.2 ⟨x, hx, by rw [Bool.eq_false_iff.2 htoken]; rfl⟩)

theorem listShapeOf_makesList (hkind : kind.isList = true) (makes : MakesList slots.toList) :
    ∃ shape, listShapeOf kind slots = .ok shape ∧ HasListShape slots.toList shape := by
  have hcheck : checkSlots (slots.any fun slot => !slot.isNode) 0 slots.toList = .ok () := by
    cases hany : slots.any fun slot => !slot.isNode with
    | false =>
      exact checkSlots_nodes (nodes_of_any hany) 0
    | true =>
      have hturns : Turns slots.toList := makes.resolve_left fun nodes => by
        obtain ⟨e, he, htoken⟩ := Array.any_eq_true'.1 hany
        rw [nodes e (Array.mem_toList_iff.2 he)] at htoken
        cases htoken
      have hrun := checkSlots_separated 0 slots.toList
      split at hrun
      · assumption
      · exact absurd hrun hturns.not_firstOutOfTurn
  refine ⟨_, ?_, hasListShape_of_size slots⟩
  rw [listShapeOf_list hkind, hcheck]
  rfl

theorem listShapeOf_makesNone (hkind : kind.isList = true) (none : ¬ MakesList slots.toList) :
    ∃ error, listShapeOf kind slots = .error error ∧ FirstOutOfTurn 0 slots.toList error := by
  have hany : (slots.any fun slot => !slot.isNode) = true := by
    exact Bool.eq_true_of_not_eq_false fun hany => none (.inl (nodes_of_any hany))
  rw [listShapeOf_list hkind, hany]
  have hrun := checkSlots_separated 0 slots.toList
  split at hrun
  · refine absurd (.inr (turns_of_inTurn _ fun i e he => ?_)) none
    rw [hrun i e he, Nat.zero_add]
  · next error herror =>
    rw [herror]
    exact ⟨error, rfl, hrun⟩

/-- **Which rows make a list, of which shape, and what is refused else**: what is of another kind is
refused as such, whatever the row, and in a row that makes no list the first slot that is out of
turn. -/
theorem listShapeOf_grammar (kind : Kind) (slots : Array Element) :
    ((∃ shape, listShapeOf kind slots = .ok shape) ↔
      kind.isList = true ∧ MakesList slots.toList) ∧
    (∀ shape, listShapeOf kind slots = .ok shape ↔
      kind.isList = true ∧ MakesList slots.toList ∧ HasListShape slots.toList shape) ∧
    ∀ error, listShapeOf kind slots = .error error ↔
      kind.isList = false ∧ error = .notListKind kind ∨
      kind.isList = true ∧ ¬ MakesList slots.toList ∧ FirstOutOfTurn 0 slots.toList error := by
  cases hkind : kind.isList with
  | false => simp [listShapeOf_notList hkind, eq_comm]
  | true =>
    by_cases hmakes : MakesList slots.toList
    · obtain ⟨shape, hrun, hshape⟩ := listShapeOf_makesList hkind hmakes
      rw [hrun]
      refine ⟨by simp [hmakes], fun shape' => ?_, fun error => by simp [hmakes]⟩
      rw [Except.ok.injEq]
      exact ⟨fun h => ⟨rfl, hmakes, h ▸ hshape⟩, fun h => hshape.unique h.2.2⟩
    · obtain ⟨error, hrun, hfirst⟩ := listShapeOf_makesNone hkind hmakes
      rw [hrun]
      refine ⟨by simp [hmakes], fun shape' => by simp [hmakes], fun error' => ?_⟩
      rw [Except.error.injEq]
      refine ⟨fun h => .inr ⟨rfl, hmakes, h ▸ hfirst⟩, fun h => ?_⟩
      rcases h with ⟨hfalse, -⟩ | ⟨-, -, hfirst'⟩
      · cases hfalse
      · exact hfirst.unique hfirst'

end

end LosslessSyntax.Green
