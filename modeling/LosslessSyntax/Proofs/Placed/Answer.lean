import LosslessSyntax.Placed.Memo
import LosslessSyntax.Proofs.Placed.Tree

/-!
# Answers that do not depend on the memo

A memo holds what was placed before. As long as it holds nothing but what placing anew would give,
a query has one answer, whatever is in the memo, and leaves a memo of which the same can be said.

* `Placed.Node.placing`: the offset of the node in a slot, found anew;
* `Placed.Node.placeNode_run`: what placing does;
* `Placed.Memo.Gave`, **`Placed.Node.placeNode_new`**: no address is given to two nodes;
* `Placed.Memo.Fresh`: no slot is filled a second time;
* `Placed.Tree.Keeps`: a memo that holds nothing but what placing anew gives;
* `Placed.Query.Answers`: a query with its one answer;
* `Placed.Query.Answers.bind`: queries one after the other;
* **`Placed.Node.placeNode_answer`**: placing the node in a slot;
* `Placed.Tree.Fits`, `Placed.Tree.Narrow`: trees that end within bounds, and without too large slots;
* `Placed.Query.Gives`, `Placed.Query.Settles`: a query with its one answer but for slot numbers that
  are too large, or in a tree that is not narrow.
-/

namespace LosslessSyntax.Placed

/-- The offset of the node in a slot, without a look at the memo. -/
def Node.placing (node : Node) (slot : Nat) : Except Violation Nat := do
  node.checkRoom slot
  let start ← addSize node.start (← node.green.offsetAt slot)
  checkSlot slot
  return start

theorem Query.lift_bind_run {α β : Type} (answer : Except Violation α) (next : α → Query β)
    (memo : Memo) : (liftM answer >>= next) memo =
      match answer with
      | .ok value => next value memo
      | .error violation => .error violation memo := by
  cases answer <;> rfl

/-- The node that is made for a slot. -/
def Node.made (node : Node) (slot : Nat) (memo : Memo) (start : Nat) (green : Green.Node) : Node :=
  .child node slot start (node.address.childAt slot (memo.turn (node.address.child slot))) green

theorem Address.childAt_inj {a b : Address} {i j t u : Nat} (h : a.childAt i t = b.childAt j u) :
    a = b ∧ i = j ∧ t = u := by
  have htree := congrArg Address.tree h
  have hpath := congrArg Address.path h
  have hturns := congrArg Address.turns h
  simp only [Address.childAt, List.cons.injEq] at htree hpath hturns
  exact ⟨Address.eq_of_parts htree hpath.2 hturns.2, hpath.1, hturns.1⟩

theorem Address.child_inj {a b : Address} {i j : Nat} (h : a.child i = b.child j) :
    a = b ∧ i = j := by
  obtain ⟨habove, hslot, -⟩ := Address.childAt_inj h
  exact ⟨habove, hslot⟩

theorem Node.placeNode_of_room {node : Node} {slot : Nat} {room : Unit}
    (hroom : node.checkRoom slot = .ok room) (green : Green.Node) (memo : Memo) :
    node.placeNode slot green memo =
      (match memo[node.address.child slot]? with
      | some kept => (pure kept : Query Node)
      | none => do
        let start ← addSize node.start (← node.green.offsetAt slot)
        checkSlot slot
        let made := node.made slot (← get) start green
        modify fun memo : Memo => memo.keep (node.address.child slot) made
        return made) memo := by
  change EStateM.bind (liftM (node.checkRoom slot)) _ memo = _
  rw [hroom]
  rfl

theorem Node.placedAt?_of_none {node : Node} {slot : Nat} (hnone : node.green.slots[slot]? = none)
    (memo : Memo) : node.placedAt? slot memo = .error (node.green.noSlot slot) memo := by
  unfold placedAt?
  rw [Green.Node.slotAt, Green.Node.slot?, hnone, Query.lift_bind_run]

theorem Node.placedAt?_of_room {node : Node} {slot : Nat} {room : Unit}
    (hroom : node.checkRoom slot = .ok room) {e : Green.Element}
    (found : node.green.slots[slot]? = some e) (memo : Memo) :
    node.placedAt? slot memo = .ok memo[node.address.child slot]? memo := by
  unfold placedAt?
  rw [Green.Node.slotAt, Green.Node.slot?, found, hroom]
  dsimp only
  rw [Query.lift_bind_run]
  dsimp only
  rw [Query.lift_bind_run]
  rfl

/-- What placing does: it looks into the memo, and makes what is not there. -/
theorem Node.placeNode_run (node : Node) (slot : Nat) (green : Green.Node) (memo : Memo) :
    node.placeNode slot green memo =
      match node.checkRoom slot, memo[node.address.child slot]?, node.placing slot with
      | .error violation, _, _ => .error violation memo
      | .ok _, some kept, _ => .ok kept memo
      | .ok _, none, .error violation => .error violation memo
      | .ok _, none, .ok start => .ok (node.made slot memo start green)
        (memo.keep (node.address.child slot) (node.made slot memo start green)) := by
  unfold placing
  cases hroom : node.checkRoom slot with
  | error violation =>
    change EStateM.bind (liftM (node.checkRoom slot)) _ memo = _
    rw [hroom]
    rfl
  | ok _ =>
    rw [Node.placeNode_of_room hroom]
    cases memo[node.address.child slot]? with
    | some kept => rfl
    | none =>
      dsimp only
      rw [Query.lift_bind_run]
      cases node.green.offsetAt slot with
      | error violation => rfl
      | ok offset =>
        dsimp only
        rw [Query.lift_bind_run]
        cases hstart : addSize node.start offset with
        | error violation =>
          simp only [bind, Except.bind, hstart]
        | ok start =>
          dsimp only
          rw [Query.lift_bind_run]
          simp only [bind, Except.bind, hstart]
          cases checkSlot slot <;> rfl

namespace Memo

variable {memo : Memo} {slot : Address} {node : Node}

theorem mem_iff : slot ∈ memo ↔ ∃ kept, memo[slot]? = some kept := by
  change slot ∈ memo.kept ↔ ∃ kept, memo.kept[slot]? = some kept
  rw [Std.HashMap.mem_iff_isSome_getElem?, Option.isSome_iff_exists]

theorem getElem?_eq_none (h : slot ∉ memo) : memo[slot]? = none :=
  Std.HashMap.getElem?_eq_none h

@[simp] theorem not_mem_empty (slot : Address) : slot ∉ (∅ : Memo) := Std.HashMap.not_mem_empty

@[simp] theorem getElem?_empty (slot : Address) : (∅ : Memo)[slot]? = none :=
  Std.HashMap.getElem?_empty

@[simp] theorem turn_empty (slot : Address) : (∅ : Memo).turn slot = 0 := by
  change ((∅ : Std.HashMap Address Nat)[slot]?).getD 0 = 0
  rw [Std.HashMap.getElem?_empty]
  rfl

theorem getElem?_keep_self (memo : Memo) (slot : Address) (node : Node) :
    (memo.keep slot node)[slot]? = some node := Std.HashMap.getElem?_insert_self

theorem getElem?_keep_of_ne {other : Address} (h : other ≠ slot) :
    (memo.keep slot node)[other]? = memo[other]? := by
  change (memo.kept.insert slot node)[other]? = memo.kept[other]?
  rw [Std.HashMap.getElem?_insert, if_neg]
  simpa using Ne.symm h

theorem turn_keep_self (memo : Memo) (slot : Address) (node : Node) :
    (memo.keep slot node).turn slot = memo.turn slot + 1 := by
  change ((memo.made.insert slot (memo.turn slot + 1))[slot]?).getD 0 = _
  rw [Std.HashMap.getElem?_insert_self]
  rfl

theorem turn_keep_of_ne {other : Address} (h : other ≠ slot) :
    (memo.keep slot node).turn other = memo.turn other := by
  change ((memo.made.insert slot (memo.turn slot + 1))[other]?).getD 0 = (memo.made[other]?).getD 0
  rw [Std.HashMap.getElem?_insert, if_neg]
  simpa using Ne.symm h

/-- The addresses that were given to nodes: one for each time that a node was made for a slot. -/
def Gave (memo : Memo) (address : Address) : Prop :=
  ∃ (above : Address) (slot turn : Nat), address = above.childAt slot turn ∧
    turn < memo.turn (above.child slot)

theorem gave_childAt {above : Address} {slot turn : Nat} :
    memo.Gave (above.childAt slot turn) ↔ turn < memo.turn (above.child slot) := by
  constructor
  · rintro ⟨above', slot', turn', hsame, hlt⟩
    obtain ⟨rfl, rfl, rfl⟩ := Address.childAt_inj hsame
    exact hlt
  · exact fun hlt => ⟨above, slot, turn, rfl, hlt⟩

/-- Filling a slot gives one address more: the next one for this slot. -/
theorem gave_keep {above address : Address} {slot : Nat} :
    (memo.keep (above.child slot) node).Gave address ↔
      memo.Gave address ∨ address = above.childAt slot (memo.turn (above.child slot)) := by
  constructor
  · rintro ⟨above', slot', turn, rfl, hlt⟩
    by_cases hslot : above'.child slot' = above.child slot
    · obtain ⟨rfl, rfl, -⟩ := Address.childAt_inj hslot
      rw [turn_keep_self] at hlt
      rcases Nat.lt_succ_iff_lt_or_eq.1 hlt with hlt | rfl
      · exact .inl (gave_childAt.2 hlt)
      · exact .inr rfl
    · rw [turn_keep_of_ne hslot] at hlt
      exact .inl (gave_childAt.2 hlt)
  · rintro (⟨above', slot', turn, rfl, hlt⟩ | rfl)
    · refine gave_childAt.2 ?_
      by_cases hslot : above'.child slot' = above.child slot
      · rw [hslot, turn_keep_self]
        rw [hslot] at hlt
        omega
      · rwa [turn_keep_of_ne hslot]
    · rw [gave_childAt, turn_keep_self]
      omega

/-- **No slot is ever filled again**: for a slot that is not filled no node was made. -/
def Fresh (memo : Memo) : Prop := ∀ slot : Address, memo[slot]? = none → memo.turn slot = 0

theorem fresh_empty : Fresh ∅ := fun slot _ => turn_empty slot

theorem Fresh.keep (h : memo.Fresh) (slot : Address) (node : Node) :
    (memo.keep slot node).Fresh := by
  intro other hnone
  by_cases hsame : other = slot
  · rw [hsame, getElem?_keep_self] at hnone
    cases hnone
  · rw [getElem?_keep_of_ne hsame] at hnone
    rw [turn_keep_of_ne hsame]
    exact h other hnone

/-- A memo grows if each node that is in it stays in it. -/
def Grows (memo memo' : Memo) : Prop :=
  ∀ (slot : Address) (kept : Node), memo[slot]? = some kept → memo'[slot]? = some kept

theorem Grows.refl (memo : Memo) : Grows memo memo := fun _ _ h => h

theorem Grows.trans {a b c : Memo} (hab : Grows a b) (hbc : Grows b c) : Grows a c :=
  fun slot kept h => hbc slot kept (hab slot kept h)

theorem grows_keep (h : memo[slot]? = none) (node : Node) : Grows memo (memo.keep slot node) := by
  intro other kept hother
  have hne : other ≠ slot := by
    rintro rfl
    rw [h] at hother
    cases hother
  rwa [getElem?_keep_of_ne hne]

end Memo

/-- **A node that is given out was in its slot, or it is a new one**, with an address that no node was
given before. -/
theorem Node.placeNode_new {node below : Node} {slot : Nat} {green : Green.Node} {memo memo' : Memo}
    (h : node.placeNode slot green memo = .ok below memo') :
    (memo[node.address.child slot]? = some below ∧ memo' = memo) ∨
    (memo[node.address.child slot]? = none ∧ ¬ memo.Gave below.address ∧
      ∀ address, memo'.Gave address ↔ memo.Gave address ∨ address = below.address) := by
  rw [placeNode_run] at h
  cases hroom : node.checkRoom slot with
  | error violation =>
    rw [hroom] at h
    cases h
  | ok _ =>
    cases hkept : memo[node.address.child slot]? with
    | some kept =>
      rw [hroom, hkept] at h
      cases h
      exact .inl ⟨rfl, rfl⟩
    | none =>
      cases hplacing : node.placing slot with
      | error violation =>
        rw [hroom, hkept, hplacing] at h
        cases h
      | ok start =>
        rw [hroom, hkept, hplacing] at h
        cases h
        refine .inr ⟨rfl, fun hgave => ?_, fun address => Memo.gave_keep⟩
        exact absurd (Memo.gave_childAt.1 hgave) (Nat.lt_irrefl _)

/-- The memo holds nothing but what placing anew gives, and fills no slot twice. -/
structure Tree.Keeps (tree : Tree) (memo : Memo) : Prop where
  fresh : memo.Fresh
  placed : ∀ parent : Node, parent.Stands tree → ∀ slot kept,
    memo[parent.address.child slot]? = some kept → ∃ start head slots,
      parent.green.slots[slot]? = some (.node head slots) ∧ parent.placing slot = .ok start ∧
      kept = .child parent slot start (parent.address.child slot) ⟨head, slots⟩

theorem Tree.keeps_empty (tree : Tree) : tree.Keeps ∅ := by
  refine ⟨Memo.fresh_empty, fun parent _ slot kept h => ?_⟩
  rw [Memo.getElem?_empty] at h
  cases h

theorem Node.made_of_fresh {memo : Memo} (fresh : memo.Fresh) {node : Node} {slot : Nat}
    (hnone : memo[node.address.child slot]? = none) (start : Nat) (green : Green.Node) :
    node.made slot memo start green = .child node slot start (node.address.child slot) green := by
  rw [made, fresh _ hnone]
  rfl

/-! ## Answers -/

namespace Query

variable {tree : Tree} {α β : Type}

/-- From every memo of the tree the query gets to the answer, and to a memo that has grown. -/
def Answers (tree : Tree) (query : Query α) (answer : Except Violation α) : Prop :=
  ∀ memo, tree.Keeps memo → ∃ memo', Memo.Grows memo memo' ∧ tree.Keeps memo' ∧
    query memo = match answer with
      | .ok value => .ok value memo'
      | .error violation => .error violation memo'

namespace Answers

theorem pure (value : α) : Answers tree (Pure.pure value) (.ok value) :=
  fun memo h => ⟨memo, Memo.Grows.refl memo, h, rfl⟩

theorem throw (violation : Violation) :
    Answers tree (MonadExcept.throw violation : Query α) (.error violation) :=
  fun memo h => ⟨memo, Memo.Grows.refl memo, h, rfl⟩

theorem lift (answer : Except Violation α) : Answers tree (liftM answer) answer := by
  cases answer with
  | ok value => exact pure value
  | error violation => exact throw violation

/-- **The answer of two queries, the second of which goes on from the answer of the first.** -/
theorem bind {query : Query α} {next : α → Query β} {answer : Except Violation α}
    {last : α → Except Violation β} (h : Answers tree query answer)
    (hnext : ∀ value, answer = .ok value → Answers tree (next value) (last value)) :
    Answers tree (query >>= next) (answer >>= last) := by
  intro memo hmemo
  obtain ⟨memo', hgrows, hkeeps, hrun⟩ := h memo hmemo
  change ∃ _, _ ∧ _ ∧ EStateM.bind query next memo = _
  rw [EStateM.bind, hrun]
  cases answer with
  | ok value =>
    obtain ⟨memo'', hgrows', hkeeps', hrun'⟩ := hnext value rfl memo' hkeeps
    exact ⟨memo'', hgrows.trans hgrows', hkeeps', hrun'⟩
  | error violation => exact ⟨memo', hgrows, hkeeps, rfl⟩

theorem bind_ok {query : Query α} {next : α → Query β} {value : α} {last : Except Violation β}
    (h : Answers tree query (.ok value)) (hnext : Answers tree (next value) last) :
    Answers tree (query >>= next) last := by
  have hbind : Answers tree (query >>= next) (Except.ok value >>= fun _ => last) :=
    h.bind fun _ hvalue => by cases hvalue; exact hnext
  exact hbind

theorem bind_error {query : Query α} {next : α → Query β} {violation : Violation}
    (h : Answers tree query (.error violation)) :
    Answers tree (query >>= next) (.error violation) := by
  have hbind : Answers tree (query >>= next) (Except.error violation >>= fun _ => .error violation) :=
    h.bind fun _ hvalue => by cases hvalue
  exact hbind

theorem map {query : Query α} {answer : Except Violation α} (f : α → β)
    (h : Answers tree query answer) : Answers tree (f <$> query) (f <$> answer) := by
  have hbind := h.bind fun value _ => pure (f value)
  cases answer <;> exact hbind

end Answers

end Query

/-! ## Placing -/

section

variable {tree : Tree} {node : Node}

theorem Tree.Keeps.keep {memo : Memo} (h : tree.Keeps memo) (standing : node.Stands tree)
    {slot start : Nat} {head : Green.Head} {slots : Array Green.Element}
    (found : node.green.slots[slot]? = some (.node head slots))
    (hplacing : node.placing slot = .ok start) :
    tree.Keeps (memo.keep (node.address.child slot)
      (.child node slot start (node.address.child slot) ⟨head, slots⟩)) := by
  refine ⟨h.fresh.keep _ _, fun parent hparent slot' kept hkept => ?_⟩
  by_cases hsame : parent.address.child slot' = node.address.child slot
  · rw [hsame, Memo.getElem?_keep_self, Option.some_inj] at hkept
    obtain ⟨haddress, rfl⟩ := Address.child_inj hsame
    rw [hparent.address_eq_iff standing] at haddress
    obtain rfl := hparent.eq_of_path standing haddress
    exact ⟨start, head, slots, found, hplacing, hkept.symm⟩
  · rw [Memo.getElem?_keep_of_ne hsame] at hkept
    exact h.placed parent hparent slot' kept hkept

/-- **Placing has the answer of placing anew.** -/
theorem Node.placeNode_answer (standing : node.Stands tree) {slot : Nat} {head : Green.Head}
    {slots : Array Green.Element} (found : node.green.slots[slot]? = some (.node head slots)) :
    Query.Answers tree (node.placeNode slot ⟨head, slots⟩) ((node.placing slot).map fun start =>
      .child node slot start (node.address.child slot) ⟨head, slots⟩) := by
  intro memo hmemo
  rw [Node.placeNode_run]
  cases hroom : node.checkRoom slot with
  | error violation =>
    have hplacing : node.placing slot = .error violation := by
      rw [Node.placing, hroom]
      rfl
    exact ⟨memo, Memo.Grows.refl memo, hmemo, by rw [hplacing]; rfl⟩
  | ok _ =>
    cases hkept : memo[node.address.child slot]? with
    | some kept =>
      obtain ⟨start, head', slots', hfound, hplacing, rfl⟩ := hmemo.placed node standing slot kept hkept
      rw [found, Option.some_inj] at hfound
      cases hfound
      refine ⟨memo, Memo.Grows.refl memo, hmemo, ?_⟩
      rw [hplacing]
      rfl
    | none =>
      cases hplacing : node.placing slot with
      | error violation => exact ⟨memo, Memo.Grows.refl memo, hmemo, rfl⟩
      | ok start =>
        dsimp only
        rw [Node.made_of_fresh hmemo.fresh hkept]
        exact ⟨_, Memo.grows_keep hkept _, hmemo.keep standing found hplacing, rfl⟩

end

/-! ## Trees that fit -/

/-- A tree fits if its green root is tidy at every depth and ends within bounds. -/
structure Tree.Fits (tree : Tree) : Prop where
  wellFormed : tree.green.WellFormed
  stop_le : tree.start + tree.green.width ≤ maxSize

section

variable {tree : Tree} {node : Node}

theorem Node.Stands.wellFormed (standing : node.Stands tree) (fits : tree.Fits) :
    node.green.WellFormed := fits.wellFormed.at? standing.at?

theorem Node.Stands.stop_le (standing : node.Stands tree) (fits : tree.Fits) :
    node.start + node.green.width ≤ maxSize := by
  induction standing with
  | root => exact fits.stop_le
  | @child parent slot head slots standing found ih =>
    have htidy := (standing.wellFormed fits).tidy
    have hsucc := Green.Node.before_succ found
    have hle := parent.green.before_le (slot + 1)
    rw [← htidy.width_eq, hsucc] at hle
    change parent.start + parent.green.before slot + (Green.Element.node head slots).width ≤ maxSize
    omega

theorem Node.Stands.span_ok (standing : node.Stands tree) (fits : tree.Fits) :
    node.span = .ok ⟨node.start, node.start + node.width, Nat.le_add_right _ _⟩ :=
  if_pos (standing.stop_le fits)

theorem Node.Stands.addSize_before (standing : node.Stands tree) (fits : tree.Fits) (slot : Nat) :
    addSize node.start (node.green.before slot) = .ok (node.start + node.green.before slot) := by
  have hstop := standing.stop_le fits
  have hle := node.green.before_le slot
  rw [(standing.wellFormed fits).tidy.width_eq] at hstop
  exact if_pos (by omega)

theorem Token.Stands.stop_le {token : Token} (standing : token.Stands tree) (fits : tree.Fits) :
    token.start + token.green.width ≤ maxSize := by
  cases standing with
  | @child parent slot green standing found =>
    have hstop := standing.stop_le fits
    have htidy := (standing.wellFormed fits).tidy
    have hsucc := Green.Node.before_succ found
    have hle := parent.green.before_le (slot + 1)
    rw [← htidy.width_eq, hsucc] at hle
    change parent.start + parent.green.before slot + (Green.Element.token green).width ≤ maxSize
    omega

/-- The room for a number of children. -/
def Rooms.ofCount : Nat → Rooms
  | 0 => none
  | 1 => one
  | count => row count

theorem Rooms.ofGreen_eq {green : Green.Node} (h : green.Tidy) :
    Rooms.ofGreen green = Rooms.ofCount green.arity := by
  have hshape := h.shape
  unfold Rooms.ofGreen Green.Node.listShape?
  unfold Green.Node.HasShape at hshape
  split_ifs at hshape with hkind
  · obtain ⟨s, hs, hlist⟩ := hshape
    obtain ⟨-, -, hsize⟩ := Green.listShapeOf_ok hlist
    rw [hs, hsize, Green.Node.arity]
    generalize green.slots.size = count
    rcases count with - | - | count
    · rfl
    · rfl
    · dsimp only
      split_ifs <;> rfl
  · rw [hshape]
    generalize green.arity = count
    rcases count with - | - | count <;> rfl

theorem Rooms.size_ofGreen {green : Green.Node} (h : green.Tidy) :
    (Rooms.ofGreen green).size = green.arity := by
  rw [Rooms.ofGreen_eq h]
  generalize green.arity = count
  rcases count with - | - | count <;> rfl

theorem Node.Stands.checkRoom_eq (standing : node.Stands tree) (fits : tree.Fits) {slot : Nat}
    (h : slot < node.arity) : node.checkRoom slot = .ok () := by
  unfold Node.checkRoom
  dsimp only
  rw [Rooms.size_ofGreen (standing.wellFormed fits).tidy]
  exact if_pos h

theorem Node.placing_eq (standing : node.Stands tree) (fits : tree.Fits) {slot : Nat}
    {e : Green.Element} (found : node.green.slots[slot]? = some e) :
    node.placing slot = (checkSlot slot).map fun _ => node.start + node.green.before slot := by
  have htidy := (standing.wellFormed fits).tidy
  have hslot := Green.Node.lt_arity_of_slot found
  rw [placing, standing.checkRoom_eq fits hslot, htidy.offsetAt_eq hslot]
  change (addSize node.start (node.green.before slot)).bind _ = _
  rw [standing.addSize_before fits slot]
  cases checkSlot slot <;> rfl

end

/-! ## Slot numbers -/

/-- A tree is narrow if all slot numbers in it can be kept in a handle. -/
def Tree.Narrow (tree : Tree) : Prop :=
  ∀ path node, tree.green.toElement.at? path = some (Green.Node.toElement node) →
    node.arity ≤ UInt32.size

namespace Query

variable {tree : Tree} {α β : Type}

/-- The query has the answer, unless it comes upon a slot number that is too large, in a tree that
is not narrow. -/
def Gives (tree : Tree) (query : Query α) (answer : Except Violation α) : Prop :=
  ∃ given, Answers tree query given ∧
    (given = answer ∨ given = .error .slotTooLarge ∧ ¬ tree.Narrow)

theorem Answers.gives {query : Query α} {answer : Except Violation α}
    (h : Answers tree query answer) : Gives tree query answer := ⟨answer, h, .inl rfl⟩

namespace Gives

theorem run {query : Query α} {value : α} (h : Gives tree query (.ok value)) {memo : Memo}
    (hmemo : tree.Keeps memo) : ∃ memo', query memo = .ok value memo' ∨
      ¬ tree.Narrow ∧ query memo = .error .slotTooLarge memo' := by
  obtain ⟨given, hanswers, hgiven⟩ := h
  obtain ⟨memo', -, -, hrun⟩ := hanswers memo hmemo
  refine ⟨memo', ?_⟩
  rcases hgiven with rfl | ⟨rfl, hwide⟩
  · exact .inl hrun
  · exact .inr ⟨hwide, hrun⟩

theorem answers {query : Query α} {answer : Except Violation α} (h : Gives tree query answer)
    (narrow : tree.Narrow) : Answers tree query answer := by
  obtain ⟨given, hgiven, rfl | ⟨-, hwide⟩⟩ := h
  · exact hgiven
  · exact absurd narrow hwide

theorem pure (value : α) : Gives tree (Pure.pure value) (.ok value) := (Answers.pure value).gives

theorem throw (violation : Violation) :
    Gives tree (MonadExcept.throw violation : Query α) (.error violation) :=
  (Answers.throw violation).gives

theorem lift (answer : Except Violation α) : Gives tree (liftM answer) answer :=
  (Answers.lift answer).gives

theorem bind_ok {query : Query α} {next : α → Query β} {value : α} {last : Except Violation β}
    (h : Gives tree query (.ok value)) (hnext : Gives tree (next value) last) :
    Gives tree (query >>= next) last := by
  obtain ⟨given, hgiven, rfl | ⟨rfl, hwide⟩⟩ := h
  · obtain ⟨given', hgiven', hlast⟩ := hnext
    exact ⟨given', hgiven.bind_ok hgiven', hlast⟩
  · exact ⟨_, hgiven.bind_error, .inr ⟨rfl, hwide⟩⟩

theorem bind_error {query : Query α} {next : α → Query β} {violation : Violation}
    (h : Gives tree query (.error violation)) :
    Gives tree (query >>= next) (.error violation) := by
  obtain ⟨given, hgiven, rfl | ⟨rfl, hwide⟩⟩ := h
  · exact hgiven.bind_error.gives
  · exact ⟨_, hgiven.bind_error, .inr ⟨rfl, hwide⟩⟩

theorem map {query : Query α} {answer : Except Violation α} (f : α → β)
    (h : Gives tree query answer) : Gives tree (f <$> query) (f <$> answer) := by
  obtain ⟨given, hgiven, rfl | ⟨rfl, hwide⟩⟩ := h
  · exact (hgiven.map f).gives
  · exact ⟨_, hgiven.map f, .inr ⟨rfl, hwide⟩⟩

end Gives

/-- The query has the answer; in a tree that is not narrow it may fail instead. -/
def Settles (tree : Tree) (query : Query α) (answer : Except Violation α) : Prop :=
  ∃ given, Answers tree query given ∧
    (given = answer ∨ (∃ violation, given = .error violation) ∧ ¬ tree.Narrow)

theorem Gives.settles {query : Query α} {answer : Except Violation α}
    (h : Gives tree query answer) : Settles tree query answer := by
  obtain ⟨given, hgiven, hsame | ⟨hfails, hwide⟩⟩ := h
  · exact ⟨given, hgiven, .inl hsame⟩
  · exact ⟨given, hgiven, .inr ⟨⟨_, hfails⟩, hwide⟩⟩

namespace Settles

theorem answers {query : Query α} {answer : Except Violation α} (h : Settles tree query answer)
    (narrow : tree.Narrow) : Answers tree query answer := by
  obtain ⟨given, hgiven, rfl | ⟨-, hwide⟩⟩ := h
  · exact hgiven
  · exact absurd narrow hwide

theorem pure (value : α) : Settles tree (Pure.pure value) (.ok value) := (Gives.pure value).settles

theorem bind_ok {query : Query α} {next : α → Query β} {value : α} {last : Except Violation β}
    (h : Settles tree query (.ok value)) (hnext : Settles tree (next value) last) :
    Settles tree (query >>= next) last := by
  obtain ⟨given, hgiven, rfl | ⟨⟨violation, rfl⟩, hwide⟩⟩ := h
  · obtain ⟨given', hgiven', hlast⟩ := hnext
    exact ⟨given', hgiven.bind_ok hgiven', hlast⟩
  · exact ⟨_, hgiven.bind_error, .inr ⟨⟨violation, rfl⟩, hwide⟩⟩

theorem bind_error {query : Query α} {next : α → Query β} {violation : Violation}
    (h : Settles tree query (.error violation)) :
    Settles tree (query >>= next) (.error violation) := by
  obtain ⟨given, hgiven, rfl | ⟨⟨violation', rfl⟩, hwide⟩⟩ := h
  · exact ⟨_, hgiven.bind_error, .inl rfl⟩
  · exact ⟨_, hgiven.bind_error, .inr ⟨⟨violation', rfl⟩, hwide⟩⟩

theorem mapM {query : α → Query β} {f : α → β} {row : List α}
    (h : ∀ x ∈ row, Settles tree (query x) (.ok (f x))) :
    Settles tree (row.mapM query) (.ok (row.map f)) := by
  induction row with
  | nil => exact pure []
  | cons x row ih =>
    obtain ⟨hfirst, hrest⟩ := List.forall_mem_cons.1 h
    rw [List.mapM_cons]
    exact hfirst.bind_ok ((ih hrest).bind_ok (pure _))

end Settles

end Query

end LosslessSyntax.Placed
