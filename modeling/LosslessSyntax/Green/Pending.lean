import LosslessSyntax.Green.Equality

/-!
# Work that is put off

Trees can be too deep to be compared, hashed or written by going down into them. So the nodes in the
slots of a node are put off: they wait in a row until their turn comes. Where the text is written it
is the rest of the row that waits, under the slots of the node.

* `Green.pairsOf?`: the pairs of nodes that are left to compare in two rows;
* `Green.Node.look`: one look at two nodes;
* `Green.equalPairs`: equality of all pairs that wait, in any order;
* `Green.feed`: hashing of all nodes that wait, the last one first;
* `Green.spell`, `Green.Node.display`: the writing of rows that wait on a stack, and of a node.
-/

namespace LosslessSyntax.Green

/-- The pairs of nodes in two rows, slot by slot; there are none if the rows have different lengths,
or tokens that are not alike, or a token and a node in one slot. -/
def pairsOf? : List Element → List Element → Option (List (Node × Node))
  | [], [] => some []
  | .token a :: as, .token b :: bs => if a.alike b then pairsOf? as bs else none
  | .node a as :: row, .node b bs :: row' =>
    (pairsOf? row row').map ((⟨a, as⟩, ⟨b, bs⟩) :: ·)
  | _, _ => none

/-- What is left to compare after one look at two nodes, unless the look tells them apart. Where
identities are trusted, the same node needs no look. -/
def Node.look (trusted : Bool) (a b : Node) : Option (List (Node × Node)) :=
  if trusted && a.head.id == b.head.id then some []
  else if a.head.alike b.head then pairsOf? a.slots.toList b.slots.toList
  else none

/-! ## Why the work ends -/

/-- How much there is in the nodes of a row. -/
noncomputable def weight : List Node → Nat
  | [] => 0
  | node :: row => sizeOf node + weight row

theorem weight_cons (node : Node) (row : List Node) :
    weight (node :: row) = sizeOf node + weight row := rfl

theorem weight_append (row row' : List Node) : weight (row ++ row') = weight row + weight row' := by
  induction row with
  | nil => exact (Nat.zero_add _).symm
  | cons node row ih => rw [List.cons_append, weight_cons, ih, weight_cons, Nat.add_assoc]

theorem weight_eraseIdx {pairs : List (Node × Node)} {i : Nat} {a b : Node}
    (h : pairs[i]? = some (a, b)) :
    weight (pairs.map Prod.fst) = sizeOf a + weight ((pairs.eraseIdx i).map Prod.fst) := by
  induction pairs generalizing i with
  | nil => cases h
  | cons pair pairs ih =>
    cases i with
    | zero =>
      cases h
      rw [List.map_cons, weight_cons, List.eraseIdx_cons_zero]
    | succ i =>
      have hrest := ih (i := i) h
      rw [List.map_cons, weight_cons, List.eraseIdx_cons_succ, List.map_cons, weight_cons, hrest]
      omega

theorem weight_pairsOf? {as bs : List Element} {pairs : List (Node × Node)}
    (h : pairsOf? as bs = some pairs) : weight (pairs.map Prod.fst) < sizeOf as := by
  fun_induction pairsOf? as bs generalizing pairs with
  | case1 =>
    cases h
    exact Nat.zero_lt_one
  | case2 a as b bs alike ih =>
    have hless := ih h
    simp only [List.cons.sizeOf_spec]
    omega
  | case3 => cases h
  | case4 a as row b bs row' ih =>
    obtain ⟨rest, hrest, rfl⟩ := Option.map_eq_some_iff.1 h
    have hless := ih hrest
    rw [List.map_cons, weight_cons]
    simp only [List.cons.sizeOf_spec, Element.node.sizeOf_spec, Node.mk.sizeOf_spec]
    omega
  | case5 => cases h

/-- What is left after a look is less than what was looked at. -/
theorem weight_look {trusted : Bool} {a b : Node} {more : List (Node × Node)}
    (h : a.look trusted b = some more) : weight (more.map Prod.fst) < sizeOf a := by
  obtain ⟨head, ⟨slots⟩⟩ := a
  simp only [Node.mk.sizeOf_spec, Array.mk.sizeOf_spec]
  unfold Node.look at h
  split at h
  · cases h
    exact Nat.lt_of_lt_of_le Nat.zero_lt_one (by omega)
  · split at h
    · have hless : weight (more.map Prod.fst) < sizeOf slots := weight_pairsOf? h
      omega
    · cases h

theorem weight_slots (node : Node) :
    weight (node.slots.toList.filterMap Element.node?) < sizeOf node := by
  obtain ⟨head, ⟨slots⟩⟩ := node
  have hrow : weight (slots.filterMap Element.node?) < sizeOf slots := by
    induction slots with
    | nil => exact Nat.zero_lt_one
    | cons e rest ih =>
      cases e with
      | token t =>
        rw [List.filterMap_cons_none rfl]
        simp only [List.cons.sizeOf_spec]
        omega
      | node below slots =>
        change weight (⟨below, slots⟩ :: rest.filterMap Element.node?) < _
        rw [weight_cons]
        simp only [List.cons.sizeOf_spec, Element.node.sizeOf_spec, Node.mk.sizeOf_spec]
        omega
  simp only [Node.mk.sizeOf_spec, Array.mk.sizeOf_spec]
  omega

/-! ## The work -/

/-- Whether all pairs that wait are equal. `pick` gives the number of the pair that is looked at
next, and `trusts` says where identities are trusted; what is left after a look waits behind the
others. -/
def equalPairs (pick : List (Node × Node) → Nat) (trusts : Node → Node → Bool)
    (pending : List (Node × Node)) : Bool :=
  match _next : pending[pick pending % pending.length]? with
  | none => true
  | some (a, b) =>
    match _left : a.look (trusts a b) b with
    | none => false
    | some more =>
      equalPairs pick trusts (pending.eraseIdx (pick pending % pending.length) ++ more)
termination_by weight (pending.map Prod.fst)
decreasing_by
  have hless := weight_look _left
  rw [weight_eraseIdx _next, List.map_append, weight_append]
  omega

/-- What a hash function makes of the nodes that wait. The last one comes first, and the nodes in its
slots wait after all others. -/
def feed {σ : Type} (write : σ → Word → σ) (pending : List Node) (state : σ) : σ :=
  match _last : pending.getLast? with
  | none => state
  | some node =>
    feed write (pending.dropLast ++ node.slots.toList.filterMap Element.node?)
      ((Element.headWords node.head node.slots.toList).foldl write state)
termination_by weight pending
decreasing_by
  have hless := weight_slots node
  obtain ⟨before, rfl⟩ := List.getLast?_eq_some_iff.1 _last
  rw [List.dropLast_concat, weight_append, weight_append, weight_cons]
  omega

/-- Hands the texts of the tokens in the rows of a stack to a writer, from the top row down. The slots of
a node go on top of what is left of the row it stands in. A writer that fails puts an end to it. -/
def spell {m : Type → Type} [Monad m] (write : String → m Unit) : List (List Element) → m Unit
  | [] => return
  | [] :: rows => spell write rows
  | (.token t :: row) :: rows => do
    write t.text
    spell write (row :: rows)
  | (.node _ ⟨slots⟩ :: row) :: rows => spell write (slots :: row :: rows)
termination_by rows => sizeOf rows

/-- Hands the text of a node to a writer. -/
def Node.spell {m : Type → Type} [Monad m] (node : Node) (write : String → m Unit) : m Unit :=
  Green.spell write [node.slots.toList]

/-- The text of a node as it is written. -/
def Node.display (node : Node) : String :=
  let writing : StateM String Unit := node.spell fun text => modify (· ++ text)
  (writing.run "").2

end LosslessSyntax.Green
