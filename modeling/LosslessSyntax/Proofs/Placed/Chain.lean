import LosslessSyntax.Proofs.Placed.Asking

/-!
# Ways through a row

From each thing in a row a query finds the one beside it. Who follows such a query goes through the
row; who follows the query for the other side comes back the same way.

* `Placed.Query.chain`: what is met on the way from one thing to the one beside it;
* **`Placed.Query.chain_gives`**, **`Placed.Query.chain_gives_back`**: the way goes through the row;
* `Placed.Lined`: things that stand in the rows of the nodes above them;
* `Placed.Surrounds`: a thing in its row, with the ways to both ends;
* **`Placed.Lined.surrounds`**, **`Placed.Lined.inverse`**: such ways, and that they are each other's
  way back.
-/

namespace LosslessSyntax.Placed

section

variable {α : Type} {row before after before' after' : List α} {a b : α}

/-! ## Cuts of a row without repetitions -/

theorem cut_unique (nodup : row.Nodup) (h : row = before ++ a :: after)
    (h' : row = before' ++ a :: after') : before = before' ∧ after = after' := by
  have hbefore : a ∉ before := fun hmem => by
    rw [h, List.nodup_append] at nodup
    exact nodup.2.2 a hmem a List.mem_cons_self rfl
  have hafter : a ∉ after := by
    rw [h, List.nodup_append, List.nodup_cons] at nodup
    exact nodup.2.1.1
  obtain ⟨hfirst, -, hlast⟩ := (List.append_cons_inj_of_notMem hbefore hafter).1 (h.symm.trans h')
  exact ⟨hfirst, hlast⟩

/-- What follows on a thing, by where the two stand. -/
theorem head?_eq_some_iff_pair (nodup : row.Nodup) (h : row = before ++ a :: after) :
    after.head? = some b ↔ [a, b] <:+: row := by
  constructor
  · intro hb
    obtain ⟨rest, rfl⟩ := List.head?_eq_some_iff.1 hb
    exact ⟨before, rest, by rw [h, List.append_assoc]; rfl⟩
  · rintro ⟨front, rest, hrow⟩
    have hcut : row = front ++ a :: b :: rest := by
      rw [← hrow, List.append_assoc]
      rfl
    rw [(cut_unique nodup h hcut).2]
    rfl

theorem getLast?_eq_some_iff_pair (nodup : row.Nodup) (h : row = before ++ b :: after) :
    before.getLast? = some a ↔ [a, b] <:+: row := by
  constructor
  · intro ha
    obtain ⟨rest, rfl⟩ := List.getLast?_eq_some_iff.1 ha
    exact ⟨rest, after, by rw [h]; simp⟩
  · rintro ⟨front, rest, hrow⟩
    have hcut : row = (front ++ [a]) ++ b :: rest := by
      rw [← hrow]
      simp
    rw [(cut_unique nodup h hcut).1]
    exact List.getLast?_concat

end

/-! ## The way -/

namespace Query

variable {α : Type}

/-- The thing at hand; in its place comes the one that a query finds beside it. -/
def goOn (beside : α → Query (Option α)) : Option α → Query (Option α × Option α)
  | none => return (none, none)
  | some thing => return (some thing, ← beside thing)

/-- The things on the way that starts at the one found first and goes on to the one beside it each
time; nothing comes after its end. -/
def chain (first : Query (Option α)) (beside : α → Query (Option α)) (count : Nat) :
    Query (List (Option α)) := do
  asking (goOn beside) count (← first)

/-- **Who goes on from one thing to the next goes through a row**, if it starts at its first thing and
each thing has the one after it beside it. -/
theorem chain_gives {tree : Tree} {row : List α} {first : Query (Option α)}
    {beside : α → Query (Option α)} (hfirst : Gives tree first (.ok row.head?))
    (hbeside : ∀ before thing after, row = before ++ thing :: after →
      Gives tree (beside thing) (.ok after.head?)) (count : Nat) :
    Gives tree (chain first beside count) (.ok ((List.range count).map (row[·]?))) := by
  let Left (state : Option α) (rest : List α) : Prop := state = rest.head? ∧ rest <:+ row
  have step : ∀ state rest, Left state rest → ∃ last,
      Gives tree (goOn beside state) (.ok (rest.head?, last)) ∧ Left last rest.tail := by
    rintro _ rest ⟨rfl, before, hrow⟩
    cases rest with
    | nil => exact ⟨none, Gives.pure _, rfl, before, hrow⟩
    | cons thing rest =>
      refine ⟨rest.head?, (hbeside before thing rest hrow.symm).bind_ok (Gives.pure _), rfl,
        before ++ [thing], ?_⟩
      rw [← hrow, List.append_assoc]
      rfl
  have left : Left row.head? row := ⟨rfl, List.suffix_rfl⟩
  exact hfirst.bind_ok ((chains_gives tree).asking_row step left count)

/-- **Who goes back goes through the row from its end.** -/
theorem chain_gives_back {tree : Tree} {row : List α} {last : Query (Option α)}
    {beside : α → Query (Option α)} (hlast : Gives tree last (.ok row.getLast?))
    (hbeside : ∀ before thing after, row = before ++ thing :: after →
      Gives tree (beside thing) (.ok before.getLast?)) (count : Nat) :
    Gives tree (chain last beside count) (.ok ((List.range count).map (row.reverse[·]?))) := by
  refine chain_gives (List.head?_reverse ▸ hlast) (fun rest thing front hrow => ?_) count
  have hcut : row = front.reverse ++ thing :: rest.reverse := by
    rw [← List.reverse_reverse row, hrow]
    simp
  rw [← List.reverse_reverse front, List.head?_reverse]
  exact hbeside _ _ _ hcut

end Query

/-! ## Rows below nodes -/

section

variable {α : Type} {tree : Tree} {memo : Memo} {Stands : α → Prop} {above : α → Option Node}
  {row : Node → List α} {next previous : α → Query (Option α)}

/-- Things of a tree that stand in the rows of the nodes above them, each one once. Two queries find
what is beside them in the row; they find nothing where there is no node above. -/
structure Lined (tree : Tree) (Stands : α → Prop) (above : α → Option Node) (row : Node → List α)
    (next previous : α → Query (Option α)) : Prop where
  above_eq : ∀ {parent thing}, thing ∈ row parent → above thing = some parent
  nodup : ∀ parent, (row parent).Nodup
  stands : ∀ {parent thing other}, Stands thing → above thing = some parent → other ∈ row parent →
    Stands other
  beside : ∀ {parent thing}, Stands thing → above thing = some parent → ∃ before after,
    row parent = before ++ thing :: after ∧ Query.Gives tree (next thing) (.ok after.head?) ∧
      Query.Gives tree (previous thing) (.ok before.getLast?)
  alone : ∀ {thing}, above thing = none → next thing = pure none ∧ previous thing = pure none

/-- A thing in its row: onward from it the rest of the row is met, and backward what is before it, each
up to the end and nothing from there on. -/
structure Surrounds (tree : Tree) (memo : Memo) (row : List α)
    (next previous : α → Query (Option α)) (thing : α) (before after : List α) : Prop where
  cut : row = before ++ thing :: after
  onward : ∀ count, Query.GivesFrom tree memo (Query.chain (next thing) next count)
    ((List.range count).map (after[·]?))
  backward : ∀ count, Query.GivesFrom tree memo (Query.chain (previous thing) previous count)
    ((List.range count).map (before.reverse[·]?))

namespace Lined

variable (lined : Lined tree Stands above row next previous)
include lined

/-- **What is beside a thing**, wherever its row is cut at it. -/
theorem beside_of_cut {parent : Node} {thing : α} {before after : List α} (standing : Stands thing)
    (cut : row parent = before ++ thing :: after) :
    Query.Gives tree (next thing) (.ok after.head?) ∧
      Query.Gives tree (previous thing) (.ok before.getLast?) := by
  have habove : above thing = some parent := lined.above_eq (cut ▸ by simp)
  obtain ⟨before', after', hcut, hnext, hprevious⟩ := lined.beside standing habove
  obtain ⟨rfl, rfl⟩ := cut_unique (lined.nodup parent) cut hcut
  exact ⟨hnext, hprevious⟩

/-- **The ways from a thing to both ends of its row.** -/
theorem surrounds {parent : Node} {thing : α} (standing : Stands thing)
    (habove : above thing = some parent) (keeps : tree.Keeps memo) : ∃ before after,
    Surrounds tree memo (row parent) next previous thing before after := by
  obtain ⟨before, after, cut, hnext, hprevious⟩ := lined.beside standing habove
  have hstands : ∀ {other}, other ∈ row parent → Stands other := lined.stands standing habove
  refine ⟨before, after, cut, fun count => ?_, fun count => ?_⟩
  · refine (Query.chain_gives hnext (fun front other rest hafter => ?_) count).givesFrom keeps
    have hcut : row parent = (before ++ thing :: front) ++ other :: rest := by
      rw [cut, hafter]
      simp
    exact (lined.beside_of_cut (hstands (hcut ▸ by simp)) hcut).1
  · refine (Query.chain_gives_back hprevious (fun front other rest hbefore => ?_) count).givesFrom
      keeps
    have hcut : row parent = front ++ other :: (rest ++ thing :: after) := by
      rw [cut, hbefore]
      simp
    exact (lined.beside_of_cut (hstands (hcut ▸ by simp)) hcut).2

/-- Two things are next to each other in the row of either of them, or nowhere. -/
theorem exists_pair_iff {parent : Node} {a b thing : α} (hthing : thing ∈ [a, b])
    (habove : above thing = some parent) :
    (∃ parent, [a, b] <:+: row parent) ↔ [a, b] <:+: row parent := by
  refine ⟨?_, fun h => ⟨parent, h⟩⟩
  rintro ⟨parent', hrow⟩
  have hparent := lined.above_eq (hrow.subset hthing)
  rw [habove, Option.some_inj] at hparent
  exact hparent ▸ hrow

theorem not_exists_pair {a b thing : α} (hthing : thing ∈ [a, b]) (habove : above thing = none) :
    ¬ ∃ parent, [a, b] <:+: row parent := by
  rintro ⟨parent, hrow⟩
  have hparent := lined.above_eq (hrow.subset hthing)
  rw [habove] at hparent
  cases hparent

theorem next_iff {a : α} (ha : Stands a) : ∃ found, Query.Gives tree (next a) (.ok found) ∧
    ∀ b, found = some b ↔ ∃ parent, [a, b] <:+: row parent := by
  cases habove : above a with
  | none =>
    exact ⟨none, (lined.alone habove).1 ▸ Query.Gives.pure none,
      fun b => iff_of_false nofun (lined.not_exists_pair List.mem_cons_self habove)⟩
  | some parent =>
    obtain ⟨before, after, cut, hnext, -⟩ := lined.beside ha habove
    refine ⟨after.head?, hnext, fun b => ?_⟩
    rw [head?_eq_some_iff_pair (lined.nodup parent) cut,
      lined.exists_pair_iff List.mem_cons_self habove]

theorem previous_iff {b : α} (hb : Stands b) : ∃ found, Query.Gives tree (previous b) (.ok found) ∧
    ∀ a, found = some a ↔ ∃ parent, [a, b] <:+: row parent := by
  have hlast : ∀ a : α, b ∈ [a, b] := by simp
  cases habove : above b with
  | none =>
    exact ⟨none, (lined.alone habove).2 ▸ Query.Gives.pure none,
      fun a => iff_of_false nofun (lined.not_exists_pair (hlast a) habove)⟩
  | some parent =>
    obtain ⟨before, after, cut, -, hprevious⟩ := lined.beside hb habove
    refine ⟨before.getLast?, hprevious, fun a => ?_⟩
    rw [getLast?_eq_some_iff_pair (lined.nodup parent) cut,
      lined.exists_pair_iff (hlast a) habove]

/-- **Going on and going back are each other's way back.** -/
theorem inverse {a b : α} (ha : Stands a) (hb : Stands b) (keeps : tree.Keeps memo) :
    ∃ onward backward, Query.GivesFrom tree memo (next a) onward ∧
      Query.GivesFrom tree memo (previous b) backward ∧ (onward = some b ↔ backward = some a) := by
  obtain ⟨onward, hnext, honward⟩ := lined.next_iff ha
  obtain ⟨backward, hprevious, hbackward⟩ := lined.previous_iff hb
  exact ⟨onward, backward, hnext.givesFrom keeps, hprevious.givesFrom keeps,
    (honward b).trans (hbackward a).symm⟩

end Lined

end

end LosslessSyntax.Placed
