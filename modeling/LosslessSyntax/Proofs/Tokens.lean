import LosslessSyntax.Proofs.Facade
import LosslessSyntax.Proofs.Placed.Chain
import LosslessSyntax.Proofs.Placed.Preorder

/-!
# From token to token

Who starts at the first token of a tree and goes on to the next one as long as there is one comes by
all tokens of the tree, each one once and in the order of the text, those without text as well; from
the last token back it is the same row from its end.

* `Placed.Token.chain`: the tokens on such a way;
* **`Placed.Tree.beside_of_split`**: the tokens on both sides of a token, wherever the row is cut;
* **`Placed.Tree.next_chain_gives`**, `Placed.Tree.previous_chain_gives`: what is met on the way;
* **`Session.tokens_enumerated`**: the ways through the trees of all sessions.
-/

namespace LosslessSyntax

namespace Placed

/-- The token at hand; in its place comes the one that a query finds beside it. -/
def Token.goOn (beside : Token → Query (Option Token)) :
    Option Token → Query (Option Token × Option Token)
  | none => return (none, none)
  | some token => return (some token, ← beside token)

/-- The tokens on the way that starts at the token found first and goes on to the one beside it each
time; nothing comes after its end. -/
def Token.chain (first : Query (Option Token)) (beside : Token → Query (Option Token))
    (count : Nat) : Query (List (Option Token)) := do
  Query.asking (goOn beside) count (← first)

section

variable {tree : Tree}

/-! ## The row of the tokens -/

theorem Node.Stands.mem_tokens_iff {node : Node} (standing : node.Stands tree) {t : Token} :
    t ∈ node.tokens ↔ t.Stands tree ∧ node.path <+: t.path := by
  have hnode : (Element.node node).Stands tree := standing
  constructor
  · intro h
    have ht : (Element.token t).Stands tree := standing.of_mem_tokens h
    obtain ⟨part, hpart, hself⟩ := List.mem_filterMap.1 h
    cases part with
    | node n => cases hself
    | token t' =>
      cases hself
      exact ⟨ht, (hnode.mem_parts_iff ht).1 (List.mem_cons_of_mem _ hpart)⟩
  · rintro ⟨ht, hbelow⟩
    have htoken : (Element.token t).Stands tree := ht
    have hpart := (hnode.mem_parts_iff htoken).2 hbelow
    exact List.mem_filterMap.2 ⟨.token t, (List.mem_cons.1 hpart).resolve_left nofun, rfl⟩

theorem Tree.root_tokens_nodup (tree : Tree) : tree.root.tokens.Nodup := by
  have hpaths : (tree.root.tokens.map Token.path).Nodup := by
    rw [Node.tokens_path .root]
    exact tree.tokens_nodup
  exact hpaths.of_map _

/-- The tokens of a node stand in the row of all tokens without a gap. -/
theorem Node.Stands.tokens_infix {node : Node} (standing : node.Stands tree) :
    node.tokens <:+: tree.root.tokens := by
  rw [standing.tokens_cut (Nat.zero_le _), ← node.tokensFrom_zero]
  cases node with
  | root number start green => exact (List.suffix_append _ _).isInfix
  | child parent index start address green =>
    rw [tokensOnward]
    exact List.infix_append' _ _ _

/-- **The tokens beside a token**, wherever the row is cut at it. -/
theorem Tree.beside_of_split {t : Token} (fits : tree.Fits) {before after : List Token}
    (split : tree.root.tokens = before ++ t :: after) :
    Query.Gives tree t.next? (.ok after.head?) ∧
      Query.Gives tree t.previous? (.ok before.getLast?) := by
  have standing : t.Stands tree := Node.Stands.of_mem_tokens .root (split ▸ by simp)
  obtain ⟨before', after', hrow, hnext, hprevious⟩ := standing.neighbours fits
  obtain ⟨rfl, rfl⟩ := cut_unique tree.root_tokens_nodup split hrow
  exact ⟨hnext, hprevious⟩

theorem Tree.head?_iff_getLast? {t u : Token} {before after before' after' : List Token}
    (ht : tree.root.tokens = before ++ t :: after) (hu : tree.root.tokens = before' ++ u :: after') :
    after.head? = some u ↔ before'.getLast? = some t :=
  (head?_eq_some_iff_pair tree.root_tokens_nodup ht).trans
    (getLast?_eq_some_iff_pair tree.root_tokens_nodup hu).symm

/-! ## The way -/

theorem Token.chain_eq (first : Query (Option Token)) (beside : Token → Query (Option Token))
    (count : Nat) : chain first beside count = Query.chain first beside count := by
  have hgoOn : goOn beside = Query.goOn beside := by
    funext token
    cases token <;> rfl
  rw [chain, hgoOn]
  rfl

/-- **From the first token on**, all tokens. -/
theorem Tree.next_chain_gives (fits : tree.Fits) (count : Nat) :
    Query.Gives tree (Token.chain tree.root.firstToken? Token.next? count)
      (.ok ((List.range count).map (tree.root.tokens[·]?))) :=
  Token.chain_eq .. ▸ Query.chain_gives (Node.firstToken?_gives .root fits)
    (fun _ _ _ split => (Tree.beside_of_split fits split).1) count

/-- **From the last token back**, all tokens from the end. -/
theorem Tree.previous_chain_gives (fits : tree.Fits) (count : Nat) :
    Query.Gives tree (Token.chain tree.root.lastToken? Token.previous? count)
      (.ok ((List.range count).map (tree.root.tokens.reverse[·]?))) :=
  Token.chain_eq .. ▸ Query.chain_gives_back (Node.lastToken?_gives .root fits)
    (fun _ _ _ split => (Tree.beside_of_split fits split).2) count

end

end Placed

namespace Session

open Placed

section

variable {s : Session} {tree : Placed.Tree}

/-- **The tokens beside each other are the row of all tokens.** The row has all tokens of the tree,
each one once and in the order of a walk. From the first token on to the next ones and from the last
one back to the ones before, however far a caller goes, it comes by this row and then by nothing. Two
tokens are next to each other from both sides or from none. The tokens of a node stand in the row
without a gap, and its first and its last token are the outermost of these, if there are any. All this
can fail only where there are more slots than can be numbered. -/
theorem tokens_enumerated (reached : s.Reachable) (held : tree.green.toElement ∈ s.parts)
    (room : tree.start + tree.green.width ≤ maxSize) (calls : List Call) :
    let row := tree.root.tokens
    let memo := ((Facade.start tree.root).after calls).memo
    (row.map Token.path = tree.tokens [] ∧ row.Nodup ∧ ∀ t, t ∈ row ↔ t.Stands tree) ∧
    (∀ count, Query.GivesFrom tree memo (Token.chain tree.root.firstToken? Token.next? count)
      ((List.range count).map (row[·]?))) ∧
    (∀ count, Query.GivesFrom tree memo (Token.chain tree.root.lastToken? Token.previous? count)
      ((List.range count).map (row.reverse[·]?))) ∧
    (∀ t u : Token, t.Stands tree → u.Stands tree → ∃ next previous,
      Query.GivesFrom tree memo t.next? next ∧ Query.GivesFrom tree memo u.previous? previous ∧
        (next = some u ↔ previous = some t)) ∧
    ∀ node : Placed.Node, ⟨.node, node⟩ ∈ ((Facade.start tree.root).after calls).handles →
      (node.tokens <:+: row ∧ ∀ t, t ∈ node.tokens ↔ t.Stands tree ∧ node.path <+: t.path) ∧
      Query.GivesFrom tree memo node.firstToken? node.tokens.head? ∧
      Query.GivesFrom tree memo node.lastToken? node.tokens.getLast? := by
  have fits := fits_of_reachable reached held room
  have valid := (Facade.valid_start tree).after fits calls
  have hmem : ∀ t, t ∈ tree.root.tokens ↔ t.Stands tree := fun t => by
    rw [Node.Stands.mem_tokens_iff .root]
    exact and_iff_left List.nil_prefix
  refine ⟨⟨Node.tokens_path .root, tree.root_tokens_nodup, hmem⟩,
    fun count => (Tree.next_chain_gives fits count).givesFrom valid.memo,
    fun count => (Tree.previous_chain_gives fits count).givesFrom valid.memo,
    fun t u ht hu => ?_, fun node given => ?_⟩
  · obtain ⟨before, after, hrow⟩ := List.append_of_mem ((hmem t).2 ht)
    obtain ⟨before', after', hrow'⟩ := List.append_of_mem ((hmem u).2 hu)
    exact ⟨after.head?, before'.getLast?,
      (Tree.beside_of_split fits hrow).1.givesFrom valid.memo,
      (Tree.beside_of_split fits hrow').2.givesFrom valid.memo, Tree.head?_iff_getLast? hrow hrow'⟩
  · have standing : node.Stands tree := valid.handles _ given
    exact ⟨⟨standing.tokens_infix, fun t => standing.mem_tokens_iff⟩,
      (Node.firstToken?_gives standing fits).givesFrom valid.memo,
      (Node.lastToken?_gives standing fits).givesFrom valid.memo⟩

/-- From the first name on comes the empty one, then the second one, then nothing. -/
theorem tokens_enumerated_names : ∃ s : Session, s.Reachable ∧ names.toElement ∈ s.parts ∧
    ∃ found memo, Token.chain (Tree.root ⟨0, 7, names⟩).firstToken? Token.next? 4 ∅ =
        .ok found memo ∧
      found.map (Option.map Token.text) = [some "x", some "", some "y", none] := by
  obtain ⟨s, reached, held⟩ := names_reachable
  have h := @tokens_enumerated s ⟨0, 7, names⟩ reached held (by decide) []
  obtain ⟨memo, hrun⟩ := (h.2.1 4).run (names_narrow 7)
  refine ⟨s, reached, held, _, memo, hrun, ?_⟩
  rw [Node.tokens_children]
  rfl

end

end Session

end LosslessSyntax
