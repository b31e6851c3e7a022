import LosslessSyntax.Proofs.Green.Pending
import LosslessSyntax.Proofs.Session

/-!
# Equality and hashing of what a caller holds

Whatever parts the trees of a caller share, equality tells the same trees from others, and what a hash
function reads of a tree depends on nothing but the tree.

* **`Session.equal_structural`**: equality and hashing of all nodes that a caller can get.
-/

namespace LosslessSyntax

open Green

/-- **Equality is structural, and hashing agrees with it.** Two nodes are equal if they are the same
tree, told by recursion. To compare pair after pair gives this answer in whatever order the pairs are
looked at, and wherever identities are trusted. Of equal nodes a hash function reads the same, one
word after the other. -/
theorem Session.equal_structural {s : Session} (reached : s.Reachable) {a b : Node}
    (ha : a.toElement ∈ s.parts) (hb : b.toElement ∈ s.parts) :
    (a.toElement.equal b.toElement = true ↔ a.toElement.SameTree b.toElement) ∧
    (∀ (pick : List (Node × Node) → Nat) (trusts : Node → Node → Bool),
      equalPairs pick trusts [(a, b)] = a.toElement.equal b.toElement) ∧
    (a.toElement.equal b.toElement = true → a.toElement.digest = b.toElement.digest ∧
      ∀ {σ : Type} (write : σ → Word → σ) (state : σ),
        feed write [a] state = feed write [b] state) := by
  obtain ⟨parts, h⟩ := reached.exists_stock
  have ha' := h.held _ ha
  have hb' := h.held _ hb
  have hequal := h.stock.equal_iff ha' hb'
  refine ⟨?_, fun pick trusts => ?_, fun heq => ?_⟩
  · rw [hequal, (h.stock.wellFormed ha').sameTree_iff (h.stock.wellFormed hb')]
  · have held : Stock.HoldsPairs parts [(a, b)] := by
      intro pair hpair
      rw [List.mem_singleton.1 hpair]
      exact ⟨ha', hb'⟩
    rw [h.stock.equalPairs_eq pick trusts held, List.all_cons, List.all_nil, Bool.and_true]
  · have hdigest := (hequal.1 heq).digest_eq
    refine ⟨hdigest, fun write state => ?_⟩
    rw [feed_digest, feed_digest, hdigest]

/-- Two references to one name that were made apart are equal, even if no identity is trusted, and
have one digest. -/
theorem Session.equal_structural_references : ∃ (s : Session) (a b : Node), s.Reachable ∧
    a.toElement ∈ s.parts ∧ b.toElement ∈ s.parts ∧ a.toElement.same b.toElement = false ∧
    a.toElement.equal b.toElement = true ∧
    equalPairs (fun pending => pending.length - 1) (fun _ _ => false) [(a, b)] = true ∧
    a.toElement.digest = b.toElement.digest := by
  let again : Node := { seenRef with head := { seenRef.head with id := 2 } }
  have hreached : Reachable ⟨3, [again.toElement, seenRef.toElement, .token seen], [], []⟩ :=
    .step seenRef_reachable (.node (.plain .nameRef #[.token seen] (by simp)))
  have ha : seenRef.toElement ∈ [again.toElement, seenRef.toElement, .token seen] := by simp
  obtain ⟨hiff, hpairs, hhash⟩ := equal_structural hreached ha List.mem_cons_self
  have hslots : ∀ (slot : Nat) (y z : Element), seenRef.slots[slot]? = some y →
      again.slots[slot]? = some z → y.SameTree z := by
    intro slot y z hy hz
    have hy' := Array.mem_of_getElem? hy
    have hz' := Array.mem_of_getElem? hz
    rw [show seenRef.slots = #[.token seen] from rfl, Array.mem_singleton] at hy'
    rw [show again.slots = #[.token seen] from rfl, Array.mem_singleton] at hz'
    rw [hy', hz']
    exact .token rfl rfl rfl rfl
  have hequal := hiff.2 (.node rfl rfl rfl rfl hslots)
  exact ⟨_, seenRef, again, hreached, ha, List.mem_cons_self, rfl, hequal, (hpairs _ _).trans hequal,
    (hhash hequal).1⟩

end LosslessSyntax
