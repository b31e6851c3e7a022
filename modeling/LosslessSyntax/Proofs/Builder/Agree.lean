import LosslessSyntax.Proofs.Builder.Event
import LosslessSyntax.Proofs.Green.Bare
import LosslessSyntax.Proofs.Interner

/-!
# Asking and making

To ask an interner for a part has the same outcome as to make the part: both fail in the same way,
or both give parts that only identities tell apart.

* `Green.Make.Agree`: computations with the same outcome;
* `Green.Token.make_agrees`, `Green.Node.make_agrees`: making a part twice;
* **`Interner.token_agrees`**, **`Interner.node_agrees`**: asking an interner and making.
-/

namespace LosslessSyntax

open Green Green.Make

namespace Green

variable {α β γ : Type}

/-- Either both computations give something, and `rel` relates what they give, or both fail in the
same way; the identities that they start from do not matter. -/
def Make.Agree (rel : α → β → Prop) (a : Make α) (b : Make β) : Prop :=
  ∀ supply supply', match a supply, b supply' with
    | .ok x _, .ok y _ => rel x y
    | .error f _, .error f' _ => f = f'
    | _, _ => False

theorem Make.Agree.lift {rel : α → β → Prop} {x : Except Violation γ} {f : γ → Make α}
    {g : γ → Make β} (h : ∀ v, x = .ok v → Agree rel (f v) (g v)) :
    Agree rel (liftM x >>= f) (liftM x >>= g) := by
  intro supply supply'
  cases x with
  | ok v => exact h v rfl supply supply'
  | error violation => exact rfl

theorem Make.Agree.mapLeft {rel : β → γ → Prop} {a : Make α} {b : Make γ} (f : α → β)
    (h : Agree (fun x y => rel (f x) y) a b) :
    Agree rel (a >>= fun x => pure (f x)) b := by
  intro supply supply'
  have hrun := h supply supply'
  change match EStateM.bind a (fun x => pure (f x)) supply, b supply' with
    | EStateM.Result.ok x _, EStateM.Result.ok y _ => rel x y
    | EStateM.Result.error f _, EStateM.Result.error f' _ => f = f'
    | _, _ => False
  rw [EStateM.bind]
  generalize a supply = left at hrun ⊢
  generalize b supply' = right at hrun ⊢
  cases left <;> cases right <;> exact hrun

theorem Make.Agree.pureLeft {rel : α → β → Prop} {x : α} {b : Make β}
    (h : ∀ supply, ∃ y supply', b supply = .ok y supply' ∧ rel x y) :
    Agree rel (pure x) b := by
  intro supply supply'
  obtain ⟨y, next, hrun, hrel⟩ := h supply'
  rw [hrun]
  exact hrel

theorem Token.make_agrees (leading : Trivia) (kind : Kind) (text : String) (trailing : Trivia) :
    Agree (fun a b => (Element.token a).Alike (.token b))
      (Token.make leading kind text trailing) (Token.make leading kind text trailing) := by
  intro supply supply'
  rw [Token.make_run, Token.make_run]
  split_ifs
  · simp [Element.Alike, Token.bare]
  · rfl
  · rfl

theorem Node.make_agrees (kind : Kind) (shape : Shape) {slots slots' : Array Element}
    (h : Element.AlikeRows slots.toList slots'.toList) :
    Agree (fun a b => a.toElement.Alike b.toElement) (Node.make kind shape none slots)
      (Node.make kind shape none slots') := by
  intro supply supply'
  rw [Node.make_run, Node.make_run, h.widths]
  dsimp only
  split_ifs
  · exact Node.alike_toElement.2 ⟨rfl, h⟩
  · rfl

end Green

namespace Interner

/-- A kept token is what making it anew would give. -/
theorem token_agrees (interner : Interner) (leading : Trivia) (kind : Kind) (text : String)
    (trailing : Trivia) :
    Agree (fun kept made => (Element.token kept.1).Alike (.token made))
      (interner.token leading kind text trailing) (Token.make leading kind text trailing) := by
  cases hfind : interner.tokens.find? (tokenHash interner.hashing leading kind text trailing)
    (tokenMatches leading kind text trailing) with
  | some kept =>
    have hmatch := (Table.mem_of_find? hfind).2
    simp only [tokenMatches, Bool.and_eq_true, beq_iff_eq] at hmatch
    obtain ⟨⟨⟨rfl, rfl⟩, rfl⟩, rfl⟩ := hmatch
    rw [token_of_find hfind]
    refine Agree.pureLeft fun supply => ?_
    rw [Token.make_run, dif_pos kept.trivia_le, dif_pos ⟨kept.leading_cut, kept.trailing_cut⟩]
    exact ⟨_, _, rfl, by simp [Element.Alike, Token.bare]⟩
  | none =>
    rw [token_of_miss hfind]
    exact (Token.make_agrees leading kind text trailing).mapLeft _

variable {parts : Set Element}

theorem eq_of_sameRow {supply : Nat} (hs : Stock supply parts) {a b : Array Element}
    (ha : ∀ e ∈ a, e ∈ parts) (hb : ∀ e ∈ b, e ∈ parts) (h : sameRow a b = true) : a = b := by
  rw [sameRow, Bool.and_eq_true, beq_iff_eq] at h
  obtain ⟨hsize, hall⟩ := h
  refine Array.ext hsize fun i hi hi' => ?_
  have hzip : i < (a.zip b).size := by
    rw [Array.size_zip]
    omega
  have hsame := Array.all_eq_true.1 hall i hzip
  rw [Array.getElem_zip] at hsame
  exact hs.eq_of_same (ha _ (Array.getElem_mem hi)) (hb _ (Array.getElem_mem hi')) hsame

/-- A node that an interner gives has the very parts in its slots that were asked for. -/
theorem slots_of_node {interner after : Interner} {supply start next : Nat}
    (hs : Stock supply parts) (h : interner.InStock parts) {kind : Kind} {shape : Shape}
    {slots : Array Element} (hslots : ∀ e ∈ slots, e ∈ parts) {given : Node}
    (hrun : interner.node kind shape slots start = .ok (given, after) next) :
    given.slots = slots := by
  obtain ⟨hkey, -, ⟨-, hkept, -⟩ | ⟨hnew, -⟩⟩ := node_cases hrun
  · have hrow : rowKey given.slots = rowKey slots := congrArg (fun key => key.2.2) hkey
    exact eq_of_sameRow hs (hs.slot_mem (h.nodes given hkept)) hslots (sameRow_iff.2 hrow)
  · exact hnew

/-- A kept node is what making it anew would give. -/
theorem node_agrees {interner : Interner} {supply : Nat} (hs : Stock supply parts)
    (h : interner.InStock parts) (kind : Kind) (shape : Shape) {slots slots' : Array Element}
    (hslots : ∀ e ∈ slots, e ∈ parts) (halike : Element.AlikeRows slots.toList slots'.toList) :
    Agree (fun kept made => kept.1.toElement.Alike made.toElement)
      (interner.node kind shape slots) (Node.make kind shape none slots') := by
  have hmake := Node.make_agrees kind shape halike
  by_cases hsize : slots.size ≤ maxSlots
  · cases hfind : interner.nodes.find? (nodeHash interner.hashing kind shape slots)
      (nodeMatches kind shape slots) with
    | none =>
      rw [node_of_miss hsize hfind]
      exact hmake.mapLeft _
    | some kept =>
      rw [node_of_find hsize hfind]
      obtain ⟨hmem, hmatch⟩ := Table.mem_of_find? hfind
      have hkept := h.nodes kept hmem
      have htidy := hs.tidy hkept
      simp only [nodeMatches, Bool.and_eq_true, beq_iff_eq, List.isEmpty_iff] at hmatch
      obtain ⟨⟨⟨hkind, hshape⟩, hnotes⟩, hrow⟩ := hmatch
      have hwhole := eq_of_sameRow hs (hs.slot_mem hkept) hslots hrow
      have hwidth : (slots'.toList.map Element.width).sum = kept.width := by
        rw [htidy.width_eq, Node.widths, hwhole, halike.widths]
      refine Agree.pureLeft fun supply => ?_
      rw [Node.make_run]
      dsimp only
      rw [hwidth, if_pos htidy.width_le]
      refine ⟨_, _, rfl, Node.alike_toElement.2 ⟨?_, hwhole ▸ halike⟩⟩
      simp only [Head.bare, htidy.notes_iff.2 hnotes, ← hkind, ← hshape]
      rfl
  · rw [node_of_large (Nat.lt_of_not_le hsize)]
    exact hmake.mapLeft _

end Interner

end LosslessSyntax
