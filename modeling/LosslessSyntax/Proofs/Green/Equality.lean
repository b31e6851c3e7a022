import LosslessSyntax.Proofs.Green.Bare
import LosslessSyntax.Proofs.Green.Stock

/-!
# Equality of green trees

Equality looks at identities first and goes on to the contents where they differ. Trees that are
alike pass it whatever their identities are; in a stock, where one identity is one part, no others
do.

* `Green.Token.alike_iff`, `Green.Head.alike_iff`: the tests of tokens and of heads;
* **`Green.Element.Alike.equal`**: trees that are alike are equal;
* **`Green.Stock.equal_iff`**: in a stock, equal trees are alike.
-/

namespace LosslessSyntax.Green

theorem Token.alike_iff {a b : Token} : a.alike b = true ↔ a.bare = b.bare := by
  obtain ⟨_, kind, leading, text, trailing, _, _, _⟩ := a
  obtain ⟨_, kind', leading', text', trailing', _, _, _⟩ := b
  simp [alike, bare, and_assoc]

theorem Head.alike_iff {a b : Head} : a.alike b = true ↔ a.bare = b.bare := by
  obtain ⟨_, kind, shape, width, _, notes⟩ := a
  obtain ⟨_, kind', shape', width', _, notes'⟩ := b
  simp [alike, bare, and_assoc]

theorem Node.alike_of_rows {a b : Node} (kind : a.kind = b.kind) (shape : a.shape = b.shape)
    (width : a.width = b.width) (notes : a.head.notes = b.head.notes)
    (rows : Element.AlikeRows a.slots.toList b.slots.toList) : a.toElement.Alike b.toElement := by
  refine Node.alike_toElement.2 ⟨?_, rows⟩
  rw [← Head.alike_iff, Head.alike]
  simp only [Bool.and_eq_true, beq_iff_eq]
  exact ⟨⟨⟨kind, shape⟩, width⟩, notes⟩

namespace Element

theorem WellFormed.tidy {head : Head} {slots : Array Element}
    (h : (Element.node head slots).WellFormed) : Node.Tidy ⟨head, slots⟩ := by
  cases h with
  | node tidy _ => exact tidy

theorem WellFormed.inSlot {head : Head} {slots : Array Element} {slot : Nat} {e : Element}
    (h : (Element.node head slots).WellFormed) (found : slots[slot]? = some e) : e.WellFormed := by
  have hnode : Node.WellFormed ⟨head, slots⟩ := h
  exact Node.WellFormed.slot hnode found

theorem equal_token (a b : Token) : (token a).equal (token b) = a.alike b := by rw [equal]

theorem equal_node (a b : Head) (as bs : Array Element) : (node a as).equal (node b bs) =
    (a.id == b.id || a.alike b && equalRows as.toList bs.toList) := by
  obtain ⟨as⟩ := as
  obtain ⟨bs⟩ := bs
  rw [equal]

theorem alike_token {a b : Token} : (token a).Alike (token b) ↔ a.bare = b.bare := by
  simp [Alike]

theorem alike_node {a b : Head} {as bs : Array Element} :
    (node a as).Alike (node b bs) ↔ a.bare = b.bare ∧ AlikeRows as.toList bs.toList :=
  Node.alike_toElement (a := ⟨a, as⟩) (b := ⟨b, bs⟩)

theorem alikeRows_cons {a b : Element} {as bs : List Element} :
    AlikeRows (a :: as) (b :: bs) ↔ a.Alike b ∧ AlikeRows as bs := by
  simp [AlikeRows, Alike]

theorem alikeRows_singleton {row : List Element} {e : Element} (h : AlikeRows row [e]) :
    ∃ copy, row = [copy] ∧ copy.Alike e := by
  obtain ⟨copy, rfl, hcopy⟩ := List.map_eq_singleton_iff.1 h
  exact ⟨copy, rfl, hcopy⟩

theorem Alike.exists_node {e : Element} {node : Node} (h : e.Alike node.toElement) :
    ∃ made : Node, e = made.toElement := by
  cases e with
  | token t => simp [Alike, Node.toElement] at h
  | node head slots => exact ⟨⟨head, slots⟩, rfl⟩

theorem equalRows_of_alike {as bs : List Element}
    (ih : ∀ a ∈ as, ∀ b, a.Alike b → a.equal b = true) (h : AlikeRows as bs) :
    equalRows as bs = true := by
  induction as generalizing bs with
  | nil =>
    cases bs with
    | nil => rw [equalRows]
    | cons b bs => simp [AlikeRows] at h
  | cons a as ihrow =>
    cases bs with
    | nil => simp [AlikeRows] at h
    | cons b bs =>
      obtain ⟨hab, hrest⟩ := alikeRows_cons.1 h
      obtain ⟨iha, ihas⟩ := List.forall_mem_cons.1 ih
      rw [equalRows, iha b hab, ihrow ihas hrest]
      rfl

/-- **Trees that are alike are equal.** -/
theorem Alike.equal {a b : Element} (h : a.Alike b) : a.equal b = true := by
  induction a generalizing b with
  | token t =>
    cases b with
    | token t' =>
      rw [equal_token, Token.alike_iff]
      exact alike_token.1 h
    | node head slots => simp [Alike] at h
  | node head slots ih =>
    cases b with
    | token t => simp [Alike] at h
    | node head' slots' =>
      obtain ⟨hhead, hrows⟩ := alike_node.1 h
      have hequal := equalRows_of_alike (fun a ha b => ih a (Array.mem_toList_iff.1 ha)) hrows
      rw [equal_node, Head.alike_iff.2 hhead, hequal, Bool.and_self, Bool.or_true]

end Element

/-! ## In a stock -/

namespace Stock

open Element

variable {supply : Nat} {parts : Set Element}

theorem alikeRows_of_equal {as bs : List Element}
    (ih : ∀ a ∈ as, ∀ b ∈ parts, a.equal b = true → a.Alike b) (hbs : ∀ b ∈ bs, b ∈ parts)
    (h : equalRows as bs = true) : AlikeRows as bs := by
  induction as generalizing bs with
  | nil =>
    cases bs with
    | nil => rfl
    | cons b bs => simp [equalRows] at h
  | cons a as ihrow =>
    cases bs with
    | nil => simp [equalRows] at h
    | cons b bs =>
      rw [equalRows, Bool.and_eq_true] at h
      obtain ⟨iha, ihas⟩ := List.forall_mem_cons.1 ih
      obtain ⟨hb, hrest⟩ := List.forall_mem_cons.1 hbs
      exact alikeRows_cons.2 ⟨iha b hb h.1, ihrow ihas hrest h.2⟩

/-- **In a stock the trees that are equal are those that only identities tell apart.** -/
theorem equal_iff (hs : Stock supply parts) {a b : Element} (ha : a ∈ parts) (hb : b ∈ parts) :
    a.equal b = true ↔ a.Alike b := by
  refine ⟨fun h => ?_, Alike.equal⟩
  induction a generalizing b with
  | token t =>
    cases b with
    | token t' =>
      rw [equal_token, Token.alike_iff] at h
      exact alike_token.2 h
    | node head slots => simp [equal] at h
  | node head slots ih =>
    cases b with
    | token t => simp [equal] at h
    | node head' slots' =>
      rw [equal_node, Bool.or_eq_true, beq_iff_eq, Bool.and_eq_true] at h
      rcases h with hid | ⟨hhead, hrows⟩
      · have hsame : node head slots = node head' slots' := hs.eq_of_id _ ha _ hb hid
        exact congrArg bare hsame
      · have hnode : Node.toElement ⟨head, slots⟩ ∈ parts := ha
        have hnode' : Node.toElement ⟨head', slots'⟩ ∈ parts := hb
        have hslots : ∀ a ∈ slots.toList, ∀ b ∈ parts, a.equal b = true → a.Alike b :=
          fun a hmem b hb => ih a (Array.mem_toList_iff.1 hmem)
            (hs.slot_mem hnode a (Array.mem_toList_iff.1 hmem)) hb
        exact alike_node.2 ⟨Head.alike_iff.1 hhead, alikeRows_of_equal hslots
          (fun b hmem => hs.slot_mem hnode' b (Array.mem_toList_iff.1 hmem)) hrows⟩

end Stock

end LosslessSyntax.Green
