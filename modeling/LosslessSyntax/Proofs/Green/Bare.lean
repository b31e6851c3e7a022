import LosslessSyntax.Green.Equality
import LosslessSyntax.Proofs.Green.Layout
import Mathlib.Data.List.Forall2

/-!
# Elements without identities

Two elements are alike if nothing but the identities of their parts tells them apart. The bare form
of an element has all identities taken out, and the offsets too, which the widths give anyway; so
elements are alike if their bare forms are equal.

* `Green.Element.bare`: the bare form;
* `Green.Element.Alike`: elements with one bare form;
* `Green.Element.Copies`: elements that are alike and have their older parts in common;
* `Green.listShapeOf_bare`: the shape of a list can be read off the bare form.
-/

namespace LosslessSyntax.Green

/-- A token without its identity. -/
def Token.bare (token : Token) : Token := { token with id := 0 }

/-- A head without its identity and its offsets. -/
def Head.bare (head : Head) : Head := { head with id := 0, offsets := #[] }

namespace Element

mutual

/-- An element without identities. -/
def bare : Element → Element
  | .token t => .token t.bare
  | .node head ⟨slots⟩ => .node head.bare ⟨bares slots⟩

/-- A row of elements without identities. -/
def bares : List Element → List Element
  | [] => []
  | e :: rest => bare e :: bares rest

end

theorem bares_eq_map (row : List Element) : bares row = row.map bare := by
  induction row with
  | nil => rw [bares, List.map_nil]
  | cons e rest ih => rw [bares, ih, List.map_cons]

@[simp] theorem bare_token (t : Token) : (token t).bare = token t.bare := by rw [bare]

@[simp] theorem bare_node (head : Head) (slots : Array Element) :
    (node head slots).bare = node head.bare (slots.map bare) := by
  obtain ⟨row⟩ := slots
  rw [bare, bares_eq_map, List.map_toArray]

@[simp] theorem width_bare (e : Element) : e.bare.width = e.width := by
  cases e <;> simp [width, Token.width, Token.bare, Head.bare]

@[simp] theorem kind_bare (e : Element) : e.bare.kind = e.kind := by
  cases e <;> simp [kind, Token.bare, Head.bare]

@[simp] theorem isNode_bare (e : Element) : e.bare.isNode = e.isNode := by
  cases e <;> simp [isNode, node?]

/-- Elements are alike if only identities tell them apart. -/
def Alike (a b : Element) : Prop := a.bare = b.bare

/-- Rows are alike if what is in them is, slot by slot. -/
def AlikeRows (a b : List Element) : Prop := a.map bare = b.map bare

theorem AlikeRows.widths {a b : List Element} (h : AlikeRows a b) : a.map width = b.map width := by
  have hw : ∀ row : List Element, row.map width = (row.map bare).map width := fun row => by
    rw [List.map_map]
    exact List.map_congr_left fun e _ => (width_bare e).symm
  rw [hw a, hw b, h]

theorem AlikeRows.append {a b a' b' : List Element} (h : AlikeRows a b) (h' : AlikeRows a' b') :
    AlikeRows (a ++ a') (b ++ b') := by
  rw [AlikeRows, List.map_append, List.map_append, h, h']

end Element

theorem Node.alike_toElement {a b : Node} :
    a.toElement.Alike b.toElement ↔ a.head.bare = b.head.bare ∧
      Element.AlikeRows a.slots.toList b.slots.toList := by
  simp [Element.Alike, toElement, Element.AlikeRows, ← Array.toList_inj]

/-! ## Copies -/

/-- An element copies another one if they are alike and the parts of the other one that are older
than `base` are parts of both, at the same places. -/
structure Element.Copies (base : Nat) (copy e : Element) : Prop where
  alike : copy.Alike e
  older : ∀ path part, e.at? path = some part → part.id < base → copy.at? path = some part

namespace Element

variable {base : Nat}

theorem Copies.refl (e : Element) : Copies base e e := ⟨rfl, fun _ _ h _ => h⟩

theorem Copies.ofToken {copy t : Token} (h : (token copy).Alike (token t)) (hnew : base ≤ t.id) :
    Copies base (token copy) (token t) where
  alike := h
  older path part hpart hold := by
    cases path with
    | nil =>
      rw [at?_nil, Option.some_inj] at hpart
      subst hpart
      exact absurd hold (Nat.not_lt.2 hnew)
    | cons slot path => simp at hpart

theorem Copies.ofNode {copy node : Node} (h : copy.toElement.Alike node.toElement)
    (hnew : base ≤ node.head.id)
    (hslots : List.Forall₂ (Copies base) copy.slots.toList node.slots.toList) :
    Copies base copy.toElement node.toElement where
  alike := h
  older path part hpart hold := by
    cases path with
    | nil =>
      rw [at?_nil, Option.some_inj] at hpart
      subst hpart
      exact absurd hold (Nat.not_lt.2 hnew)
    | cons slot path =>
      rw [Node.toElement, at?_node_cons, Option.bind_eq_some_iff] at hpart ⊢
      obtain ⟨e, he, hpart⟩ := hpart
      rw [← Array.getElem?_toList] at he ⊢
      obtain ⟨hslot, rfl⟩ := List.getElem?_eq_some_iff.1 he
      have hslot' : slot < copy.slots.toList.length := hslots.length_eq ▸ hslot
      have hcopy := hslots.get hslot' hslot
      exact ⟨_, List.getElem?_eq_getElem hslot', hcopy.older path part hpart hold⟩

theorem alikeRows_of_copies {a b : List Element} (h : List.Forall₂ (Copies base) a b) :
    AlikeRows a b := by
  induction h with
  | nil => rfl
  | cons hab _ ih => rw [AlikeRows, List.map_cons, List.map_cons, hab.alike, ih]

end Element

/-! ## Shapes of lists -/

theorem checkSlots_bare (separated : Bool) (slot : Nat) (row : List Element) :
    checkSlots separated slot (row.map Element.bare) = checkSlots separated slot row := by
  induction row generalizing slot with
  | nil => rfl
  | cons e rest ih =>
    cases e with
    | token t =>
      rw [List.map_cons, Element.bare_token, checkSlots, checkSlots, ih]
      rfl
    | node head slots =>
      rw [List.map_cons, Element.bare_node, checkSlots, checkSlots, ih]
      rfl

theorem listShapeOf_bare (kind : Kind) (slots : Array Element) :
    listShapeOf kind (slots.map Element.bare) = listShapeOf kind slots := by
  have hany : ((slots.map Element.bare).any fun slot => !slot.isNode) =
      slots.any fun slot => !slot.isNode := by
    rw [Array.any_map]
    congr 1
    funext e
    simp
  unfold listShapeOf
  rw [hany, Array.toList_map]
  simp only [checkSlots_bare, Array.size_map]

theorem listShapeOf_congr (kind : Kind) {a b : Array Element}
    (h : Element.AlikeRows a.toList b.toList) : listShapeOf kind a = listShapeOf kind b := by
  rw [← listShapeOf_bare kind a, ← listShapeOf_bare kind b]
  congr 1
  rw [← Array.toList_inj, Array.toList_map, Array.toList_map]
  exact h

end LosslessSyntax.Green
