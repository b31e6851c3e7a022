import LosslessSyntax.Placed.Basic
import LosslessSyntax.Proofs.Builder.Event
import LosslessSyntax.Proofs.Placed.Tree

/-!
# Sessions

A session is what a caller does with the library from the start: it makes tokens and nodes, looks
into nodes, edits them, replaces parts of trees, fills interners and runs builders, in any order
and as often as it likes. Whatever a caller ever holds is in one stock of parts.

* `Session`, `Session.Step`, `Session.Reachable`: what a caller holds, and how it gets there;
* `Session.Offers`: the ways to make a node from what is held;
* `Session.InStock`: all that is held is in the stock;
* `Session.Reachable.exists_stock`: this is so in every session;
* **`Session.layout_of_reachable`**: in every node that a caller can get, at every depth, the width,
  the offsets, the shape and the annotations are those that the slots give.
-/

namespace LosslessSyntax

open Green Green.Make

/-- What a caller holds; `supply` is the next free identity. -/
structure Session where
  supply : Nat
  parts : List Element
  interners : List Interner
  builders : List Builder

namespace Session

/-- A caller that holds nothing yet. -/
def start : Session := ⟨0, [], [], []⟩

/-- The session after a part was asked for; it is held if it could be made. -/
def makes {α : Type} (s : Session) (computation : Make α) (toElement : α → Element) : Session :=
  match computation s.supply with
  | .ok part supply => { s with supply, parts := toElement part :: s.parts }
  | .error _ supply => { s with supply }

/-- The session after an interner was asked for a token. -/
def interns (s : Session) (before after : List Interner) (request : Make (Token × Interner)) :
    Session :=
  match request s.supply with
  | .ok (token, interner) supply =>
    { s with supply, parts := .token token :: s.parts, interners := before ++ interner :: after }
  | .error _ supply => { s with supply }

/-- The session after an event of a builder, which takes identities from the supply of all. -/
def hears (s : Session) (before after : List Builder) (builder : Builder) (event : Builder.Event) :
    Session :=
  let builder := (event.step { builder with supply := s.supply }).2
  { s with supply := builder.supply, builders := before ++ builder :: after }

/-- The ways to make a node from the parts that are held. -/
inductive Offers (s : Session) : Make Node → Prop
  | plain (kind : Kind) (slots : Array Element) (held : ∀ e ∈ slots, e ∈ s.parts) :
      Offers s (Node.plain kind slots)
  | list (kind : Kind) {elements : List Node} (held : ∀ n ∈ elements, n.toElement ∈ s.parts) :
      Offers s (Node.list kind elements)
  | separated (kind : Kind) {elements : List Node} {separators : List Token}
      (held : ∀ n ∈ elements, n.toElement ∈ s.parts)
      (heldToo : ∀ t ∈ separators, Element.token t ∈ s.parts) :
      Offers s (Node.separated kind elements separators)
  | annotate {node : Node} (held : node.toElement ∈ s.parts) (notes : List Annotation) :
      Offers s (node.annotate notes)
  | replaceSlot {node : Node} (held : node.toElement ∈ s.parts) (slot : Nat) {e : Element}
      (heldToo : e ∈ s.parts) : Offers s (node.replaceSlot slot e)
  | insertSlot {node : Node} (held : node.toElement ∈ s.parts) (slot : Nat) {e : Element}
      (heldToo : e ∈ s.parts) : Offers s (node.insertSlot slot e)
  | removeSlot {node : Node} (held : node.toElement ∈ s.parts) (slot : Nat) :
      Offers s (node.removeSlot slot)
  | replaceNode {tree : Placed.Tree} (held : tree.green.toElement ∈ s.parts) {node : Placed.Node}
      (standing : node.Stands tree) {replacement : Node}
      (heldToo : replacement.toElement ∈ s.parts) : Offers s (node.replace replacement)
  | replaceToken {tree : Placed.Tree} (held : tree.green.toElement ∈ s.parts)
      {token : Placed.Token} (standing : token.Stands tree) {replacement : Token}
      (heldToo : Element.token replacement ∈ s.parts) : Offers s (token.replace replacement)

/-- What a caller can do next. -/
inductive Step (s : Session) : Session → Prop
  | token (leading : Trivia) (kind : Kind) (text : String) (trailing : Trivia) :
      Step s (s.makes (Token.make leading kind text trailing) Element.token)
  | node {computation : Make Node} (offered : s.Offers computation) :
      Step s (s.makes computation Node.toElement)
  | slot {node : Node} (held : node.toElement ∈ s.parts) {e : Element} (inside : e ∈ node.slots) :
      Step s { s with parts := e :: s.parts }
  | interner (hashing : Interner.Hashing) :
      Step s { s with interners := .empty hashing :: s.interners }
  | intern {before after : List Interner} {interner : Interner}
      (held : s.interners = before ++ interner :: after) (leading : Trivia) (kind : Kind)
      (text : String) (trailing : Trivia) :
      Step s (s.interns before after (interner.token leading kind text trailing))
  | build {before after : List Interner} {interner : Interner}
      (held : s.interners = before ++ interner :: after) :
      Step s { s with
        interners := before ++ after, builders := Builder.start s.supply interner :: s.builders }
  | event {before after : List Builder} {builder : Builder}
      (held : s.builders = before ++ builder :: after) {event : Builder.Event}
      (offered : event.Offered {e | e ∈ s.parts}) : Step s (s.hears before after builder event)
  | finish {before after : List Builder} {builder done : Builder} {root : Node}
      (held : s.builders = before ++ builder :: after)
      (finished : Builder.finish builder = .ok root done) :
      Step s { s with
        parts := root.toElement :: s.parts, builders := before ++ after
        interners := done.interner :: s.interners }
  | giveUp {before after : List Builder} {builder : Builder}
      (held : s.builders = before ++ builder :: after) :
      Step s { s with
        builders := before ++ after, interners := builder.interner :: s.interners }

/-- The sessions that a caller can get to. -/
inductive Reachable : Session → Prop
  | start : Reachable start
  | step {s t : Session} (reached : Reachable s) (next : Step s t) : Reachable t

/-! ## All in one stock -/

/-- All that a caller holds is in the stock. -/
structure InStock (parts : Set Element) (s : Session) : Prop where
  stock : Stock s.supply parts
  held : ∀ e ∈ s.parts, e ∈ parts
  interners : ∀ i ∈ s.interners, i.InStock parts
  builders : ∀ b ∈ s.builders, Builder.InStock parts { b with supply := s.supply }

section

variable {s : Session} {parts added : Set Element}

theorem InStock.grow (h : InStock parts s) (hsub : parts ⊆ added) {supply : Nat}
    (hs : Stock supply added) : InStock added { s with supply } where
  stock := hs
  held e he := hsub (h.held e he)
  interners i hi := (h.interners i hi).mono hsub
  builders b hb :=
    ⟨hs, (h.builders b hb).interner.mono hsub, fun e he => hsub ((h.builders b hb).children e he)⟩

theorem InStock.hold (h : InStock parts s) {e : Element} (he : e ∈ parts) :
    InStock parts { s with parts := e :: s.parts } where
  stock := h.stock
  held x hx := by
    rcases List.mem_cons.1 hx with rfl | hx
    · exact he
    · exact h.held x hx
  interners := h.interners
  builders := h.builders

theorem InStock.withInterners (h : InStock parts s) {interners : List Interner}
    (hi : ∀ i ∈ interners, i.InStock parts) : InStock parts { s with interners } :=
  ⟨h.stock, h.held, hi, h.builders⟩

theorem InStock.withBuilders (h : InStock parts s) {builders : List Builder}
    (hb : ∀ b ∈ builders, Builder.InStock parts { b with supply := s.supply }) :
    InStock parts { s with builders } :=
  ⟨h.stock, h.held, h.interners, hb⟩

theorem InStock.makes {α : Type} (h : InStock parts s) {computation : Make α}
    {toElement : α → Element}
    (hadds : Adds computation parts fun added part => toElement part ∈ added) :
    ∃ added, parts ⊆ added ∧ InStock added (s.makes computation toElement) := by
  obtain ⟨added, hsub, hrun⟩ := hadds s.supply h.stock
  refine ⟨added, hsub, ?_⟩
  unfold Session.makes
  generalize computation s.supply = result at hrun ⊢
  cases result with
  | ok part supply => exact (h.grow hsub hrun.1).hold hrun.2
  | error failure supply => exact h.grow hsub hrun

theorem mem_of_mem_rest {α : Type} {all before after : List α} {x y : α}
    (held : all = before ++ x :: after) (hy : y ∈ before ++ after) : y ∈ all := by
  rw [held, List.perm_middle.mem_iff]
  exact List.mem_cons_of_mem x hy

theorem InStock.interns (h : InStock parts s) {before after : List Interner} {interner : Interner}
    (held : s.interners = before ++ interner :: after) (leading : Trivia) (kind : Kind)
    (text : String) (trailing : Trivia) :
    ∃ added, parts ⊆ added ∧ InStock added
      (s.interns before after (interner.token leading kind text trailing)) := by
  have hinterner : interner.InStock parts := h.interners _ (held ▸ List.mem_append_cons_self)
  obtain ⟨added, hsub, hrun⟩ :=
    Interner.token_adds hinterner leading kind text trailing s.supply h.stock
  refine ⟨added, hsub, ?_⟩
  unfold Session.interns
  generalize interner.token leading kind text trailing s.supply = result at hrun ⊢
  cases result with
  | ok made supply =>
    have hgrown := h.grow hsub hrun.1
    refine (hgrown.hold hrun.2.1).withInterners fun i hi => ?_
    rcases List.mem_cons.1 (List.perm_middle.mem_iff.1 hi) with rfl | hi
    · exact hrun.2.2
    · exact hgrown.interners i (mem_of_mem_rest held hi)
  | error failure supply => exact h.grow hsub hrun

theorem InStock.hears (h : InStock parts s) {before after : List Builder} {builder : Builder}
    (held : s.builders = before ++ builder :: after) {event : Builder.Event}
    (offered : event.Offered {e | e ∈ s.parts}) :
    ∃ added, parts ⊆ added ∧ InStock added (s.hears before after builder event) := by
  have hbuilder := h.builders builder (held ▸ List.mem_append_cons_self)
  obtain ⟨added, hsub, hb⟩ := Builder.Event.step_inStock hbuilder (offered.mono h.held)
  -- the other builders will go on from the supply that this one leaves
  have hgrown := h.grow hsub hb.stock
  refine ⟨added, hsub, hgrown.withBuilders fun b hm => ?_⟩
  rcases List.mem_cons.1 (List.perm_middle.mem_iff.1 hm) with rfl | hm
  · exact hb
  · exact hgrown.builders b (mem_of_mem_rest held hm)

end

/-! ## Replacements -/

section

variable {parts : Set Element} {tree : Placed.Tree}

theorem replaceNode_adds (held : tree.green.toElement ∈ parts) {node : Placed.Node}
    (standing : node.Stands tree) {replacement : Node} (hr : replacement.toElement ∈ parts) :
    Adds (node.replace replacement) parts Node.InStock := by
  induction standing generalizing parts replacement with
  | root => exact Adds.pure hr
  | child standing found ih =>
    refine Adds.ofStock fun supply hs => ?_
    have hparent := hs.at? held standing.at?
    refine Adds.bind (Node.replaceSlot_adds hparent _ hr) fun added parent hsub hmade => ?_
    exact ih (hsub held) hmade

theorem replaceToken_adds (held : tree.green.toElement ∈ parts) {token : Placed.Token}
    (standing : token.Stands tree) {replacement : Token} (hr : Element.token replacement ∈ parts) :
    Adds (token.replace replacement) parts Node.InStock := by
  cases standing with
  | child standing found =>
    refine Adds.ofStock fun supply hs => ?_
    have hparent := hs.at? held standing.at?
    refine Adds.bind (Node.replaceSlot_adds hparent _ hr) fun added parent hsub hmade => ?_
    exact replaceNode_adds (hsub held) standing hmade

end

/-! ## Every session -/

section

variable {s t : Session} {parts : Set Element}

theorem Offers.adds (h : InStock parts s) {computation : Make Node} (offered : s.Offers computation) :
    Adds computation parts Node.InStock := by
  cases offered with
  | plain kind slots held => exact Node.plain_adds fun e he => h.held e (held e he)
  | list kind held => exact Node.list_adds fun n hn => h.held _ (held n hn)
  | separated kind held heldToo =>
    exact Node.separated_adds (fun n hn => h.held _ (held n hn)) fun t ht => h.held _ (heldToo t ht)
  | annotate held notes => exact Node.annotate_adds (h.held _ held) notes
  | replaceSlot held slot heldToo =>
    exact Node.replaceSlot_adds (h.held _ held) slot (h.held _ heldToo)
  | insertSlot held slot heldToo =>
    exact Node.insertSlot_adds (h.held _ held) slot (h.held _ heldToo)
  | removeSlot held slot => exact Node.removeSlot_adds (h.held _ held) slot
  | replaceNode held standing heldToo =>
    exact replaceNode_adds (h.held _ held) standing (h.held _ heldToo)
  | replaceToken held standing heldToo =>
    exact replaceToken_adds (h.held _ held) standing (h.held _ heldToo)

/-- **Whatever a caller does next, all that it holds is in one stock.** -/
theorem Step.inStock (h : InStock parts s) (next : Step s t) :
    ∃ added, parts ⊆ added ∧ InStock added t := by
  cases next with
  | token leading kind text trailing => exact h.makes (Token.make_adds leading kind text trailing)
  | node offered => exact h.makes (offered.adds h)
  | slot held inside => exact ⟨parts, subset_rfl, h.hold (h.stock.slot_mem (h.held _ held) _ inside)⟩
  | interner hashing =>
    refine ⟨parts, subset_rfl, h.withInterners fun i hi => ?_⟩
    rcases List.mem_cons.1 hi with rfl | hi
    · exact Interner.InStock.empty hashing
    · exact h.interners i hi
  | intern held leading kind text trailing => exact h.interns held leading kind text trailing
  | build held =>
    have hinterner := h.interners _ (held ▸ List.mem_append_cons_self)
    have hless := h.withInterners fun i hi => h.interners i (mem_of_mem_rest held hi)
    refine ⟨parts, subset_rfl, hless.withBuilders fun b hb => ?_⟩
    rcases List.mem_cons.1 hb with rfl | hb
    · exact ⟨h.stock, hinterner, fun e he => absurd he (Array.not_mem_empty e)⟩
    · exact h.builders b hb
  | event held offered => exact h.hears held offered
  | finish held finished =>
    obtain ⟨hchildren, rfl⟩ := Builder.finish_ok finished
    have hbuilder := h.builders _ (held ▸ List.mem_append_cons_self)
    have hroot := hbuilder.children _ (Array.mem_toList_iff.1 (hchildren ▸ List.mem_cons_self))
    have hless := (h.hold hroot).withBuilders fun b hb => h.builders b (mem_of_mem_rest held hb)
    have hinterners := List.forall_mem_cons.2 ⟨hbuilder.interner, h.interners⟩
    exact ⟨parts, subset_rfl, hless.withInterners hinterners⟩
  | giveUp held =>
    have hbuilder := h.builders _ (held ▸ List.mem_append_cons_self)
    have hless := h.withBuilders fun b hb => h.builders b (mem_of_mem_rest held hb)
    have hinterners := List.forall_mem_cons.2 ⟨hbuilder.interner, h.interners⟩
    exact ⟨parts, subset_rfl, hless.withInterners hinterners⟩

theorem Reachable.exists_stock (reached : s.Reachable) : ∃ parts, InStock parts s := by
  induction reached with
  | start =>
    have hnone {α : Type} {p : α → Prop} : ∀ x ∈ ([] : List α), p x :=
      fun x hx => absurd hx List.not_mem_nil
    exact ⟨∅, Stock.empty, hnone, hnone, hnone⟩
  | step reached next ih =>
    obtain ⟨parts, h⟩ := ih
    obtain ⟨added, -, hnext⟩ := next.inStock h
    exact ⟨added, hnext⟩

end

/-! ## Small trees -/

/-- A name. -/
def seen : Token := ⟨0, .name, .none, "x", .none, by decide, by decide, by decide⟩

/-- A reference to it. -/
def seenRef : Node := ⟨⟨1, .nameRef, .plain, 1, #[0], none⟩, #[.token seen]⟩

theorem seen_reachable : Reachable ⟨1, [.token seen], [], []⟩ :=
  .step .start (.token .none .name "x" .none)

theorem seenRef_reachable : Reachable ⟨2, [seenRef.toElement, .token seen], [], []⟩ :=
  .step seen_reachable (.node (.plain .nameRef #[.token seen] (by simp)))

/-- Two names, and an empty one between them. -/
def names : Node :=
  ⟨⟨3, .exprStmt, .plain, 2, #[0, 1, 1], none⟩, #[
    .token ⟨0, .name, .none, "x", .none, by decide, by decide, by decide⟩,
    .token ⟨1, .name, .none, "", .none, by decide, by decide, by decide⟩,
    .token ⟨2, .name, .none, "y", .none, by decide, by decide, by decide⟩]⟩

/-- A caller that has made them. -/
def ofNames : Session := ⟨4, names.toElement :: names.slots.toList.reverse, [], []⟩

theorem ofNames_reachable : ofNames.Reachable := by
  have h1 := Reachable.step .start (.token .none .name "x" .none)
  have h2 := Reachable.step h1 (.token .none .name "" .none)
  have h3 := Reachable.step h2 (.token .none .name "y" .none)
  have hslots : ∀ e ∈ names.slots, e ∈ names.slots.toList.reverse := by
    simp
  exact .step h3 (.node (.plain .exprStmt names.slots hslots))

theorem names_reachable : ∃ s : Session, s.Reachable ∧ names.toElement ∈ s.parts :=
  ⟨ofNames, ofNames_reachable, List.mem_cons_self⟩

theorem names_tokens : ∀ e ∈ names.slots, e.isNode = false := by
  simp [names, Element.isNode, Element.node?]

/-! ## Layout -/

/-- **In every node that a caller can get to, what it keeps of itself is what its slots give.** -/
theorem layout_of_reachable {s : Session} (reached : s.Reachable) {e : Element} (held : e ∈ s.parts)
    {path : List Nat} {node : Node} (found : e.at? path = some node.toElement) :
    node.width = (node.slots.toList.map Element.width).sum ∧
    node.text.utf8ByteSize = node.width ∧
    (∀ slot < node.arity,
      node.offsetAt slot = .ok ((node.slots.toList.map Element.width).take slot).sum) ∧
    (node.kind.isList = false → node.shape = .plain) ∧
    (node.kind.isList = true →
      ∃ shape, node.shape = .list shape ∧ listShapeOf node.kind node.slots = .ok shape) ∧
    (node.head.notes = none ↔ node.annotations = []) := by
  obtain ⟨parts, h⟩ := reached.exists_stock
  have hwell : node.WellFormed := (h.stock.wellFormed (h.held e held)).at? found
  have htidy := hwell.tidy
  have hshape := htidy.shape
  refine ⟨htidy.width_eq, hwell.text_bytes, fun slot hslot => htidy.offsetAt_eq hslot,
    fun hkind => ?_, fun hkind => ?_, htidy.notes_iff⟩
  · rwa [Node.HasShape, hkind] at hshape
  · rwa [Node.HasShape, if_pos hkind] at hshape

/-- A statement that is a name has the length of the name, and so has the name in it. -/
theorem layout_of_reachable_statement : ∃ (s : Session) (root node : Node),
    s.Reachable ∧ root.toElement ∈ s.parts ∧ root.toElement.at? [0] = some node.toElement ∧
    node.kind = .nameRef ∧ node.text.utf8ByteSize = 1 ∧ node.offsetAt 0 = .ok 0 := by
  let root : Node := ⟨⟨2, .exprStmt, .plain, 1, #[0], none⟩, #[seenRef.toElement]⟩
  have href : ∀ e ∈ #[seenRef.toElement], e ∈ [seenRef.toElement, .token seen] := by simp
  have hroot : Reachable ⟨3, [root.toElement, seenRef.toElement, .token seen], [], []⟩ :=
    .step seenRef_reachable (.node (.plain .exprStmt #[seenRef.toElement] href))
  have hfound : root.toElement.at? [0] = some seenRef.toElement := by
    rw [Node.toElement, Element.at?_node_cons]
    exact Element.at?_nil _
  obtain ⟨-, hbytes, hoffset, -⟩ := layout_of_reachable hroot List.mem_cons_self hfound
  exact ⟨_, root, seenRef, hroot, List.mem_cons_self, hfound, rfl, hbytes,
    hoffset 0 Nat.zero_lt_one⟩

end Session

end LosslessSyntax
