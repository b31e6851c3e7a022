import LosslessSyntax.Proofs.Facade
import LosslessSyntax.Proofs.Green.Update
import LosslessSyntax.Proofs.Splice

/-!
# What a replacement leaves alone

To replace a part changes nothing but the part and the nodes above it. In the new tree, put up where
the old one was, all other parts are the very same green parts at the same paths; those before the
replaced one have not moved, and those after it have moved by what the new part is wider than the old
one.

* `Placed.Element.follow`, `Placed.Tree.Reaches`: the way down to a part, slot by slot;
* `Placed.Node.SharesNotes`: the same annotations at another place;
* `Placed.Element.Kept`, `Placed.Tree.LocalTo`: what becomes of a part, and of all parts of a tree;
* **`Placed.Tree.localTo_of_spliced`**: a spliced tree is changed at one part only;
* **`Session.replace_local`**: every replacement in every tree that a caller can get.
-/

namespace LosslessSyntax

open Green

namespace Placed

/-- An annotation, counted from an offset further left. -/
def noteAt (offset : Nat) (note : Annotation) : Except Violation Annotation := do
  return { note with span := ← note.span.shift offset }

/-- Goes down from a part, slot by slot; below a token there is nothing. -/
def Element.follow : Element → List Nat → Query (Option Element)
  | e, [] => return some e
  | .token _, _ :: _ => return none
  | .node n, slot :: path => do (← n.slotAt slot).follow path

/-- To go down along a path leads to a part, whatever was asked before. It can fail only where there
are more slots than can be numbered. -/
def Tree.Reaches (tree : Tree) (path : List Nat) (part : Element) : Prop :=
  ∀ calls, ∃ memo,
    (Element.node tree.root).follow path ((Facade.start tree.root).after calls).memo =
      .ok (some part) memo ∨
    ¬ tree.Narrow ∧
      (Element.node tree.root).follow path ((Facade.start tree.root).after calls).memo =
        .error .slotTooLarge memo

/-! ## What is kept -/

/-- Two nodes have the same annotations, each as far from the start of its node: where those of the
first are known, and none of them would end out of bounds there, the second has them, too. -/
def Node.SharesNotes (a b : Node) : Prop :=
  ∀ notes, a.annotations = .ok notes →
    (∀ note ∈ notes, note.span.stop + b.start ≤ maxSize + a.start) →
    ∃ notes', b.annotations = .ok notes' ∧ List.Forall₂ (fun note note' =>
      note'.message = note.message ∧ note'.span.start + a.start = note.span.start + b.start ∧
        note'.span.stop + a.start = note.span.stop + b.start) notes notes'

/-- A part away from the replaced one is kept: its path leads to the very same green part. It has not
moved if it comes before the replaced part; if it comes after it, it has moved by what the new part is
wider than the old one. -/
structure Element.Kept (tree after : Tree) (part : Element) (new : Green.Element)
    (e kept : Element) : Prop where
  reached : after.Reaches e.path kept
  green : kept.green = e.green
  same : kept.green.same e.green = true
  notes : ∀ n n', e = .node n → kept = .node n' → n.SharesNotes n'
  beside : Element.Precedes tree e part ∨ Element.Precedes tree part e
  unmoved : Element.Precedes tree e part → kept.span = e.span
  moved : Element.Precedes tree part e → ∃ span span', e.span = .ok span ∧ kept.span = .ok span' ∧
    (span'.start : Int) = span.start + (new.width - part.width) ∧
    (span'.stop : Int) = span.stop + (new.width - part.width)

/-- One tree is another one with a part replaced, as it is seen from all other places. -/
structure Tree.LocalTo (tree after : Tree) (part : Element) (new : Green.Element) : Prop where
  beside : ∀ e : Element, e.Stands tree → e ∉ part.parts → (∀ n ∈ part.above, e ≠ .node n) →
    ∃ kept, Element.Kept tree after part new e kept
  above : ∀ n ∈ part.above, ∃ n' : Node, after.Reaches n.path (.node n') ∧
    ∃ span span', n.span = .ok span ∧ n'.span = .ok span' ∧ span'.start = span.start ∧
      (span'.stop : Int) = span.stop + (new.width - part.width)

/-! ## The way down -/

section

variable {tree : Tree} {e below : Element}

/-- **To follow the path to a part from a part above it leads to the part.** -/
theorem Element.Stands.follow_gives (standing : e.Stands tree) (fits : tree.Fits)
    (hbelow : below.Stands tree) {path : List Nat} (hpath : below.path = e.path ++ path) :
    Query.Gives tree (e.follow path) (.ok (some below)) := by
  induction path generalizing e with
  | nil =>
    rw [List.append_nil] at hpath
    rw [hbelow.eq_of_path standing hpath, Element.follow]
    exact Query.Gives.pure _
  | cons slot path ih =>
    have hat := hbelow.at?
    rw [hpath, Green.Element.at?_append, standing.at?, Option.bind_some] at hat
    cases e with
    | token t => simp [Element.green] at hat
    | node n =>
      rw [Element.green, Green.Node.toElement, Green.Element.at?_node_cons,
        Option.bind_eq_some_iff] at hat
      obtain ⟨child, hchild, -⟩ := hat
      obtain ⟨next, hnext⟩ := Option.isSome_iff_exists.1
        (Node.below?_isSome.2 (Green.Node.lt_arity_of_slot hchild))
      have hrest : below.path = next.path ++ path := by
        rw [hpath, Node.below?_path hnext, List.append_assoc]
        rfl
      have hfollow := ih (Node.Stands.below? standing hnext) hrest
      exact (Node.slotAt_gives standing fits hnext).bind_ok hfollow

theorem Element.Stands.reached (standing : e.Stands tree) (fits : tree.Fits) :
    tree.Reaches e.path e := fun calls =>
  have hroot : (Element.node tree.root).Stands tree := Node.Stands.root
  (hroot.follow_gives fits standing rfl).run ((Facade.valid_start tree).after fits calls).memo

end

/-! ## Annotations -/

theorem noteAt_eq (offset : Nat) (note : Annotation) : noteAt offset note =
    if note.span.stop + offset ≤ maxSize then
      .ok ⟨⟨note.span.start + offset, note.span.stop + offset,
        Nat.add_le_add_right note.span.start_le_stop _⟩, note.message⟩
    else .error .spanOverflow := by
  rw [noteAt, Span.shift]
  split_ifs <;> rfl

theorem noteAt_twice {note moved : Annotation} {here there : Nat} (h : noteAt here note = .ok moved)
    (room : moved.span.stop + there ≤ maxSize + here) :
    ∃ moved', noteAt there note = .ok moved' ∧ moved'.message = moved.message ∧
      moved'.span.start + here = moved.span.start + there ∧
      moved'.span.stop + here = moved.span.stop + there := by
  rw [noteAt_eq] at h
  split_ifs at h
  cases h
  dsimp only at room
  refine ⟨_, (noteAt_eq there note).trans (if_pos (by omega)), rfl, ?_, ?_⟩
  · dsimp only
    omega
  · dsimp only
    omega

theorem Node.sharesNotes_of_green {a b : Node} (h : b.green = a.green) : a.SharesNotes b := by
  intro notes hnotes hroom
  change a.green.annotations.mapM (noteAt a.start) = .ok notes at hnotes
  change ∃ notes', b.green.annotations.mapM (noteAt b.start) = .ok notes' ∧ _
  rw [h]
  generalize a.green.annotations = row at hnotes
  induction row generalizing notes with
  | nil =>
    cases hnotes
    exact ⟨[], rfl, .nil⟩
  | cons note row ih =>
    rw [List.mapM_cons] at hnotes
    cases hfirst : noteAt a.start note with
    | error violation =>
      rw [hfirst] at hnotes
      cases hnotes
    | ok moved =>
      cases hrest : row.mapM (noteAt a.start) with
      | error violation =>
        rw [hfirst, hrest] at hnotes
        cases hnotes
      | ok rest =>
        rw [hfirst, hrest] at hnotes
        cases hnotes
        obtain ⟨hmoved, hroom⟩ := List.forall_mem_cons.1 hroom
        obtain ⟨moved', hfirst', hsame⟩ := noteAt_twice hfirst hmoved
        obtain ⟨rest', hrest', hrow⟩ := ih rest hroom hrest
        refine ⟨moved' :: rest', ?_, .cons hsame hrow⟩
        rw [List.mapM_cons, hfirst', hrest']
        rfl

/-! ## Spliced trees -/

section

variable {tree after : Tree} {part e : Element} {new : Green.Element}

/-- What is neither the replaced part nor above or below it stands to one side of it. -/
theorem Element.Stands.beside (he : e.Stands tree) (hpart : part.Stands tree)
    (hbelow : e ∉ part.parts) (habove : ∀ n ∈ part.above, e ≠ .node n) :
    ¬ e.path <+: part.path ∧ ¬ part.path <+: e.path := by
  refine ⟨fun h => ?_, fun h => hbelow ((hpart.mem_parts_iff he).2 h)⟩
  rcases he.eq_or_above hpart h with rfl | ⟨n, hn, hsame⟩
  · exact hbelow e.mem_parts_self
  · exact habove n hn hsame

/-- What is away from the replaced part is kept. -/
theorem Element.Stands.kept_of_spliced (he : e.Stands tree) (hpart : part.Stands tree)
    (fits : tree.Fits) (fits' : after.Fits) (hstart : after.start = tree.start)
    (h : Green.Element.Spliced new part.path tree.green.toElement after.green.toElement)
    (hbelow : e ∉ part.parts) (habove : ∀ n ∈ part.above, e ≠ .node n) :
    ∃ kept, Element.Kept tree after part new e kept := by
  obtain ⟨honward, honward'⟩ := he.beside hpart hbelow habove
  have hat := (h.at?_beside honward honward').trans he.at?
  obtain ⟨kept, standing, hpath, hgreen⟩ := Tree.exists_standing hat
  have hfrom := he.start_eq
  have hkept := standing.start_eq
  rw [hpath, hstart] at hkept
  have hwidth : kept.width = e.width := congrArg Green.Element.width hgreen
  have hne : e ≠ part := fun hsame => hbelow (hsame ▸ part.mem_parts_self)
  refine ⟨kept, hpath ▸ standing.reached fits', hgreen, ?_, ?_, he.precedes_or hpart hne,
    fun hbefore => ?_, fun hafter => ?_⟩
  · rw [hgreen]
    exact Green.Element.same_iff.2 ⟨rfl, rfl⟩
  · rintro n n' rfl rfl
    exact Node.sharesNotes_of_green (Option.some.inj (congrArg Green.Element.node? hgreen))
  · have hleft := hbefore.cases.resolve_left honward
    have hsame : kept.start = e.start := by
      rw [hkept, hfrom, h.startAt_before (.inr hleft)]
    rw [standing.span_eq fits', he.span_eq fits]
    simp only [hsame, hwidth]
  · have hright := hafter.cases.resolve_left honward'
    have hmoved := h.startAt_after hpart.at? fits.wellFormed fits'.wellFormed hright
    change _ + part.width = _ + new.width at hmoved
    refine ⟨_, _, he.span_eq fits, standing.span_eq fits', ?_, ?_⟩
    · dsimp only
      omega
    · dsimp only
      omega

theorem Tree.Fits.of_spliced (fits : tree.Fits) (hpart : part.Stands tree) {made : Green.Node}
    (h : Green.Element.Spliced new part.path tree.green.toElement made.toElement)
    (well : made.WellFormed)
    (room : tree.start + (tree.green.width - part.width + new.width) ≤ maxSize) (number : Nat) :
    Tree.Fits ⟨number, tree.start, made⟩ where
  wellFormed := well
  stop_le := by
    have hwidth := h.width_add hpart.at? fits.wellFormed well
    change made.width + part.width = tree.green.width + new.width at hwidth
    change tree.start + made.width ≤ maxSize
    omega

/-- **A spliced tree is changed at one part only.** -/
theorem Tree.localTo_of_spliced (hpart : part.Stands tree) (fits : tree.Fits) (fits' : after.Fits)
    (hstart : after.start = tree.start) (hsort : new.isNode = part.green.isNode)
    (h : Green.Element.Spliced new part.path tree.green.toElement after.green.toElement) :
    tree.LocalTo after part new where
  beside e he hbelow habove := he.kept_of_spliced hpart fits fits' hstart h hbelow habove
  above n hn := by
    have hnode : (Element.node n).Stands tree := hpart.of_mem_above hn
    obtain ⟨honward, -⟩ := (hpart.mem_above_iff hnode).1 hn
    obtain ⟨green, hat, hnodeSort, hwidth⟩ :=
      h.above hpart.at? hsort fits.wellFormed fits'.wellFormed honward hnode.at?
    obtain ⟨kept, standing, hpath, rfl⟩ := Tree.exists_standing hat
    cases kept with
    | token t => cases hnodeSort
    | node n' =>
      have hkept := standing.start_eq
      rw [hpath, hstart, h.startAt_before (.inl honward)] at hkept
      have hsame : n'.start = n.start := hkept.trans hnode.start_eq.symm
      change n'.width + part.width = n.width + new.width at hwidth
      refine ⟨n', hpath ▸ standing.reached fits', _, _, hnode.span_eq fits,
        standing.span_eq fits', hsame, ?_⟩
      change ((n'.start + n'.width : Nat) : Int) = (n.start + n.width : Nat) + _
      omega

end

end Placed

namespace Session

open Placed (Tree)

/-- **Replacements are local.** To replace a node or a token gives a tree in which, put up at the same
offset, all that is not the replaced part, nor above or below it, is kept: what comes before it where
it was, and what comes after it moved by what the new part is wider. The nodes above it begin where
they did and end moved by that, too. -/
theorem replace_local {s : Session} (reached : s.Reachable) {tree : Tree}
    (held : tree.green.toElement ∈ s.parts) (room : tree.start + tree.green.width ≤ maxSize)
    (number supply : Nat) :
    (∀ node : Placed.Node, node.Stands tree → ∀ replacement : Node, replacement.toElement ∈ s.parts →
      tree.start + (tree.green.width - node.width + replacement.width) ≤ maxSize →
      ∃ made next, node.replace replacement supply = .ok made next ∧
        tree.LocalTo ⟨number, tree.start, made⟩ (.node node) replacement.toElement) ∧
    (∀ token : Placed.Token, token.Stands tree → ∀ replacement : Token,
      tree.start + (tree.green.width - token.green.width + replacement.width) ≤ maxSize →
      ∃ made next, token.replace replacement supply = .ok made next ∧
        tree.LocalTo ⟨number, tree.start, made⟩ (.token token) (.token replacement)) := by
  have fits := fits_of_reachable reached held room
  have well : tree.green.WellFormed := fits.wellFormed
  constructor
  · intro node standing replacement heldToo roomToo
    obtain ⟨parts, h⟩ := reached.exists_stock
    have hnew : replacement.WellFormed := h.stock.wellFormed (h.held _ heldToo)
    have hpart : (Placed.Element.node node).Stands tree := standing
    obtain ⟨made, next, hrun, hsplices⟩ := (standing.replace_run well replacement supply).splices well
      (.node node) hpart (Nat.le_of_add_left_le roomToo)
    have hmade := standing.replace_wellFormed well hnew hrun
    have fits' := fits.of_spliced hpart hsplices.spliced hmade roomToo number
    exact ⟨made, next, hrun, Tree.localTo_of_spliced hpart fits fits' rfl rfl hsplices.spliced⟩
  · intro token standing replacement roomToo
    have hpart : (Placed.Element.token token).Stands tree := standing
    obtain ⟨made, next, hrun, hsplices⟩ := (standing.replace_run well replacement supply).splices well
      (.token token) hpart (Nat.le_of_add_left_le roomToo)
    have hmade := standing.replace_wellFormed well hrun
    have fits' := fits.of_spliced hpart hsplices.spliced hmade roomToo number
    exact ⟨made, next, hrun, Tree.localTo_of_spliced hpart fits fits' rfl rfl hsplices.spliced⟩

/-- A longer name comes in the place of the first one, and the last one moves. -/
theorem replace_local_names : ∃ s : Session, s.Reachable ∧ names.toElement ∈ s.parts ∧
    ∃ (first last kept : Placed.Token) (why : Token) (made : Node) (next : Nat),
      first.Stands ⟨0, 7, names⟩ ∧ first.text = "x" ∧ last.Stands ⟨0, 7, names⟩ ∧
      last.span = .ok ⟨8, 9, by decide⟩ ∧ why.text = "why" ∧
      first.replace why 4 = .ok made next ∧ Tree.Reaches ⟨1, 7, made⟩ [2] (.token kept) ∧
      kept.green = last.green ∧ kept.span = .ok ⟨10, 11, by decide⟩ := by
  obtain ⟨s, reached, held⟩ := names_reachable
  let tree : Tree := ⟨0, 7, names⟩
  let x : Token := ⟨0, .name, .none, "x", .none, by decide, by decide, by decide⟩
  let y : Token := ⟨2, .name, .none, "y", .none, by decide, by decide, by decide⟩
  let why : Token := ⟨4, .name, .none, "why", .none, by decide, by decide, by decide⟩
  let first : Placed.Token := tree.root.tokenBelow 0 x
  let last : Placed.Token := tree.root.tokenBelow 2 y
  have hfirst : first.Stands tree := .child .root rfl
  have hlast : last.Stands tree := .child .root rfl
  have htree : tree.green.toElement ∈ s.parts := held
  obtain ⟨-, htokens⟩ := replace_local reached htree (by decide) 1 4
  obtain ⟨made, next, hrun, hlocal⟩ := htokens first hfirst why (by decide)
  have hother : Placed.Element.token last ∉ (Placed.Element.token first).parts := fun hmem => by
    have hpath := congrArg Placed.Element.path (List.mem_singleton.1 hmem)
    exact absurd hpath (by decide : [2] ≠ [0])
  obtain ⟨kept, hkept⟩ := hlocal.beside (.token last) hlast hother (fun _ _ h => nomatch h)
  have hafter : Placed.Element.Precedes tree (.token first) (.token last) := by
    refine hkept.beside.resolve_left fun hbefore => ?_
    have hcases : [2] <+: [0] ∨ Placed.LeftOf [2] [0] := hbefore.cases
    rcases hcases with honward | hleft
    · exact absurd honward (by decide)
    · cases hleft with
      | turn h _ _ => exact absurd h (by decide)
  obtain ⟨span, span', hspan, hspan', hstart, hstop⟩ := hkept.moved hafter
  cases (Except.ok.inj hspan : (⟨8, 9, _⟩ : Span) = span)
  cases kept with
  | node n => exact nomatch hkept.green
  | token t =>
    have hmoved : span' = ⟨10, 11, by decide⟩ := by
      have hstart' : (span'.start : Int) = 10 := hstart
      have hstop' : (span'.stop : Int) = 11 := hstop
      obtain ⟨start, stop, hle⟩ := span'
      obtain rfl : start = 10 := Int.ofNat.inj hstart'
      obtain rfl : stop = 11 := Int.ofNat.inj hstop'
      rfl
    refine ⟨s, reached, held, first, last, t, why, made, next, hfirst, rfl, hlast, rfl, rfl, hrun,
      hkept.reached, ?_, hmoved ▸ hspan'⟩
    exact Green.Element.token.inj hkept.green

end Session

end LosslessSyntax
