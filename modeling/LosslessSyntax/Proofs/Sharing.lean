import LosslessSyntax.Proofs.Green.Equality
import LosslessSyntax.Proofs.Interner
import LosslessSyntax.Proofs.Session

/-!
# Sharing

The owner of an interner asks it for tokens and lends it to builders, one after the other, and may
make other parts elsewhere in between. Whatever was got through the interner in all that time is
shared as far as can be: there is one token for all the same contents, and one node for all the same
trees, if no node in them is too large to be kept.

* `Builder.Event.gained`: what an event of a builder gets through the interner;
* `Interner.History`: all that can happen to an interner;
* `Interner.Tended`, `Builder.Event.step_tended`: what an event leaves in the interner;
* `Interner.Shared`: what is known of all that was got through an interner;
* `Interner.Shared.eq_of_alike`: parts that are alike are one part;
* **`Interner.History.shared`**: this is so after every history;
* **`Interner.History.sharing_maximal`**: the same contents are the same part, and no others are.
-/

namespace LosslessSyntax

open Green
open Builder (Event)

/-! ## What is got through an interner -/

namespace Builder.Event

/-- The events that ask the interner for a part. -/
def asks : Event → Bool
  | token _ _ => true
  | triviaToken _ _ _ _ => true
  | closeNode => true
  | closeList => true
  | _ => false

/-- What an event gets through the interner: the last child then, unless there is something in its
slots that came from elsewhere. -/
def gained (made : Set Element) (event : Event) (outcome : Answer × Builder) : Set Element :=
  {e | event.asks = true ∧ outcome.1 = .ok none ∧ outcome.2.children.back? = some e ∧
    ∀ node : Node, node.toElement = e → ∀ x ∈ node.slots, x ∈ made}

theorem mem_gained {made : Set Element} {event : Event} {outcome : Answer × Builder} {node : Node}
    (asked : event.asks = true) (answered : outcome.1 = .ok none)
    (last : outcome.2.children.back? = some node.toElement) (below : ∀ x ∈ node.slots, x ∈ made) :
    node.toElement ∈ event.gained made outcome := by
  refine ⟨asked, answered, last, ?_⟩
  rintro ⟨head, slots⟩ hnode x hx
  cases hnode
  exact below x hx

end Builder.Event

namespace Interner

/-- Who has an interner: its owner, or the builder that it is lent to. -/
inductive Holder where
  | owner (interner : Interner)
  | borrower (builder : Builder)

/-- The interner that is held. -/
def Holder.interner : Holder → Interner
  | owner interner => interner
  | borrower builder => builder.interner

/-- The children that the holder has in its row. -/
def Holder.children : Holder → Array Element
  | owner _ => #[]
  | borrower builder => builder.children

/-- All that can happen to an interner, from the time when it is new. The session is what its owner
holds besides; `made` is what was got through the interner so far. -/
inductive History : Session → Holder → Set Element → Prop
  | new {s : Session} (reached : s.Reachable) (hashing : Hashing) :
    History s (.owner (.empty hashing)) ∅
  | elsewhere {s t : Session} {holder : Holder} {made : Set Element} (before : History s holder made)
      (next : s.Step t) : History t holder made
  | token {s : Session} {interner after : Interner} {made : Set Element}
      (before : History s (.owner interner) made) (leading : Trivia) (kind : Kind) (text : String)
      (trailing : Trivia) {given : Token} {supply : Nat}
      (run : interner.token leading kind text trailing s.supply = .ok (given, after) supply) :
      History { s with supply, parts := .token given :: s.parts } (.owner after)
        (insert (.token given) made)
  | refused {s : Session} {interner : Interner} {made : Set Element}
      (before : History s (.owner interner) made) (leading : Trivia) (kind : Kind) (text : String)
      (trailing : Trivia) {failure : Failure} {supply : Nat}
      (run : interner.token leading kind text trailing s.supply = .error failure supply) :
      History { s with supply } (.owner interner) made
  | lend {s : Session} {interner : Interner} {made : Set Element}
      (before : History s (.owner interner) made) :
      History s (.borrower (Builder.start s.supply interner)) made
  | event {s : Session} {builder : Builder} {made : Set Element}
      (before : History s (.borrower builder) made) {event : Event}
      (offered : event.Offered {e | e ∈ s.parts}) {outcome : Builder.Answer × Builder}
      (run : event.step { builder with supply := s.supply } = outcome) :
      History { s with supply := outcome.2.supply } (.borrower outcome.2)
        (made ∪ event.gained made outcome)
  | finish {s : Session} {builder done : Builder} {root : Node} {made : Set Element}
      (before : History s (.borrower builder) made)
      (finished : Builder.finish builder = .ok root done) :
      History { s with parts := root.toElement :: s.parts } (.owner done.interner) made
  | giveUp {s : Session} {builder : Builder} {made : Set Element}
      (before : History s (.borrower builder) made) : History s (.owner builder.interner) made

/-! ## What an event leaves in the interner -/

/-- After an event each key is there once, all that was kept still is, and what was asked for is
kept, too. -/
structure Tended (interner : Interner) (asked : Bool) (outcome : Builder.Answer × Builder) :
    Prop where
  orderly : outcome.2.interner.Orderly
  grows : interner.Grows outcome.2.interner
  keeps : asked = true → outcome.1 = .ok none → ∀ e, outcome.2.children.back? = some e →
    outcome.2.interner.Keeps e

theorem Tended.untouched {interner : Interner} (h : interner.Orderly) {asked : Bool}
    {outcome : Builder.Answer × Builder} (same : outcome.2.interner = interner)
    (idle : asked = true → outcome.1 ≠ .ok none) : Tended interner asked outcome where
  orderly := same ▸ h
  grows := same ▸ .refl _
  keeps hasked hanswer := absurd hanswer (idle hasked)

end Interner

namespace Builder.Event

open Interner (Tended)

variable {builder : Builder}

theorem tokenRequest_run (interner : Interner) (leading trailing : List Trivia.Piece) (kind : Kind)
    (text : String) (supply : Nat) :
    tokenRequest interner leading kind text trailing supply =
      match Trivia.ofPieces leading, Trivia.ofPieces trailing with
      | .error violation, _ => .error (.violated violation) supply
      | .ok _, .error violation => .error (.violated violation) supply
      | .ok before, .ok after => interner.token before kind text after supply := by
  change EStateM.bind (liftM (Trivia.ofPieces leading)) (fun before =>
    EStateM.bind (liftM (Trivia.ofPieces trailing)) fun after =>
      interner.token before kind text after) supply = _
  generalize Trivia.ofPieces leading = before
  generalize Trivia.ofPieces trailing = after
  cases before with
  | error violation => rfl
  | ok before => cases after <;> rfl

theorem tokenRequest_ok {interner : Interner} {leading trailing : List Trivia.Piece} {kind : Kind}
    {text : String} {supply next : Nat} {result : Token × Interner}
    (h : tokenRequest interner leading kind text trailing supply = .ok result next) :
    ∃ before after, interner.token before kind text after supply = .ok result next := by
  rw [tokenRequest_run] at h
  generalize Trivia.ofPieces leading = before at h
  generalize Trivia.ofPieces trailing = after at h
  cases before with
  | error violation => cases h
  | ok before =>
    cases after with
    | error violation => cases h
    | ok after => exact ⟨before, after, h⟩

theorem tokened_tended (h : builder.interner.Orderly) (leading : List Trivia.Piece) (kind : Kind)
    (text : String) (trailing : List Trivia.Piece) : Tended builder.interner true
      (tokened builder (tokenRequest builder.interner leading kind text trailing)) := by
  unfold tokened
  cases hrun : tokenRequest builder.interner leading kind text trailing builder.supply with
  | ok result next =>
    obtain ⟨given, interner⟩ := result
    obtain ⟨before, after, htoken⟩ := tokenRequest_ok hrun
    obtain ⟨hkeeps, hgrows⟩ := Interner.keeps_token htoken
    refine ⟨h.token htoken, hgrows, fun _ _ e he => ?_⟩
    rw [Array.back?_push, Option.some_inj] at he
    exact he ▸ hkeeps
  | error failure next => exact .untouched h rfl (by simp)

theorem step_token_ok {kind : Kind} {text : String} {given : Token} {interner : Interner} {next : Nat}
    (h : builder.interner.token .none kind text .none builder.supply = .ok (given, interner) next) :
    (token kind text).step builder = (.ok none,
      ⟨next, interner, builder.opened, builder.children.push (.token given)⟩) := by
  have hrequest : tokenRequest builder.interner [] kind text [] builder.supply =
      .ok (given, interner) next := h
  rw [step_token, step_triviaToken, tokened, hrequest]

theorem wrapped_ok {opened : List Entry} {entry : Entry} {shape : Shape} {given : Node}
    {interner : Interner} {next : Nat}
    (h : builder.interner.node entry.kind shape
      (builder.children.extract entry.first builder.children.size) builder.supply =
        .ok (given, interner) next) :
    wrapped builder opened entry shape =
      (.ok none, ⟨next, interner, opened,
        (builder.children.take entry.first).push given.toElement⟩) := by
  rw [wrapped, h]

theorem wrapped_tended (h : builder.interner.Orderly) (opened : List Entry) (entry : Entry)
    (shape : Shape) : Tended builder.interner true (wrapped builder opened entry shape) := by
  cases hrun : builder.interner.node entry.kind shape
    (builder.children.extract entry.first builder.children.size) builder.supply with
  | ok result next =>
    obtain ⟨given, interner⟩ := result
    obtain ⟨hkeeps, hgrows⟩ := Interner.keeps_node hrun
    rw [wrapped_ok hrun]
    refine ⟨h.node hrun, hgrows, fun _ _ e he => ?_⟩
    rw [Array.back?_push, Option.some_inj] at he
    exact he ▸ hkeeps
  | error failure next =>
    rw [wrapped, hrun]
    exact .untouched h rfl (by simp)

theorem close_tended (h : builder.interner.Orderly) (layout : Layout) :
    Tended builder.interner true (layout.close.step builder) := by
  rw [step_close]
  split
  · exact .untouched h rfl (by simp)
  · split_ifs
    · split
      · exact .untouched h rfl (by simp)
      · exact wrapped_tended h _ _ _
    · exact .untouched h rfl (by simp)

/-- **What an event leaves in the interner**, whether it fails or not. -/
theorem step_tended (builder : Builder) (h : builder.interner.Orderly) (event : Event) :
    Tended builder.interner event.asks (event.step builder) := by
  cases event with
  | openNode kind => exact .untouched h rfl (by simp [asks])
  | openList kind => exact .untouched h rfl (by simp [asks])
  | openNodeAt place kind =>
    rw [step_openNodeAt]
    split_ifs <;> exact .untouched h rfl (by simp [asks])
  | closeNode => exact close_tended h .node
  | closeList => exact close_tended h .list
  | token kind text =>
    rw [step_token, step_triviaToken]
    exact tokened_tended h [] kind text []
  | triviaToken leading kind text trailing =>
    rw [step_triviaToken]
    exact tokened_tended h leading kind text trailing
  | subtree node => exact .untouched h rfl (by simp [asks])
  | mark => exact .untouched h rfl (by simp [asks])

end Builder.Event

/-! ## All that was got through an interner -/

namespace Interner

/-- What is known of all that was got through an interner: it is kept, unless it is large, and all
that is in its slots was got through the interner, too. -/
structure Shared (parts : Set Element) (s : Session) (holder : Holder) (made : Set Element) :
    Prop where
  session : Session.InStock parts s
  interner : holder.interner.InStock parts
  children : ∀ e ∈ holder.children, e ∈ parts
  orderly : holder.interner.Orderly
  held : ∀ e ∈ made, e ∈ parts
  keeps : ∀ e ∈ made, holder.interner.Keeps e
  slots : ∀ node : Node, node.toElement ∈ made → ∀ e ∈ node.slots, e ∈ made

section

variable {parts added made made' : Set Element} {s t : Session} {holder holder' : Holder}

theorem Shared.next (h : Shared parts s holder made) (hsub : parts ⊆ added)
    (session : Session.InStock added t) (interner : holder'.interner.InStock added)
    (children : ∀ e ∈ holder'.children, e ∈ added) (orderly : holder'.interner.Orderly)
    (grows : holder.interner.Grows holder'.interner) (more : made ⊆ made')
    (got : ∀ e ∈ made', e ∈ made ∨ e ∈ added ∧ holder'.interner.Keeps e ∧
      ∀ node : Node, node.toElement = e → ∀ x ∈ node.slots, x ∈ made) :
    Shared added t holder' made' where
  session := session
  interner := interner
  children := children
  orderly := orderly
  held e he := by
    rcases got e he with hold | ⟨hnew, -⟩
    · exact hsub (h.held e hold)
    · exact hnew
  keeps e he := by
    rcases got e he with hold | ⟨-, hkept, -⟩
    · exact (h.keeps e hold).mono grows
    · exact hkept
  slots node hnode x hx := by
    rcases got _ hnode with hold | ⟨-, -, hslots⟩
    · exact more (h.slots node hold x hx)
    · exact more (hslots node rfl x hx)

theorem Shared.idle (h : Shared parts s holder made) (hsub : parts ⊆ added)
    (session : Session.InStock added t) : Shared added t holder made :=
  h.next hsub session (h.interner.mono hsub) (fun e he => hsub (h.children e he)) h.orderly
    (.refl _) subset_rfl fun _ he => .inl he

/-- **What is got through an interner is kept and shared**, whatever happens. -/
theorem History.shared (history : History s holder made) : ∃ parts, Shared parts s holder made := by
  induction history with
  | new reached hashing =>
    obtain ⟨parts, h⟩ := reached.exists_stock
    exact ⟨parts, h, .empty hashing, fun e he => absurd he (Array.not_mem_empty e), .empty hashing,
      fun e he => he.elim, fun e he => he.elim, fun node he => he.elim⟩
  | elsewhere before next ih =>
    obtain ⟨parts, h⟩ := ih
    obtain ⟨added, hsub, hnext⟩ := next.inStock h.session
    exact ⟨added, h.idle hsub hnext⟩
  | token before leading kind text trailing run ih =>
    obtain ⟨parts, h⟩ := ih
    obtain ⟨added, hsub, hstock, hgiven, hafter⟩ :=
      (token_adds h.interner leading kind text trailing).run_ok h.session.stock run
    obtain ⟨hkeeps, hgrows⟩ := keeps_token run
    refine ⟨added, h.next hsub ((h.session.grow hsub hstock).hold hgiven) hafter
      (fun e he => absurd he (Array.not_mem_empty e)) (h.orderly.token run) hgrows
      (Set.subset_insert _ _) ?_⟩
    rintro e (rfl | he)
    · exact .inr ⟨hgiven, hkeeps, fun node hnode => nomatch hnode⟩
    · exact .inl he
  | refused before leading kind text trailing run ih =>
    obtain ⟨parts, h⟩ := ih
    obtain ⟨added, hsub, hstock⟩ :=
      (token_adds h.interner leading kind text trailing).run_error h.session.stock run
    exact ⟨added, h.idle hsub (h.session.grow hsub hstock)⟩
  | lend before ih =>
    obtain ⟨parts, h⟩ := ih
    exact ⟨parts, h.next subset_rfl h.session h.interner h.children h.orderly (.refl _) subset_rfl
      fun _ he => .inl he⟩
  | @event s builder made before event offered outcome run ih =>
    obtain ⟨parts, h⟩ := ih
    have hbuilder : Builder.InStock parts { builder with supply := s.supply } :=
      ⟨h.session.stock, h.interner, h.children⟩
    obtain ⟨added, hsub, hafter⟩ :=
      Builder.Event.step_inStock hbuilder (offered.mono h.session.held)
    have htended :=
      Builder.Event.step_tended { builder with supply := s.supply } h.orderly event
    rw [run] at hafter htended
    refine ⟨added, h.next hsub (h.session.grow hsub hafter.stock) hafter.interner hafter.children
      htended.orderly htended.grows Set.subset_union_left ?_⟩
    rintro e (he | ⟨hasked, hanswer, hlast, hslots⟩)
    · exact .inl he
    · refine .inr ⟨hafter.children e ?_, htended.keeps hasked hanswer e hlast, hslots⟩
      exact Array.mem_of_back? hlast
  | finish before finished ih =>
    obtain ⟨parts, h⟩ := ih
    obtain ⟨hchildren, rfl⟩ := Builder.finish_ok finished
    have hroot := h.children _ (Array.mem_toList_iff.1 (hchildren ▸ List.mem_cons_self))
    exact ⟨parts, h.next subset_rfl (h.session.hold hroot) h.interner
      (fun e he => absurd he (Array.not_mem_empty e)) h.orderly (.refl _) subset_rfl
      fun _ he => .inl he⟩
  | giveUp before ih =>
    obtain ⟨parts, h⟩ := ih
    exact ⟨parts, h.next subset_rfl h.session h.interner
      (fun e he => absurd he (Array.not_mem_empty e)) h.orderly (.refl _) subset_rfl
      fun _ he => .inl he⟩

end

/-! ## One part for all the same contents -/

/-- No node of an element is too large to be kept. -/
def Small (e : Element) : Prop := e.AllNodes fun node => node.arity ≤ maxSlots

theorem tokenKey_eq_iff {a b : Token} : tokenKey a = tokenKey b ↔ a.kind = b.kind ∧
    a.text = b.text ∧ a.leading.pieces = b.leading.pieces ∧
    a.trailing.pieces = b.trailing.pieces := by
  have htrivia : ∀ x y : Trivia, x = y ↔ x.pieces = y.pieces := by
    rintro ⟨pieces, _⟩ ⟨pieces', _⟩
    simp
  rw [tokenKey, tokenKey, Prod.mk.injEq, Prod.mk.injEq, Prod.mk.injEq, htrivia, htrivia]

section

variable {parts made : Set Element} {s : Session} {holder : Holder}

theorem eq_of_alikeRows {as bs : List Element} (ha : ∀ a ∈ as, ∀ b ∈ made, a.Alike b → a = b)
    (hb : ∀ b ∈ bs, b ∈ made) (h : Element.AlikeRows as bs) : as = bs := by
  induction as generalizing bs with
  | nil =>
    cases bs with
    | nil => rfl
    | cons b bs => simp [Element.AlikeRows] at h
  | cons a as ih =>
    cases bs with
    | nil => simp [Element.AlikeRows] at h
    | cons b bs =>
      obtain ⟨hab, hrest⟩ := Element.alikeRows_cons.1 h
      obtain ⟨hafirst, hafter⟩ := List.forall_mem_cons.1 ha
      obtain ⟨hbfirst, hbafter⟩ := List.forall_mem_cons.1 hb
      rw [hafirst b hbfirst hab, ih hafter hbafter hrest]

/-- **Parts that are alike are one part**, if they were got through one interner and are small. -/
theorem Shared.eq_of_alike (h : Shared parts s holder made) {a b : Element} (ha : a ∈ made)
    (hb : b ∈ made) (small : Small a) (halike : a.Alike b) : a = b := by
  induction a generalizing b with
  | token t =>
    cases b with
    | token t' =>
      have hbare : t.bare = t'.bare := Element.alike_token.1 halike
      have hkey : tokenKey t.bare = tokenKey t'.bare := congrArg tokenKey hbare
      rw [h.orderly.eq_of_tokenKey (h.keeps _ ha) (h.keeps _ hb) hkey]
    | node head slots => simp [Element.Alike] at halike
  | node head slots ih =>
    cases b with
    | token t => simp [Element.Alike] at halike
    | node head' slots' =>
      obtain ⟨hhead, hrows⟩ := Element.alike_node.1 halike
      have hsmall : (Node.toElement ⟨head, slots⟩).AllNodes fun node => node.arity ≤ maxSlots := small
      have hleft : ∀ x ∈ slots.toList, ∀ y ∈ made, x.Alike y → x = y := fun x hx y hy hxy =>
        have hmem := Array.mem_toList_iff.1 hx
        ih x hmem (h.slots ⟨head, slots⟩ ha x hmem) hy (hsmall.slot hmem) hxy
      have hright : ∀ y ∈ slots'.toList, y ∈ made := fun y hy =>
        h.slots ⟨head', slots'⟩ hb y (Array.mem_toList_iff.1 hy)
      -- the same parts are in the slots now, and so both nodes have one key
      obtain rfl := Array.toList_inj.1 (eq_of_alikeRows hleft hright hrows)
      have hsize : slots.size ≤ maxSlots := hsmall.root
      have hkey : nodeKey ⟨head.bare, slots⟩ = nodeKey ⟨head'.bare, slots⟩ := by rw [hhead]
      exact congrArg Node.toElement
        (h.orderly.eq_of_nodeKey (h.keeps _ ha hsize) (h.keeps _ hb hsize) hkey)

/-- **The same contents are the same part, and no others are**: of all tokens that were got through an
interner those with one text, one kind and the same trivia, and of all nodes, as long as they are
small, those that are equal. -/
theorem History.sharing_maximal (history : History s holder made) :
    (∀ a b : Token, Element.token a ∈ made → Element.token b ∈ made →
      ((Element.token a).same (.token b) = true ↔ a.kind = b.kind ∧ a.text = b.text ∧
        a.leading.pieces = b.leading.pieces ∧ a.trailing.pieces = b.trailing.pieces)) ∧
    (∀ a b : Node, a.toElement ∈ made → b.toElement ∈ made → Small a.toElement →
      Small b.toElement →
      (a.toElement.same b.toElement = true ↔ a.toElement.equal b.toElement = true)) := by
  obtain ⟨parts, h⟩ := history.shared
  constructor
  · intro a b ha hb
    rw [← tokenKey_eq_iff]
    constructor
    · intro hsame
      cases h.session.stock.eq_of_same (h.held _ ha) (h.held _ hb) hsame
      rfl
    · intro hkey
      rw [h.orderly.eq_of_tokenKey (h.keeps _ ha) (h.keeps _ hb) hkey]
      exact Element.same_iff.2 ⟨rfl, rfl⟩
  · intro a b ha hb small _
    rw [h.session.stock.equal_iff (h.held _ ha) (h.held _ hb)]
    constructor
    · intro hsame
      exact congrArg Element.bare (h.session.stock.eq_of_same (h.held _ ha) (h.held _ hb) hsame)
    · intro halike
      rw [h.eq_of_alike ha hb small halike]
      exact Element.same_iff.2 ⟨rfl, rfl⟩

/-- Two tokens with one text differ in their trivia; two builders give the same reference. -/
theorem History.sharing_maximal_names : ∃ (s : Session) (builder : Builder) (made : Set Element)
    (a b : Token) (ref again : Node), History s (.borrower builder) made ∧
    Element.token a ∈ made ∧ Element.token b ∈ made ∧ a.text = b.text ∧
    (Element.token a).same (.token b) ≠ true ∧
    ref.toElement ∈ made ∧ builder.children.back? = some again.toElement ∧
    again.toElement ∈ made ∧ ref.toElement.same again.toElement = true := by
  let blank : Trivia := ⟨[⟨.whitespace, 1⟩], by decide⟩
  let a : Token := ⟨0, .name, .none, "x ", .none, by decide, by decide, by decide⟩
  let b : Token := ⟨1, .name, .none, "x ", blank, by decide, by decide, by decide⟩
  let ref : Node := ⟨⟨2, .nameRef, .plain, 2, #[0], none⟩, #[.token a]⟩
  let held : List Element := [.token b, .token a]
  let one : Interner := (Interner.empty .plain).withToken a (tokenHash .plain .none .name "x " .none)
  let two : Interner := one.withToken b (tokenHash .plain .none .name "x " blank)
  let three : Interner := two.withNode ref (nodeHash .plain .nameRef .plain #[.token a])
  let built : Builder := ⟨3, three, [], #[ref.toElement]⟩
  have ha : (Interner.empty .plain).token .none .name "x " .none 0 = .ok (a, one) 1 := rfl
  have hb : one.token .none .name "x " blank 1 = .ok (b, two) 2 := by
    have hmiss : ∀ t ∈ one.tokens, tokenMatches .none .name "x " blank t = false := by
      intro t ht
      rcases Table.mem_insert.1 ht with rfl | hold
      · decide
      · cases hold
    rw [token_of_miss (Table.find?_eq_none hmiss)]
    rfl
  have h0 : History ⟨2, held, [], []⟩ (.owner two) _ :=
    ((History.new .start .plain).token .none .name "x " .none ha).token .none .name "x " blank hb
  have hopen {parts : Set Element} : (Event.openNode .nameRef).Offered parts := trivial
  have hname {parts : Set Element} : (Event.token .name "x ").Offered parts := trivial
  have hclose {parts : Set Element} : Event.closeNode.Offered parts := trivial
  -- a builder asks for the name again, and for a reference around it
  have hbuild : ∀ {made : Set Element} {supply : Nat} {interner : Interner},
      interner.node .nameRef .plain #[.token a] supply = .ok (ref, three) 3 →
      Element.token a ∈ made → History ⟨supply, held, [], []⟩ (.owner interner) made →
      ∃ made', History ⟨3, held, [], []⟩ (.borrower built) made' ∧ made ⊆ made' ∧
        ref.toElement ∈ made' := by
    intro made supply interner hrun hmem h
    obtain ⟨parts, hshared⟩ := h.shared
    have hfound : interner.token .none .name "x " .none supply = .ok (a, interner) supply :=
      hshared.orderly.token_of_kept (hshared.keeps _ hmem) rfl supply
    have hnamed := @Event.step_token_ok ⟨supply, interner, [⟨.node, .nameRef, 0⟩], #[]⟩ _ _ _ _ _
      hfound
    have hclosed : Event.closeNode.step ⟨supply, interner, [⟨.node, .nameRef, 0⟩], #[.token a]⟩ =
        (.ok none, built) := by
      refine (Event.step_close _ .node).trans ?_
      change Event.wrapped _ [] ⟨.node, .nameRef, 0⟩ .plain = _
      exact Event.wrapped_ok hrun
    have h1 : History ⟨supply, held, [], []⟩
      (.borrower ⟨supply, interner, [⟨.node, .nameRef, 0⟩], #[]⟩) _ := h.lend.event hopen rfl
    have h2 : History ⟨supply, held, [], []⟩
      (.borrower ⟨supply, interner, [⟨.node, .nameRef, 0⟩], #[.token a]⟩) _ :=
      h1.event hname hnamed
    have h3 : History ⟨3, held, [], []⟩ (.borrower built) _ := h2.event hclose hclosed
    refine ⟨_, h3, fun e he => .inl (.inl (.inl he)), .inr (Event.mem_gained rfl rfl rfl ?_)⟩
    intro x hx
    rw [List.mem_singleton.1 (Array.mem_toList_iff.2 hx)]
    exact .inl (.inl hmem)
  have hsmall : Small ref.toElement := by
    refine Element.allNodes_of_tokens (fun e he => ?_) (Nat.le_of_ble_eq_true rfl)
    rw [List.mem_singleton.1 (Array.mem_toList_iff.2 he)]
    rfl
  have hmem : Element.token a ∈ insert (Element.token b) (insert (Element.token a) ∅) :=
    Set.mem_insert_of_mem _ (Set.mem_insert _ _)
  obtain ⟨first, h1, hsub1, href1⟩ := hbuild rfl hmem h0
  obtain ⟨parts, hshared⟩ := h1.shared
  have hagain : three.node .nameRef .plain #[.token a] 3 = .ok (ref, three) 3 :=
    hshared.orderly.node_of_kept (hshared.keeps _ href1 (by decide)) rfl 3
  obtain ⟨made, h2, hsub2, href2⟩ := hbuild hagain (hsub1 hmem) h1.giveUp
  obtain ⟨htokens, hnodes⟩ := h2.sharing_maximal
  have hamade := hsub2 (hsub1 hmem)
  have hbmade := hsub2 (hsub1 (Set.mem_insert _ _))
  refine ⟨_, built, made, a, b, ref, ref, h2, hamade, hbmade, rfl, fun hsame => ?_, href2, rfl, href2,
    ?_⟩
  · obtain ⟨-, -, -, htrivia⟩ := (htokens a b hamade hbmade).1 hsame
    exact absurd htrivia (by decide)
  · exact (hnodes ref ref href2 href2 hsmall hsmall).2 (Element.Alike.equal rfl)

end

end Interner

end LosslessSyntax
