import LosslessSyntax.Proofs.Sharing

/-!
# The entries of an interner

An interner is asked for tokens by its owner, and for tokens and nodes by the builders that it is lent
to. Whoever asks for a part is given one with the key that was asked for: an entry that was there, or a
new one that is kept from then on; a part that cannot be made, or is too large, changes nothing. So
each key is there once, entries stay, and what was given for a key is given for it again.

* `Interner.Request`, `Interner.Key`, `Interner.keyOf`: what a part is asked for by;
* `Interner.answer`, `Interner.lookup`: what an interner gives for a request, and what it finds;
* `Interner.Deal`, `Interner.Holder.deal`, `Interner.Holder.after`: deals, and where they lead;
* `Interner.Holder.request?`: what a deal asks for;
* `Interner.Dealt`: what a deal with that request may come to;
* **`Interner.Orderly.lookup_eq_some_iff`**: what has the key is found;
* **`Interner.Holder.deal_dealt`**: what a deal comes to;
* **`Interner.entries_lasting`**: the entries after any series of deals.
-/

namespace LosslessSyntax

open Green
open Builder (Event)

namespace Interner

/-! ## Requests and keys -/

/-- What an interner is asked for. -/
inductive Request where
  | token (leading : Trivia) (kind : Kind) (text : String) (trailing : Trivia)
  | node (kind : Kind) (shape : Shape) (slots : Array Element)

/-- What a part is asked for by. -/
inductive Key where
  | token (key : Kind × String × Trivia × Trivia)
  | node (key : Kind × Shape × List (Bool × Nat))

namespace Request

/-- The key that is asked for. -/
def key : Request → Key
  | token leading kind text trailing => .token (kind, text, leading, trailing)
  | node kind shape slots => .node (kind, shape, rowKey slots)

/-- The number of slots that are asked for. -/
def size : Request → Nat
  | token _ _ _ _ => 0
  | node _ _ slots => slots.size

/-- The hash that a request is looked up under. -/
def hash (hashing : Hashing) : Request → UInt64
  | token leading kind text trailing => tokenHash hashing leading kind text trailing
  | node kind shape slots => nodeHash hashing kind shape slots

end Request

/-- The key of a part. -/
def keyOf : Element → Key
  | .token t => .token (tokenKey t)
  | .node head slots => .node (nodeKey ⟨head, slots⟩)

/-- The hash that a table computes of an entry when it grows. -/
def rehash (hashing : Hashing) : Element → UInt64
  | .token t => rehashToken hashing t
  | .node head slots => rehashNode hashing ⟨head, slots⟩

/-- A part is one of the entries. -/
def Has (interner : Interner) : Element → Prop
  | .token t => t ∈ interner.tokens
  | .node head slots => (⟨head, slots⟩ : Node) ∈ interner.nodes

/-- What is found for a request. -/
def lookup (interner : Interner) (request : Request) : Option Element :=
  match request with
  | .token leading kind text trailing =>
    (interner.tokens.find? (request.hash interner.hashing)
      (tokenMatches leading kind text trailing)).map .token
  | .node kind shape slots =>
    (interner.nodes.find? (request.hash interner.hashing)
      (nodeMatches kind shape slots)).map Node.toElement

/-- What is given for a request. -/
def answer (interner : Interner) : Request → Make (Element × Interner)
  | .token leading kind text trailing => do
    let (given, after) ← interner.token leading kind text trailing
    return (.token given, after)
  | .node kind shape slots => do
    let (given, after) ← interner.node kind shape slots
    return (given.toElement, after)

/-- **The hash of a call is the one that is computed of an entry with the same key.** -/
theorem rehash_eq {hashing : Hashing} {request : Request} {e : Element}
    (h : keyOf e = request.key) : rehash hashing e = request.hash hashing := by
  cases request with
  | token leading kind text trailing =>
    cases e with
    | token t => exact rehashToken_eq (Key.token.inj h)
    | node head slots => cases h
  | node kind shape slots =>
    cases e with
    | token t => cases h
    | node head slots' => exact rehashNode_eq (Key.node.inj h)

section

variable {interner : Interner} {request : Request} {e : Element}

/-- **What has the key is found**, whatever hashes there are and however often the table has grown. -/
theorem Orderly.lookup_eq_some_iff (h : interner.Orderly) :
    interner.lookup request = some e ↔ interner.Has e ∧ keyOf e = request.key := by
  cases request with
  | token leading kind text trailing =>
    constructor
    · intro hfind
      obtain ⟨t, hfound, rfl⟩ := Option.map_eq_some_iff.1 hfind
      obtain ⟨hkept, hmatch⟩ := Table.mem_of_find? hfound
      exact ⟨hkept, congrArg Key.token (tokenMatches_iff.1 hmatch)⟩
    · rintro ⟨has, hkey⟩
      cases e with
      | token t => exact Option.map_eq_some_iff.2 ⟨t, h.find?_token has (Key.token.inj hkey), rfl⟩
      | node head slots => cases hkey
  | node kind shape slots =>
    constructor
    · intro hfind
      obtain ⟨⟨head, slots'⟩, hfound, rfl⟩ := Option.map_eq_some_iff.1 hfind
      obtain ⟨hkept, hmatch⟩ := Table.mem_of_find? hfound
      exact ⟨hkept, congrArg Key.node (nodeMatches_iff.1 hmatch).1⟩
    · rintro ⟨has, hkey⟩
      cases e with
      | token t => cases hkey
      | node head slots' =>
        exact Option.map_eq_some_iff.2 ⟨_, h.find?_node has (Key.node.inj hkey), rfl⟩

theorem Orderly.answer_of_has (h : interner.Orderly) (has : interner.Has e)
    (hkey : keyOf e = request.key) (supply : Nat) :
    interner.answer request supply = .ok (e, interner) supply := by
  cases request with
  | token leading kind text trailing =>
    cases e with
    | token t =>
      have hrun := h.token_of_kept has (Key.token.inj hkey) supply
      change EStateM.bind (interner.token leading kind text trailing) _ supply = _
      rw [EStateM.bind, hrun]
      rfl
    | node head slots => cases hkey
  | node kind shape slots =>
    cases e with
    | token t => cases hkey
    | node head slots' =>
      have hrun := h.node_of_kept has (Key.node.inj hkey) supply
      change EStateM.bind (interner.node kind shape slots) _ supply = _
      rw [EStateM.bind, hrun]
      rfl

end

/-! ## What is dealt -/

/-- One entry more, and nothing else. -/
def Gains (before after : Interner) : Element → Prop
  | .token t => after.tokens.contents = t :: before.tokens.contents ∧ after.nodes = before.nodes
  | .node head slots =>
    after.nodes.contents = ⟨head, slots⟩ :: before.nodes.contents ∧ after.tokens = before.tokens

/-- What comes of a request. The part that is given has the key that was asked for. It is an entry, or
it is made one because there was none with that key, or more slots were asked for than a node that is
kept can have. If the part cannot be made, there was no such entry either. -/
inductive Dealt (interner : Interner) :
    Option Request → Except Failure (Option Element) → Interner → Prop
  | kept {request : Request} {e : Element} (right : keyOf e = request.key)
      (small : request.size ≤ maxSlots) (has : interner.Has e) :
      Dealt interner (some request) (.ok (some e)) interner
  | added {request : Request} {e : Element} {after : Interner} (right : keyOf e = request.key)
      (small : request.size ≤ maxSlots)
      (fresh : ∀ kept, interner.Has kept → keyOf kept ≠ request.key)
      (gains : interner.Gains after e) : Dealt interner (some request) (.ok (some e)) after
  | large {request : Request} {e : Element} (right : keyOf e = request.key)
      (large : maxSlots < request.size) : Dealt interner (some request) (.ok (some e)) interner
  | failed {request : Request} (failure : Failure)
      (missing : ∀ kept, interner.Has kept → keyOf kept ≠ request.key) :
      Dealt interner (some request) (.error failure) interner
  | idle {result : Except Failure (Option Element)} (nothing : ∀ e, result ≠ .ok (some e)) :
      Dealt interner none result interner

section

variable {interner after : Interner} {supply next : Nat} {leading trailing : Trivia} {kind : Kind}
  {text : String} {shape : Shape} {slots : Array Element}

theorem Orderly.missing_of_lookup (h : interner.Orderly) {request : Request}
    (missed : interner.lookup request = none) (kept : Element) (has : interner.Has kept) :
    keyOf kept ≠ request.key := fun hkey => by
  rw [h.lookup_eq_some_iff.2 ⟨has, hkey⟩] at missed
  cases missed

theorem gains_withToken (interner : Interner) (given : Token) (hash : UInt64) :
    interner.Gains (interner.withToken given hash) (.token given) :=
  ⟨Table.contents_insert, rfl⟩

theorem gains_withNode (interner : Interner) (given : Node) (hash : UInt64) :
    interner.Gains (interner.withNode given hash) given.toElement :=
  ⟨Table.contents_insert, rfl⟩

theorem token_dealt (h : interner.Orderly) {given : Token}
    (hrun : interner.token leading kind text trailing supply = .ok (given, after) next) :
    Dealt interner (some (.token leading kind text trailing)) (.ok (some (.token given))) after := by
  obtain ⟨hkey, ⟨hkept, rfl⟩ | ⟨hnone, rfl⟩⟩ := token_cases hrun
  · exact .kept (congrArg Key.token hkey) (Nat.zero_le _) hkept
  · exact .added (congrArg Key.token hkey) (Nat.zero_le _)
      (h.missing_of_lookup (Option.map_eq_none_iff.2 hnone)) (gains_withToken interner given _)

theorem token_failed (h : interner.Orderly) {failure : Failure}
    (hrun : interner.token leading kind text trailing supply = .error failure next) :
    Dealt interner (some (.token leading kind text trailing)) (.error failure) interner := by
  refine .failed failure fun kept has hkey => ?_
  cases kept with
  | token t =>
    rw [h.token_of_kept has (Key.token.inj hkey)] at hrun
    cases hrun
  | node head slots => cases hkey

theorem node_dealt (h : interner.Orderly) {given : Node}
    (hrun : interner.node kind shape slots supply = .ok (given, after) next) :
    Dealt interner (some (.node kind shape slots)) (.ok (some given.toElement)) after := by
  obtain ⟨hkey, -, ⟨hsmall, hkept, rfl⟩ | ⟨-, -, ⟨hsmall, hnone, rfl⟩ | ⟨hlarge, rfl⟩⟩⟩ :=
    node_cases hrun
  · exact .kept (congrArg Key.node hkey) hsmall hkept
  · exact .added (congrArg Key.node hkey) hsmall
      (h.missing_of_lookup (Option.map_eq_none_iff.2 hnone)) (gains_withNode interner given _)
  · exact .large (congrArg Key.node hkey) hlarge

theorem node_failed (h : interner.Orderly) {failure : Failure}
    (hrun : interner.node kind shape slots supply = .error failure next) :
    Dealt interner (some (.node kind shape slots)) (.error failure) interner := by
  refine .failed failure fun kept has hkey => ?_
  cases kept with
  | token t => cases hkey
  | node head slots' =>
    rw [h.node_of_kept has (Key.node.inj hkey)] at hrun
    cases hrun

end

/-! ## Deals -/

/-- What can be done with an interner: its owner asks for a token or lends it to a builder; the builder
hears an event, is finished or is given up. -/
inductive Deal where
  | token (leading : Trivia) (kind : Kind) (text : String) (trailing : Trivia)
  | lend
  | event (event : Event)
  | finish
  | giveUp

/-- What an event gives: the last child of the row, if it is one that the interner was asked for. -/
def givenBy (event : Event) (outcome : Builder.Answer × Builder) :
    Except Failure (Option Element) :=
  outcome.1.map fun _ => if event.asks then outcome.2.children.back? else none

end Interner

namespace Builder

open Interner (Request)

/-- The node that closing an entry asks for, unless it fails before. -/
def closing? (builder : Builder) (layout : Layout) : Option Request :=
  match builder.opened with
  | [] => none
  | entry :: _ =>
    let slots := builder.children.extract entry.first builder.children.size
    if entry.layout = layout then
      match layout.shapeOf entry.kind slots with
      | .error _ => none
      | .ok shape => some (.node entry.kind shape slots)
    else none

/-- What an event asks the interner for. -/
def request? (builder : Builder) : Event → Option Request
  | .token kind text => some (.token .none kind text .none)
  | .triviaToken leading kind text trailing =>
    match Trivia.ofPieces leading, Trivia.ofPieces trailing with
    | .ok before, .ok after => some (.token before kind text after)
    | _, _ => none
  | .closeNode => builder.closing? .node
  | .closeList => builder.closing? .list
  | .openNode _ | .openList _ | .openNodeAt _ _ | .subtree _ | .mark => none

end Builder

namespace Interner.Holder

/-- What a deal asks the interner for. -/
def request? : Holder → Deal → Option Request
  | owner _, .token leading kind text trailing => some (.token leading kind text trailing)
  | borrower builder, .event event => builder.request? event
  | _, _ => none

/-- What a deal gives, or why it fails, and who has the interner then; `supply` is the next free
identity. A finished builder returns the interner, also when there is no root. -/
def deal (supply : Nat) : Holder → Deal → Except Failure (Option Element) × Holder
  | owner interner, .token leading kind text trailing =>
    match interner.token leading kind text trailing supply with
    | .ok (given, after) _ => (.ok (some (.token given)), owner after)
    | .error failure _ => (.error failure, owner interner)
  | owner interner, .lend => (.ok none, borrower (Builder.start supply interner))
  | borrower builder, .event event =>
    let outcome := event.step { builder with supply }
    (givenBy event outcome, borrower outcome.2)
  | borrower builder, .finish =>
    match builder.finish with
    | .ok _ done => (.ok none, owner done.interner)
    | .error failure left => (.error failure, owner left.interner)
  | borrower builder, .giveUp => (.ok none, owner builder.interner)
  | holder, _ => (.ok none, holder)

/-- Who has the interner after a series of deals, each with the next free identity then. -/
def after (holder : Holder) : List (Nat × Deal) → Holder
  | [] => holder
  | (supply, deal) :: deals => (holder.deal supply deal).2.after deals

end Interner.Holder

/-! ## What a deal comes to -/

namespace Interner.Holder

theorem deal_finish (supply : Nat) (builder : Builder) :
    ((borrower builder).deal supply .finish).2.interner = builder.interner ∧
      ∀ e, ((borrower builder).deal supply .finish).1 ≠ .ok (some e) := by
  unfold Holder.deal
  dsimp only
  rw [Builder.finish_run]
  split_ifs
  · generalize builder.children.toList = row
    rcases row with - | ⟨- | ⟨head, slots⟩, - | ⟨e, rest⟩⟩ <;> exact ⟨rfl, nofun⟩
  · exact ⟨rfl, nofun⟩

end Interner.Holder

namespace Builder.Event

open Interner (Dealt givenBy)

variable {builder : Builder}

theorem givenBy_of_ok {event : Event} (hasks : event.asks = true) {row : Array Element}
    {e : Element} {supply : Nat} {interner : Interner} {opened : List Entry} :
    givenBy event (.ok none, ⟨supply, interner, opened, row.push e⟩) = .ok (some e) := by
  change Except.ok (if event.asks then (row.push e).back? else none) = _
  rw [if_pos hasks, Array.back?_push]

theorem givenBy_of_error {event : Event} {failure : Failure} {left : Builder} (e : Element) :
    givenBy event (.error failure, left) ≠ .ok (some e) := nofun

theorem wrapped_dealt (h : builder.interner.Orderly) {event : Event} (hasks : event.asks = true)
    (opened : List Entry) (entry : Entry) (shape : Shape) :
    Dealt builder.interner
      (some (.node entry.kind shape (builder.children.extract entry.first builder.children.size)))
      (givenBy event (wrapped builder opened entry shape))
      (wrapped builder opened entry shape).2.interner := by
  cases hrun : builder.interner.node entry.kind shape
    (builder.children.extract entry.first builder.children.size) builder.supply with
  | ok result next =>
    rw [wrapped_ok hrun, givenBy_of_ok hasks]
    exact Interner.node_dealt h hrun
  | error failure next =>
    rw [wrapped, hrun]
    exact Interner.node_failed h hrun

theorem close_dealt (h : builder.interner.Orderly) (layout : Layout) :
    Dealt builder.interner (builder.closing? layout)
      (givenBy layout.close (layout.close.step builder)) (layout.close.step builder).2.interner := by
  rw [step_close, Builder.closing?]
  generalize builder.opened = opened
  cases opened with
  | nil => exact .idle givenBy_of_error
  | cons entry opened =>
    dsimp only
    split_ifs
    · cases layout.shapeOf entry.kind
        (builder.children.extract entry.first builder.children.size) with
      | error error => exact .idle givenBy_of_error
      | ok shape => exact wrapped_dealt h (by cases layout <;> rfl) opened entry shape
    · exact .idle givenBy_of_error

theorem tokened_dealt (h : builder.interner.Orderly) {event : Event} (hasks : event.asks = true)
    (leading : List Trivia.Piece) (kind : Kind) (text : String) (trailing : List Trivia.Piece) :
    Dealt builder.interner (builder.request? (.triviaToken leading kind text trailing))
      (givenBy event
        (tokened builder (tokenRequest builder.interner leading kind text trailing)))
      (tokened builder (tokenRequest builder.interner leading kind text trailing)).2.interner := by
  rw [Builder.request?, tokened, tokenRequest_run]
  generalize Trivia.ofPieces leading = before
  generalize Trivia.ofPieces trailing = after
  cases before with
  | error violation => exact .idle givenBy_of_error
  | ok before =>
    cases after with
    | error violation => exact .idle givenBy_of_error
    | ok after =>
      dsimp only
      cases hrun : builder.interner.token before kind text after builder.supply with
      | ok result next =>
        dsimp only
        rw [givenBy_of_ok hasks]
        exact Interner.token_dealt h hrun
      | error failure next => exact Interner.token_failed h hrun

/-- **What an event comes to**: it is given what it asked for. -/
theorem step_dealt (h : builder.interner.Orderly) (event : Event) :
    Dealt builder.interner (builder.request? event) (givenBy event (event.step builder))
      (event.step builder).2.interner := by
  cases event with
  | closeNode => exact close_dealt h .node
  | closeList => exact close_dealt h .list
  | token kind text =>
    rw [step_token, step_triviaToken]
    exact tokened_dealt h rfl [] kind text []
  | triviaToken leading kind text trailing =>
    rw [step_triviaToken]
    exact tokened_dealt h rfl leading kind text trailing
  | openNode | openList | subtree | mark => exact .idle nofun
  | openNodeAt place kind =>
    rw [step_openNodeAt]
    split_ifs <;> exact .idle nofun

end Builder.Event

namespace Interner

section

variable {interner after : Interner} {holder : Holder}

/-- **What a deal comes to.** -/
theorem Holder.deal_dealt (h : holder.interner.Orderly) (supply : Nat) (deal : Deal) :
    Dealt holder.interner (holder.request? deal) (holder.deal supply deal).1
      (holder.deal supply deal).2.interner := by
  cases holder with
  | owner interner =>
    cases deal with
    | token leading kind text trailing =>
      unfold Holder.deal
      dsimp only
      cases hrun : interner.token leading kind text trailing supply with
      | ok result next => exact token_dealt h hrun
      | error failure next => exact token_failed h hrun
    | lend | event | finish | giveUp => exact .idle nofun
  | borrower builder =>
    cases deal with
    | event event => exact @Event.step_dealt { builder with supply } h event
    | token | lend | giveUp => exact .idle nofun
    | finish =>
      obtain ⟨hsame, hnothing⟩ := Holder.deal_finish supply builder
      rw [hsame]
      exact .idle hnothing

/-! ## Entries for good -/

theorem Dealt.grows {request : Option Request} {given : Except Failure (Option Element)}
    (h : Dealt interner request given after) :
    interner.tokens.contents <:+ after.tokens.contents ∧
      interner.nodes.contents <:+ after.nodes.contents := by
  cases h with
  | kept | large | failed | idle => exact ⟨List.suffix_refl _, List.suffix_refl _⟩
  | @added _ e _ _ _ _ gains =>
    cases e with
    | token t =>
      obtain ⟨htokens, hnodes⟩ := gains
      rw [htokens, hnodes]
      exact ⟨List.suffix_cons t _, List.suffix_refl _⟩
    | node head slots =>
      obtain ⟨hnodes, htokens⟩ := gains
      rw [htokens, hnodes]
      exact ⟨List.suffix_refl _, List.suffix_cons _ _⟩

/-- What is given has the key that was asked for, and is an entry then, unless too many slots were
asked for. -/
theorem Dealt.has {request : Request} {e : Element}
    (h : Dealt interner (some request) (.ok (some e)) after) (small : request.size ≤ maxSlots) :
    keyOf e = request.key ∧ after.Has e := by
  cases h with
  | kept right _ has => exact ⟨right, has⟩
  | added right _ _ gains =>
    refine ⟨right, ?_⟩
    cases e with
    | token t => exact Table.mem_iff.2 (gains.1 ▸ List.mem_cons_self)
    | node head slots => exact Table.mem_iff.2 (gains.1 ▸ List.mem_cons_self)
  | large _ large => exact absurd small (Nat.not_le.2 large)

theorem Has.mono {e : Element} (h : interner.Has e)
    (hgrows : interner.tokens.contents <:+ after.tokens.contents ∧
      interner.nodes.contents <:+ after.nodes.contents) : after.Has e := by
  cases e with
  | token t => exact hgrows.1.subset h
  | node head slots => exact hgrows.2.subset h

theorem Holder.deal_orderly (h : holder.interner.Orderly) (supply : Nat) (deal : Deal) :
    (holder.deal supply deal).2.interner.Orderly := by
  cases holder with
  | owner interner =>
    cases deal with
    | token leading kind text trailing =>
      unfold Holder.deal
      dsimp only
      cases hrun : interner.token leading kind text trailing supply with
      | ok result next => exact Orderly.token h hrun
      | error failure next => exact h
    | lend | event | finish | giveUp => exact h
  | borrower builder =>
    cases deal with
    | event event => exact (Event.step_tended { builder with supply } h event).orderly
    | token | lend | giveUp => exact h
    | finish => exact (deal_finish supply builder).1 ▸ h

theorem Holder.after_orderly (h : holder.interner.Orderly) (deals : List (Nat × Deal)) :
    (holder.after deals).interner.Orderly := by
  induction deals generalizing holder with
  | nil => exact h
  | cons first deals ih => exact ih (deal_orderly h first.1 first.2)

theorem Holder.after_grows (h : holder.interner.Orderly) (deals : List (Nat × Deal)) :
    holder.interner.tokens.contents <:+ (holder.after deals).interner.tokens.contents ∧
      holder.interner.nodes.contents <:+ (holder.after deals).interner.nodes.contents := by
  induction deals generalizing holder with
  | nil => exact ⟨List.suffix_refl _, List.suffix_refl _⟩
  | cons first deals ih =>
    obtain ⟨htokens, hnodes⟩ := (deal_dealt h first.1 first.2).grows
    obtain ⟨htokens', hnodes'⟩ := ih (deal_orderly h first.1 first.2)
    exact ⟨htokens.trans htokens', hnodes.trans hnodes'⟩

end

/-- **Entries are unique and last.** After any series of deals, each key is there once, under the hash
that is computed of its entry, and each node that is kept is small and has no annotations. What is
found for a request is the entry with its key. A deal that asks for a part is given one with that
key: an entry that was there, or one that is there from now on, or a node that is too large, or
nothing; in the last two cases, and if it asks for nothing, the entries are as before. Entries stay,
and what was given for a key is given whenever that key is asked for again. -/
theorem entries_lasting (hashing : Hashing) (deals : List (Nat × Deal)) :
    let holder := (Holder.owner (.empty hashing)).after deals
    holder.interner.Orderly ∧
    (∀ request e, holder.interner.lookup request = some e ↔
      holder.interner.Has e ∧ keyOf e = request.key) ∧
    (∀ (request : Request) e, keyOf e = request.key →
      rehash hashing e = request.hash hashing) ∧
    (∀ supply deal, Dealt holder.interner (holder.request? deal) (holder.deal supply deal).1
      (holder.deal supply deal).2.interner) ∧
    (∀ more, holder.interner.tokens.contents <:+ (holder.after more).interner.tokens.contents ∧
      holder.interner.nodes.contents <:+ (holder.after more).interner.nodes.contents) ∧
    ∀ supply deal request e, holder.request? deal = some request →
      (holder.deal supply deal).1 = .ok (some e) → request.size ≤ maxSlots →
      ∀ more asked, asked.key = request.key → ∀ next,
        let later := ((holder.deal supply deal).2.after more).interner
        later.answer asked next = .ok (e, later) next := by
  intro holder
  have hnew : (Holder.owner (.empty hashing)).interner.Orderly := Orderly.empty hashing
  have horderly : holder.interner.Orderly := Holder.after_orderly hnew deals
  refine ⟨horderly, fun _ _ => horderly.lookup_eq_some_iff, fun _ _ => rehash_eq,
    Holder.deal_dealt horderly, Holder.after_grows horderly, ?_⟩
  intro supply deal request e hrequest hgiven small more asked hsame next later
  -- what was given is an entry then, and it still is
  have hdealt := Holder.deal_dealt horderly supply deal
  rw [hrequest, hgiven] at hdealt
  obtain ⟨hkey, has⟩ := hdealt.has small
  have horderly' := Holder.deal_orderly horderly supply deal
  have hlater : later.Orderly := Holder.after_orderly horderly' more
  exact hlater.answer_of_has (has.mono (Holder.after_grows horderly' more)) (hkey.trans hsame.symm) next

/-- The owner asks for a name, and a builder for a reference around that name; other requests come in
between. Each of the two parts is given again when it is asked for last. -/
theorem entries_lasting_reference :
    let x : Token := ⟨0, .name, .none, "x", .none, by decide, by decide, by decide⟩
    let ref : Node := ⟨⟨1, .nameRef, .plain, 1, #[0], none⟩, #[.token x]⟩
    let name : Request := .token .none .name "x" .none
    let around : Request := .node .nameRef .plain #[.token x]
    let first := (Holder.owner (.empty .plain)).deal 0 (.token .none .name "x" .none)
    let holder := first.2.after
      [(1, .lend), (1, .event (.openNode .nameRef)), (1, .event (.token .name "x"))]
    let closed := holder.deal 1 (.event .closeNode)
    let later := (closed.2.after [(2, .giveUp), (2, .token .none .number "1" .none)]).interner
    first.1 = .ok (some (.token x)) ∧ holder.request? (.event .closeNode) = some around ∧
    closed.1 = .ok (some ref.toElement) ∧
    later.answer name 3 = .ok (.token x, later) 3 ∧
    later.answer around 3 = .ok (ref.toElement, later) 3 := by
  intro x ref name around first holder closed later
  let one : Interner := (Interner.empty .plain).withToken x (tokenHash .plain .none .name "x" .none)
  have hmade : (Interner.empty .plain).token .none .name "x" .none 0 = .ok (x, one) 1 := rfl
  have hone : one.Orderly := Orderly.token (Orderly.empty .plain) hmade
  have hnamed := @Event.step_token_ok ⟨1, one, [⟨.node, .nameRef, 0⟩], #[]⟩ .name "x" x one 1
    (hone.token_of_kept (Table.mem_insert.2 (.inl rfl)) rfl 1)
  have hholder : holder = .borrower ⟨1, one, [⟨.node, .nameRef, 0⟩], #[.token x]⟩ :=
    congrArg (fun outcome : Builder.Answer × Builder => Holder.borrower outcome.2) hnamed
  have hrequest : holder.request? (.event .closeNode) = some around := by
    rw [hholder]
    rfl
  have hclosed : closed.1 = .ok (some ref.toElement) := by
    change (holder.deal 1 (.event .closeNode)).1 = _
    rw [hholder]
    rfl
  -- the name was given by the first deal, and the reference by the one that closes it
  obtain ⟨-, -, -, -, -, hfirst⟩ := entries_lasting .plain []
  obtain ⟨-, -, -, -, -, hlast⟩ := entries_lasting .plain [(0, .token .none .name "x" .none), (1, .lend),
    (1, .event (.openNode .nameRef)), (1, .event (.token .name "x"))]
  refine ⟨rfl, hrequest, hclosed, ?_, ?_⟩
  · exact hfirst 0 (.token .none .name "x" .none) name (.token x) rfl rfl (by decide)
      [(1, .lend), (1, .event (.openNode .nameRef)), (1, .event (.token .name "x")),
        (1, .event .closeNode), (2, .giveUp), (2, .token .none .number "1" .none)] name rfl 3
  · exact hlast 1 (.event .closeNode) around ref.toElement hrequest hclosed (by decide)
      [(2, .giveUp), (2, .token .none .number "1" .none)] around rfl 3

end Interner

end LosslessSyntax
