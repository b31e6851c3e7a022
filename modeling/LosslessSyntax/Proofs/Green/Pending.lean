import LosslessSyntax.Green.Pending
import LosslessSyntax.Proofs.Green.Equality
import LosslessSyntax.Proofs.Green.Splice
import Mathlib.Data.List.Perm.Basic

/-!
# What becomes of work that is put off

Two trees are the same if their roots carry the same and their slots hold the same trees, one by one.
In a stock this is what equality finds out, in whatever order the pairs that wait are looked at and
wherever identities are trusted. A hash function reads the same of trees that are the same. What is
written of a node is its text, whoever it is written to.

* `Green.Element.SameTree`: the same tree, told by recursion;
* **`Green.Element.WellFormed.sameTree_iff`**: the same trees are those that only identities tell
  apart;
* `Green.pairsOf?_equalRows`, `Green.Stock.look_equal`: what one look finds out;
* **`Green.Stock.equalPairs_eq`**: what all looks find out together;
* **`Green.feed_eq`**: what a hash function reads of the nodes that wait;
* **`Green.Element.Alike.digest_eq`**: it can be told from the bare form;
* `Green.Element.texts`: the texts of the tokens of a tree;
* **`Green.spell_eq`**, **`Green.Node.display_eq`**: what a writer is handed of the rows on a stack, and
  what is written of a node.
-/

namespace LosslessSyntax.Green

/-! ## The same tree -/

theorem Node.Tidy.notes_congr {a b : Node} (ha : a.Tidy) (hb : b.Tidy)
    (h : a.annotations = b.annotations) : a.head.notes = b.head.notes := by
  cases hnotes : a.head.notes with
  | none => exact (hb.notes_iff.2 (h ▸ ha.notes_iff.1 hnotes)).symm
  | some notes =>
    cases hnotes' : b.head.notes with
    | none =>
      have hnone := ha.notes_iff.2 (h ▸ hb.notes_iff.1 hnotes')
      rw [hnotes] at hnone
      cases hnone
    | some notes' =>
      rw [Node.annotations, Node.annotations, hnotes, hnotes'] at h
      exact congrArg some h

namespace Element

/-- Tokens are the same if their contents are; nodes are the same if their kinds, shapes and
annotations are, and if as many slots hold the same trees, one by one. A token is no node. -/
inductive SameTree : Element → Element → Prop
  | token {a b : Token} (kind : a.kind = b.kind) (text : a.text = b.text)
      (leading : a.leading.pieces = b.leading.pieces)
      (trailing : a.trailing.pieces = b.trailing.pieces) : SameTree (.token a) (.token b)
  | node {a b : Head} {as bs : Array Element} (kind : a.kind = b.kind) (shape : a.shape = b.shape)
      (annotations : Node.annotations ⟨a, as⟩ = Node.annotations ⟨b, bs⟩)
      (arity : as.size = bs.size)
      (slots : ∀ (slot : Nat) (x y : Element), as[slot]? = some x → bs[slot]? = some y →
        SameTree x y) : SameTree (.node a as) (.node b bs)

theorem bare_token_iff {a b : Token} : a.bare = b.bare ↔ a.kind = b.kind ∧ a.text = b.text ∧
    a.leading.pieces = b.leading.pieces ∧ a.trailing.pieces = b.trailing.pieces := by
  obtain ⟨_, kind, ⟨leading, _⟩, text, ⟨trailing, _⟩, _, _, _⟩ := a
  obtain ⟨_, kind', ⟨leading', _⟩, text', ⟨trailing', _⟩, _, _, _⟩ := b
  simp only [Token.bare, Token.mk.injEq, Trivia.mk.injEq, true_and]
  tauto

theorem alikeRows_iff {as bs : Array Element} : AlikeRows as.toList bs.toList ↔
    as.size = bs.size ∧
      ∀ (slot : Nat) (x y : Element), as[slot]? = some x → bs[slot]? = some y → x.Alike y := by
  constructor
  · intro h
    refine ⟨by simpa using congrArg List.length h, fun slot x y hx hy => ?_⟩
    have hslot := congrArg (·[slot]?) h
    simp only [List.getElem?_map, Array.getElem?_toList, hx, hy] at hslot
    exact Option.some.inj hslot
  · rintro ⟨hsize, hslots⟩
    refine List.ext_getElem? fun slot => ?_
    rw [List.getElem?_map, List.getElem?_map, Array.getElem?_toList, Array.getElem?_toList]
    by_cases hslot : slot < as.size
    · have hslot' : slot < bs.size := hsize ▸ hslot
      have halike := hslots slot _ _ (Array.getElem?_eq_getElem hslot)
        (Array.getElem?_eq_getElem hslot')
      rw [Array.getElem?_eq_getElem hslot, Array.getElem?_eq_getElem hslot']
      exact congrArg some halike
    · rw [Array.getElem?_eq_none (Nat.le_of_not_lt hslot),
        Array.getElem?_eq_none (hsize ▸ Nat.le_of_not_lt hslot)]

theorem SameTree.alike {a b : Element} (h : SameTree a b) (ha : a.WellFormed) (hb : b.WellFormed) :
    a.Alike b := by
  induction h with
  | token kind text leading trailing =>
    exact alike_token.2 (bare_token_iff.2 ⟨kind, text, leading, trailing⟩)
  | @node a b as bs kind shape annotations arity slots ih =>
    have hrows : AlikeRows as.toList bs.toList := alikeRows_iff.2 ⟨arity, fun slot x y hx hy =>
      ih slot x y hx hy (ha.inSlot hx) (hb.inSlot hy)⟩
    have hnotes : a.notes = b.notes := ha.tidy.notes_congr hb.tidy annotations
    refine Node.alike_of_rows (a := ⟨a, as⟩) (b := ⟨b, bs⟩) kind shape ?_ hnotes hrows
    rw [ha.tidy.width_eq, hb.tidy.width_eq, Node.widths, Node.widths, hrows.widths]

/-- **The same trees are those that only identities tell apart.** -/
theorem WellFormed.sameTree_iff {a b : Element} (ha : a.WellFormed) (hb : b.WellFormed) :
    a.SameTree b ↔ a.Alike b := by
  refine ⟨fun h => h.alike ha hb, fun h => ?_⟩
  induction a generalizing b with
  | token t =>
    cases b with
    | token t' =>
      obtain ⟨kind, text, leading, trailing⟩ := bare_token_iff.1 (alike_token.1 h)
      exact .token kind text leading trailing
    | node head slots => simp [Alike] at h
  | node head slots ih =>
    cases b with
    | token t => simp [Alike] at h
    | node head' slots' =>
      obtain ⟨hhead, hrows⟩ := alike_node.1 h
      obtain ⟨hsize, hslots⟩ := alikeRows_iff.1 hrows
      have hcontents := Head.alike_iff.2 hhead
      simp only [Head.alike, Bool.and_eq_true, beq_iff_eq] at hcontents
      obtain ⟨⟨⟨hkind, hshape⟩, -⟩, hnotes⟩ := hcontents
      refine .node hkind hshape (congrArg (·.getD []) hnotes) hsize fun slot x y hx hy => ?_
      exact ih x (Array.mem_of_getElem? hx) (ha.inSlot hx) (hb.inSlot hy) (hslots slot x y hx hy)

end Element

/-! ## Comparing what waits -/

open Element

/-- The pairs that are left of two rows decide whether the rows are equal. -/
theorem pairsOf?_equalRows (as bs : List Element) : equalRows as bs =
    ((pairsOf? as bs).map fun pairs => pairs.all fun (a, b) => a.toElement.equal b.toElement).getD
      false := by
  fun_induction pairsOf? as bs with
  | case1 => rw [equalRows]; rfl
  | case2 a as b bs alike ih =>
    rw [equalRows, equal_token, alike, Bool.true_and, ih]
  | case3 a as b bs alike =>
    rw [equalRows, equal_token, Bool.eq_false_iff.2 alike]
    rfl
  | case4 a as row b bs row' ih =>
    rw [equalRows, ih]
    cases pairsOf? row row' with
    | none => exact Bool.and_false _
    | some pairs => rfl
  | case5 as bs hnil htokens hnodes =>
    rcases as with _ | ⟨_ | _, as⟩ <;> rcases bs with _ | ⟨_ | _, bs⟩ <;>
      simp_all [equalRows, equal]

namespace Stock

variable {supply : Nat} {parts : Set Element}

theorem equal_contents (hs : Stock supply parts) {a b : Node} (ha : a.toElement ∈ parts)
    (hb : b.toElement ∈ parts) : a.toElement.equal b.toElement =
      (a.head.alike b.head && equalRows a.slots.toList b.slots.toList) := by
  have hequal : a.toElement.equal b.toElement = (a.head.id == b.head.id ||
      a.head.alike b.head && equalRows a.slots.toList b.slots.toList) := equal_node _ _ _ _
  by_cases hid : a.head.id = b.head.id
  · -- one identity is one node, which is like itself
    have hsame : a.toElement = b.toElement := hs.eq_of_id _ ha _ hb hid
    obtain rfl : a = b := by
      cases a
      cases b
      cases hsame
      rfl
    have hhead : a.head.alike a.head = true := Head.alike_iff.2 rfl
    have hrows : equalRows a.slots.toList a.slots.toList = true :=
      equalRows_of_alike (fun _ _ _ halike => halike.equal) rfl
    rw [hequal, hhead, hrows, Bool.and_self, Bool.or_true]
  · rw [hequal, beq_eq_false_iff_ne.2 hid, Bool.false_or]

theorem mem_pairsOf? {as bs : List Element} {pairs : List (Node × Node)}
    (h : pairsOf? as bs = some pairs) {pair : Node × Node} (hpair : pair ∈ pairs) :
    pair.1.toElement ∈ as ∧ pair.2.toElement ∈ bs := by
  fun_induction pairsOf? as bs generalizing pairs with
  | case1 =>
    cases h
    cases hpair
  | case2 a as b bs alike ih =>
    exact (ih h hpair).imp (List.mem_cons_of_mem _) (List.mem_cons_of_mem _)
  | case3 => cases h
  | case4 a as row b bs row' ih =>
    obtain ⟨rest, hrest, rfl⟩ := Option.map_eq_some_iff.1 h
    rcases List.mem_cons.1 hpair with rfl | hpair
    · exact ⟨List.mem_cons_self, List.mem_cons_self⟩
    · exact (ih hrest hpair).imp (List.mem_cons_of_mem _) (List.mem_cons_of_mem _)
  | case5 => cases h

/-- Pairs of nodes in stock. -/
def HoldsPairs (parts : Set Element) (pending : List (Node × Node)) : Prop :=
  ∀ pair ∈ pending, pair.1.toElement ∈ parts ∧ pair.2.toElement ∈ parts

/-- **What one look finds out**: the nodes are different, or they are equal if what is left to
compare is. -/
theorem look_equal (hs : Stock supply parts) {a b : Node} (ha : a.toElement ∈ parts)
    (hb : b.toElement ∈ parts) (trusted : Bool) :
    match a.look trusted b with
    | none => a.toElement.equal b.toElement = false
    | some more => HoldsPairs parts more ∧ a.toElement.equal b.toElement =
        more.all fun (a, b) => a.toElement.equal b.toElement := by
  unfold Node.look
  split_ifs with hid hhead
  · have hsame : a.toElement = b.toElement :=
      hs.eq_of_id _ ha _ hb (beq_iff_eq.1 (Bool.and_eq_true_iff.1 hid).2)
    exact ⟨fun _ h => absurd h List.not_mem_nil, Alike.equal (congrArg bare hsame)⟩
  · rw [hs.equal_contents ha hb, hhead, Bool.true_and, pairsOf?_equalRows]
    cases hpairs : pairsOf? a.slots.toList b.slots.toList with
    | none => rfl
    | some more =>
      refine ⟨fun pair hpair => ?_, rfl⟩
      obtain ⟨hleft, hright⟩ := mem_pairsOf? hpairs hpair
      exact ⟨hs.slot_mem ha _ (Array.mem_toList_iff.1 hleft),
        hs.slot_mem hb _ (Array.mem_toList_iff.1 hright)⟩
  · rw [hs.equal_contents ha hb, Bool.eq_false_iff.2 hhead, Bool.false_and]

/-- **All looks together find out whether all pairs are equal**, in whatever order the pairs are looked
at and wherever identities are trusted. -/
theorem equalPairs_eq (hs : Stock supply parts) (pick : List (Node × Node) → Nat)
    (trusts : Node → Node → Bool) {pending : List (Node × Node)} (held : HoldsPairs parts pending) :
    equalPairs pick trusts pending =
      pending.all fun (a, b) => a.toElement.equal b.toElement := by
  -- each look takes one pair away and puts less back, so the induction is on what waits
  fun_induction equalPairs pick trusts pending with
  | case1 pending next =>
    have hnil : pending = [] := by
      by_contra hne
      have hlength := List.length_pos_iff.2 hne
      exact absurd (List.getElem?_eq_none_iff.1 next) (Nat.not_le.2 (Nat.mod_lt _ hlength))
    rw [hnil]
    rfl
  | case2 pending a b next left =>
    obtain ⟨ha, hb⟩ := held _ (List.mem_of_getElem? next)
    have hlook := hs.look_equal ha hb (trusts a b)
    rw [left] at hlook
    exact (List.all_eq_false.2 ⟨_, List.mem_of_getElem? next, by simpa using hlook⟩).symm
  | case3 pending a b next more left ih =>
    obtain ⟨ha, hb⟩ := held _ (List.mem_of_getElem? next)
    have hlook := hs.look_equal ha hb (trusts a b)
    rw [left] at hlook
    obtain ⟨hmore, hequal⟩ := hlook
    obtain ⟨hplace, hpair⟩ := List.getElem?_eq_some_iff.1 next
    have hrest : HoldsPairs parts (pending.eraseIdx (pick pending % pending.length) ++ more) :=
      fun pair hpair => (List.mem_append.1 hpair).elim
        (fun h => held pair (List.mem_of_mem_eraseIdx h)) (hmore pair)
    have hperm := List.getElem_cons_eraseIdx_perm hplace
    rw [hpair] at hperm
    rw [ih hrest, ← hperm.all_eq, List.all_append, List.all_cons, Bool.and_comm]
    exact congrArg (· && _) hequal.symm

end Stock

/-! ## Hashing what waits -/

theorem nodeWords_node (head : Head) (slots : Array Element) (rest : List Word) :
    (node head slots).nodeWords rest =
      headWords head slots.toList ++ rowWords slots.toList rest := by
  obtain ⟨row⟩ := slots
  rw [nodeWords]

theorem rowWords_append (row row' : List Element) (rest : List Word) :
    rowWords (row ++ row') rest = rowWords row' (rowWords row rest) := by
  induction row generalizing rest with
  | nil => rw [rowWords, List.nil_append]
  | cons e row ih => rw [List.cons_append, rowWords, rowWords, ih]

/-- Tokens do not wait. -/
theorem rowWords_nodes (row : List Element) (rest : List Word) :
    rowWords ((row.filterMap Element.node?).map Node.toElement) rest = rowWords row rest := by
  induction row generalizing rest with
  | nil => rfl
  | cons e row ih =>
    cases e with
    | token t =>
      rw [rowWords, nodeWords]
      exact ih rest
    | node head slots =>
      rw [rowWords]
      exact ih _

/-- **What a hash function reads of the nodes that wait**: their words, from the last node to the
first. -/
theorem feed_eq {σ : Type} (write : σ → Word → σ) (pending : List Node) (state : σ) :
    feed write pending state =
      (rowWords (pending.map Node.toElement) []).foldl write state := by
  fun_induction feed write pending state with
  | case1 pending state last =>
    rw [List.getLast?_eq_none_iff.1 last]
    rfl
  | case2 pending state node last ih =>
    obtain ⟨before, rfl⟩ := List.getLast?_eq_some_iff.1 last
    have hwords : rowWords ((before ++ [node]).map Node.toElement) [] =
        headWords node.head node.slots.toList ++
          rowWords node.slots.toList (rowWords (before.map Node.toElement) []) := by
      rw [List.map_append, rowWords_append]
      exact nodeWords_node _ _ _
    rw [ih, List.dropLast_concat, List.map_append, rowWords_append, rowWords_nodes, hwords,
      List.foldl_append]

namespace Element

/-! ## Reading off the bare form -/

theorem slotWords_bare (e : Element) : e.bare.slotWords = e.slotWords := by
  cases e with
  | token t => rw [bare_token, slotWords, slotWords]; rfl
  | node head slots => rw [bare_node, slotWords, slotWords]

theorem headWords_bare (head : Head) (row : List Element) :
    headWords head.bare (row.map bare) = headWords head row := by
  rw [headWords, headWords, List.flatMap_map, List.length_map]
  simp only [slotWords_bare]
  rfl

theorem rowWords_bare {row : List Element}
    (h : ∀ e ∈ row, ∀ rest, e.bare.nodeWords rest = e.nodeWords rest) (rest : List Word) :
    rowWords (row.map bare) rest = rowWords row rest := by
  induction row generalizing rest with
  | nil => rfl
  | cons e row ih =>
    obtain ⟨he, hrow⟩ := List.forall_mem_cons.1 h
    rw [List.map_cons, rowWords, rowWords, he, ih hrow]

theorem nodeWords_bare (e : Element) (rest : List Word) : e.bare.nodeWords rest = e.nodeWords rest := by
  induction e generalizing rest with
  | token t => rw [bare_token, nodeWords, nodeWords]
  | node head slots ih =>
    rw [bare_node, nodeWords_node, nodeWords_node, Array.toList_map, headWords_bare,
      rowWords_bare fun e he => ih e (Array.mem_toList_iff.1 he)]

theorem digest_bare (e : Element) : e.bare.digest = e.digest := by
  cases e with
  | token t => rw [bare_token, digest, digest]; rfl
  | node head slots =>
    have hwords := nodeWords_bare (node head slots) []
    rw [bare_node] at hwords ⊢
    rw [digest, digest, hwords]

/-- **A hash function reads the same of trees that are alike.** -/
theorem Alike.digest_eq {a b : Element} (h : a.Alike b) : a.digest = b.digest := by
  rw [← a.digest_bare, ← b.digest_bare, h]

end Element

/-- What waits at first is the node alone, and its words are its digest but for the word that tells
that it is a node. -/
theorem feed_digest {σ : Type} (write : σ → Word → σ) (node : Node) (state : σ) :
    feed write [node] state = node.toElement.digest.tail.foldl write state := feed_eq write [node] state

/-! ## Writing what waits -/

namespace Element

mutual

/-- The texts of the tokens of an element, in order. -/
def texts : Element → List String
  | .token t => [t.text]
  | .node _ ⟨slots⟩ => rowTexts slots

/-- The texts of the tokens of a row of elements, in order. -/
def rowTexts : List Element → List String
  | [] => []
  | e :: row => texts e ++ rowTexts row

end

theorem rowTexts_append (row row' : List Element) :
    rowTexts (row ++ row') = rowTexts row ++ rowTexts row' := by
  induction row with
  | nil => rfl
  | cons e row ih => rw [List.cons_append, rowTexts, rowTexts, ih, List.append_assoc]

theorem join_texts (e : Element) : String.join e.texts = e.text := by
  induction e with
  | token t =>
    rw [texts, text, textAfter, String.empty_append, String.join_cons]
    exact String.append_empty
  | node head slots ih =>
    obtain ⟨row⟩ := slots
    rw [texts, text_node]
    have hrow : ∀ e ∈ row, String.join e.texts = e.text := fun e he => ih e (List.mem_toArray.2 he)
    clear ih
    induction row with
    | nil => rfl
    | cons e row ih =>
      obtain ⟨he, hrest⟩ := List.forall_mem_cons.1 hrow
      rw [rowTexts, String.join_append, he, ih hrest, List.map_cons, String.join_cons]

end Element

/-- **A writer is handed the texts of the tokens on the stack one by one**, from the top row down, as
long as it does not fail. -/
theorem spell_eq {m : Type → Type} [Monad m] [LawfulMonad m] (write : String → m Unit)
    (rows : List (List Element)) : spell write rows = (rowTexts rows.flatten).forM write := by
  -- what is on the stack is read as one row, and a step takes the first element of it
  fun_induction spell write rows with
  | case1 => rfl
  | case2 rows ih => exact ih
  | case3 t row rows ih =>
    rw [ih, List.flatten_cons, List.flatten_cons, List.cons_append, rowTexts, texts]
    rfl
  | case4 head slots row rows ih =>
    rw [ih, List.flatten_cons, List.flatten_cons, List.flatten_cons, List.cons_append, rowTexts, texts,
      rowTexts_append]

theorem forM_append (row : List String) (before : String) :
    ((row.forM fun text => modify (· ++ text) : StateM String Unit).run before).2 =
      before ++ String.join row := by
  induction row generalizing before with
  | nil => exact String.append_empty.symm
  | cons text row ih => rw [String.join_cons, ← String.append_assoc]; exact ih (before ++ text)

/-- **What is written of a node is its text.** -/
theorem Node.display_eq (node : Node) : node.display = node.text := by
  obtain ⟨head, ⟨slots⟩⟩ := node
  have hrow : rowTexts [slots].flatten = (toElement ⟨head, ⟨slots⟩⟩).texts := by
    rw [List.flatten_singleton]
    rfl
  rw [display, spell, spell_eq, hrow, forM_append, join_texts, String.empty_append]
  rfl

end LosslessSyntax.Green
