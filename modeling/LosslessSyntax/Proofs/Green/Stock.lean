import LosslessSyntax.Green.Make
import LosslessSyntax.Interner
import LosslessSyntax.Proofs.Green.Layout
import Mathlib.Data.Set.Insert

/-!
# The stock of parts

Whatever was made so far is a stock of parts: each identity that was given out names at most one of
them, what is in the slots of a part is in the stock as well, and all nodes are tidy. Every way to
make a part adds to the stock and takes nothing away.

* `Green.Stock`: the rules of a stock;
* `Green.Make.Adds`: a computation that only adds to the stock;
* `Green.Make.Adds.bind`: computations one after the other;
* `Green.Token.make_adds`, `Green.Node.make_adds`: a single part;
* `Green.Node.plain_adds` to `Green.Node.removeSlot_adds`: whole nodes and edits.
-/

namespace LosslessSyntax.Green

/-- The parts that were made with the identities below `supply`. -/
structure Stock (supply : Nat) (parts : Set Element) : Prop where
  id_lt : ∀ e ∈ parts, e.id < supply
  eq_of_id : ∀ a ∈ parts, ∀ b ∈ parts, a.id = b.id → a = b
  slot_mem : ∀ {node : Node}, node.toElement ∈ parts → ∀ e ∈ node.slots, e ∈ parts
  tidy : ∀ {node : Node}, node.toElement ∈ parts → node.Tidy

namespace Stock

variable {supply : Nat} {parts : Set Element}

theorem empty : Stock 0 ∅ :=
  ⟨fun _ h => h.elim, fun _ h => h.elim, fun h => h.elim, fun h => h.elim⟩

/-- **In a stock one identity is one part.** -/
theorem eq_of_same (h : Stock supply parts) {a b : Element} (ha : a ∈ parts) (hb : b ∈ parts)
    (hs : a.same b = true) : a = b :=
  h.eq_of_id a ha b hb (Element.same_iff.1 hs).2

theorem wellFormed (h : Stock supply parts) {e : Element} (he : e ∈ parts) : e.WellFormed := by
  induction e with
  | token t => exact .token t
  | node head slots ih =>
    have hn : Node.toElement ⟨head, slots⟩ ∈ parts := he
    exact .node (h.tidy hn) fun e hm => ih e hm (h.slot_mem hn e hm)

theorem at? (h : Stock supply parts) {e below : Element} (he : e ∈ parts) {path : List Nat}
    (hb : e.at? path = some below) : below ∈ parts := by
  induction path generalizing e with
  | nil =>
    rw [Element.at?_nil, Option.some_inj] at hb
    exact hb ▸ he
  | cons slot path ih =>
    cases e with
    | token t => simp at hb
    | node head slots =>
      rw [Element.at?_node_cons, Option.bind_eq_some_iff] at hb
      obtain ⟨child, hc, hb⟩ := hb
      have hn : Node.toElement ⟨head, slots⟩ ∈ parts := he
      exact ih (h.slot_mem hn child (Array.mem_of_getElem? hc)) hb

theorem insert (h : Stock supply parts) {e : Element} (hid : e.id = supply)
    (hslots : ∀ node : Node, node.toElement = e → (∀ x ∈ node.slots, x ∈ parts) ∧ node.Tidy) :
    Stock (supply + 1) (insert e parts) where
  id_lt := by
    rintro x (rfl | hx)
    · omega
    · exact Nat.lt_succ_of_lt (h.id_lt x hx)
  eq_of_id := by
    rintro a (rfl | ha) b (rfl | hb) hab
    · rfl
    · exact absurd (h.id_lt b hb) (by omega)
    · exact absurd (h.id_lt a ha) (by omega)
    · exact h.eq_of_id a ha b hb hab
  slot_mem := by
    rintro node (hn | hn) x hx
    · exact Set.mem_insert_of_mem _ ((hslots node hn).1 x hx)
    · exact Set.mem_insert_of_mem _ (h.slot_mem hn x hx)
  tidy := by
    rintro node (hn | hn)
    · exact (hslots node hn).2
    · exact h.tidy hn

end Stock

/-! ## Computations that add to the stock -/

namespace Make

variable {α β : Type} {parts : Set Element}

/-- From every stock with the given parts the computation gets to a stock with all of them, and
what it gives satisfies `post` there. -/
def Adds (computation : Make α) (parts : Set Element) (post : Set Element → α → Prop) : Prop :=
  ∀ supply, Stock supply parts → ∃ added, parts ⊆ added ∧
    match computation supply with
    | .ok value supply' => Stock supply' added ∧ post added value
    | .error _ supply' => Stock supply' added

theorem Adds.run_ok {computation : Make α} {post : Set Element → α → Prop} {supply next : Nat}
    {value : α} (h : Adds computation parts post) (hs : Stock supply parts)
    (run : computation supply = .ok value next) :
    ∃ added, parts ⊆ added ∧ Stock next added ∧ post added value := by
  obtain ⟨added, hsub, hrun⟩ := h supply hs
  rw [run] at hrun
  exact ⟨added, hsub, hrun⟩

theorem Adds.run_error {computation : Make α} {post : Set Element → α → Prop} {supply next : Nat}
    {failure : Failure} (h : Adds computation parts post) (hs : Stock supply parts)
    (run : computation supply = .error failure next) : ∃ added, parts ⊆ added ∧ Stock next added := by
  obtain ⟨added, hsub, hrun⟩ := h supply hs
  rw [run] at hrun
  exact ⟨added, hsub, hrun⟩

/-- The rules of the stock may be used where a computation starts from it. -/
theorem Adds.ofStock {computation : Make α} {post : Set Element → α → Prop}
    (h : ∀ supply, Stock supply parts → Adds computation parts post) :
    Adds computation parts post :=
  fun supply hs => h supply hs supply hs

theorem Adds.pure {post : Set Element → α → Prop} {value : α} (h : post parts value) :
    Adds (Pure.pure value) parts post :=
  fun _ hs => ⟨parts, subset_rfl, hs, h⟩

theorem Adds.throw {post : Set Element → α → Prop} (failure : Failure) :
    Adds (MonadExcept.throw failure) parts post :=
  fun _ hs => ⟨parts, subset_rfl, hs⟩

theorem Adds.bind {computation : Make α} {next : α → Make β} {mid : Set Element → α → Prop}
    {post : Set Element → β → Prop} (h : Adds computation parts mid)
    (hnext : ∀ added value, parts ⊆ added → mid added value → Adds (next value) added post) :
    Adds (computation >>= next) parts post := by
  intro supply hs
  obtain ⟨added, hsub, hrun⟩ := h supply hs
  change ∃ added, parts ⊆ added ∧ match EStateM.bind computation next supply with
    | .ok value supply' => Stock supply' added ∧ post added value
    | .error _ supply' => Stock supply' added
  rw [EStateM.bind]
  generalize computation supply = result at hrun ⊢
  cases result with
  | ok value supply' =>
    obtain ⟨added', hsub', hrun'⟩ := hnext added value hsub hrun.2 supply' hrun.1
    exact ⟨added', hsub.trans hsub', hrun'⟩
  | error failure supply' => exact ⟨added, hsub, hrun⟩

theorem Adds.mono {computation : Make α} {post post' : Set Element → α → Prop}
    (h : Adds computation parts post) (hpost : ∀ added value, post added value → post' added value) :
    Adds computation parts post' := by
  intro supply hs
  obtain ⟨added, hsub, hrun⟩ := h supply hs
  refine ⟨added, hsub, ?_⟩
  generalize computation supply = result at hrun ⊢
  cases result with
  | ok value supply' => exact ⟨hrun.1, hpost _ _ hrun.2⟩
  | error failure supply' => exact hrun

theorem Adds.ofBuildError {post : Set Element → α → Prop} {result : Except BuildError α}
    (h : ∀ value, result = .ok value → post parts value) :
    Adds (liftM result : Make α) parts post := by
  cases result with
  | ok value => exact Adds.pure (h value rfl)
  | error error => exact Adds.throw _

theorem Adds.ofViolation {post : Set Element → α → Prop} {result : Except Violation α}
    (h : ∀ value, result = .ok value → post parts value) :
    Adds (liftM result : Make α) parts post := by
  cases result with
  | ok value => exact Adds.pure (h value rfl)
  | error violation => exact Adds.throw _

end Make

open Make

/-- **What making a token gives**: the token takes the next identity, unless its trivia do not fit
its text. -/
theorem Token.make_run (leading : Trivia) (kind : Kind) (text : String) (trailing : Trivia)
    (supply : Nat) :
    Token.make leading kind text trailing supply =
      if fits : leading.length + trailing.length ≤ text.utf8ByteSize then
        if cut : Text.isBoundary text.toList leading.length = true ∧
            Text.isBoundary text.toList (text.utf8ByteSize - trailing.length) = true then
          .ok ⟨supply, kind, leading, text, trailing, fits, cut.1, cut.2⟩ (supply + 1)
        else .error (.violated (.triviaSplitsCharacter kind text)) supply
      else .error (.violated (.triviaTooLong kind text)) supply := by
  unfold Token.make
  split_ifs <;> rfl

/-- What a computation that makes a token has to give: a token in stock. -/
abbrev Token.InStock (added : Set Element) (token : Token) : Prop := .token token ∈ added

/-- What a computation that makes a node has to give: a node in stock. -/
abbrev Node.InStock (added : Set Element) (node : Node) : Prop := node.toElement ∈ added

variable {parts : Set Element}

theorem Token.make_adds (leading : Trivia) (kind : Kind) (text : String) (trailing : Trivia) :
    Adds (Token.make leading kind text trailing) parts Token.InStock := by
  intro supply hs
  rw [Token.make_run]
  split_ifs
  · refine ⟨_, Set.subset_insert _ parts, hs.insert ?_ ?_, Set.mem_insert _ _⟩
    · rfl
    · intro node h
      cases h
  · exact ⟨parts, subset_rfl, hs⟩
  · exact ⟨parts, subset_rfl, hs⟩

namespace Node

theorem make_adds {kind : Kind} {shape : Shape} {notes : Option (List Annotation)}
    {slots : Array Element} (hslots : ∀ e ∈ slots, e ∈ parts) (hshape : HasShape kind slots shape)
    (hnotes : notes ≠ some []) : Adds (Node.make kind shape notes slots) parts Node.InStock := by
  intro supply hs
  rw [make_run]
  dsimp only
  split_ifs with hwidth
  · refine ⟨_, Set.subset_insert _ parts, hs.insert ?_ ?_, Set.mem_insert _ _⟩
    · rfl
    · rintro ⟨head, slots⟩ h
      cases h
      exact ⟨hslots, tidy_of_make hshape hnotes hwidth supply⟩
  · exact ⟨parts, subset_rfl, hs⟩

theorem plain_eq (kind : Kind) (slots : Array Element) :
    Node.plain kind slots = if kind.isList then throw (.rejected (.listKind kind))
      else Node.make kind .plain none slots := by
  unfold Node.plain
  split_ifs <;> rfl

theorem plain_adds {kind : Kind} {slots : Array Element} (hslots : ∀ e ∈ slots, e ∈ parts) :
    Adds (Node.plain kind slots) parts Node.InStock := by
  rw [plain_eq]
  split_ifs with hkind
  · exact Adds.throw _
  · exact make_adds hslots (by simp [HasShape, hkind]) (by simp)

theorem hasShape_of_listShapeOf {kind : Kind} {slots : Array Element} {s : ListShape}
    (h : listShapeOf kind slots = .ok s) : HasShape kind slots (.list s) := by
  rw [HasShape, if_pos (listShapeOf_ok h).1]
  exact ⟨s, rfl, h⟩

theorem ofListSlots_adds {kind : Kind} {slots : Array Element} (hslots : ∀ e ∈ slots, e ∈ parts) :
    Adds (Node.ofListSlots kind slots) parts Node.InStock := by
  have hclassify : Adds (liftM (listShapeOf kind slots)) parts fun _ shape =>
      listShapeOf kind slots = .ok shape := Adds.ofBuildError fun _ h => h
  refine Adds.bind hclassify fun added shape hsub hshape => ?_
  exact make_adds (fun e he => hsub (hslots e he)) (hasShape_of_listShapeOf hshape) (by simp)

theorem list_adds {kind : Kind} {elements : List Node}
    (helements : ∀ n ∈ elements, n.toElement ∈ parts) :
    Adds (Node.list kind elements) parts Node.InStock := by
  refine ofListSlots_adds fun e he => ?_
  obtain ⟨n, hn, rfl⟩ := List.mem_map.1 (List.mem_toArray.1 he)
  exact helements n hn

theorem mem_interleave {elements : List Node} {separators : List Token} {e : Element}
    (h : e ∈ interleave elements separators) :
    (∃ n ∈ elements, e = n.toElement) ∨ ∃ t ∈ separators, e = .token t := by
  induction elements generalizing separators with
  | nil => simp [interleave] at h
  | cons n elements ih =>
    cases separators with
    | nil =>
      rw [interleave, List.mem_cons] at h
      rcases h with rfl | h
      · exact .inl ⟨n, List.mem_cons_self, rfl⟩
      · rcases ih h with ⟨m, hm, rfl⟩ | ⟨t, ht, -⟩
        · exact .inl ⟨m, List.mem_cons_of_mem _ hm, rfl⟩
        · cases ht
    | cons t separators =>
      rw [interleave, List.mem_cons, List.mem_cons] at h
      rcases h with rfl | rfl | h
      · exact .inl ⟨n, List.mem_cons_self, rfl⟩
      · exact .inr ⟨t, List.mem_cons_self, rfl⟩
      · rcases ih h with ⟨m, hm, rfl⟩ | ⟨t', ht, rfl⟩
        · exact .inl ⟨m, List.mem_cons_of_mem _ hm, rfl⟩
        · exact .inr ⟨t', List.mem_cons_of_mem _ ht, rfl⟩

theorem separated_eq (kind : Kind) (elements : List Node) (separators : List Token) :
    Node.separated kind elements separators =
      if elements.length < separators.length || separators.length + 1 < elements.length then
        throw (.rejected (.separatorsDoNotFit elements.length separators.length))
      else ofListSlots kind (interleave elements separators).toArray := by
  unfold Node.separated
  split_ifs <;> rfl

theorem separated_adds {kind : Kind} {elements : List Node} {separators : List Token}
    (helements : ∀ n ∈ elements, n.toElement ∈ parts)
    (hseparators : ∀ t ∈ separators, Element.token t ∈ parts) :
    Adds (Node.separated kind elements separators) parts Node.InStock := by
  rw [separated_eq]
  split_ifs
  · exact Adds.throw _
  · refine ofListSlots_adds fun e he => ?_
    rcases mem_interleave (List.mem_toArray.1 he) with ⟨n, hn, rfl⟩ | ⟨t, ht, rfl⟩
    · exact helements n hn
    · exact hseparators t ht

theorem annotate_adds {node : Node} (hnode : node.toElement ∈ parts) (notes : List Annotation) :
    Adds (node.annotate notes) parts Node.InStock := by
  refine Adds.ofStock fun supply hs => make_adds (hs.slot_mem hnode) (hs.tidy hnode).shape ?_
  cases notes <;> simp

/-! ## Edits -/

theorem rebuild_adds {node : Node} (hnode : node.toElement ∈ parts) {slots : Array Element}
    (hslots : ∀ e ∈ slots, e ∈ parts) : Adds (node.rebuild slots) parts Node.InStock := by
  refine Adds.ofStock fun supply hs => ?_
  have hshape := (hs.tidy hnode).shape
  unfold rebuild
  split
  · next hplain =>
    rw [hplain] at hshape
    exact make_adds hslots (hshape.plain slots) (by simp)
  · exact ofListSlots_adds hslots

theorem replaceSlot_adds {node : Node} (hnode : node.toElement ∈ parts) (slot : Nat) {e : Element}
    (he : e ∈ parts) : Adds (node.replaceSlot slot e) parts Node.InStock := by
  refine Adds.ofStock fun supply hs => ?_
  unfold replaceSlot
  split_ifs with h
  · refine rebuild_adds hnode fun x hx => ?_
    rcases Array.mem_or_eq_of_mem_set hx with hx | rfl
    · exact hs.slot_mem hnode x hx
    · exact he
  · exact Adds.throw _

theorem insertSlot_adds {node : Node} (hnode : node.toElement ∈ parts) (slot : Nat) {e : Element}
    (he : e ∈ parts) : Adds (node.insertSlot slot e) parts Node.InStock := by
  refine Adds.ofStock fun supply hs => ?_
  unfold insertSlot
  split_ifs with h
  · refine rebuild_adds hnode fun x hx => ?_
    rcases Array.mem_insertIdx.1 hx with rfl | hx
    · exact he
    · exact hs.slot_mem hnode x hx
  · exact Adds.throw _

theorem removeSlot_adds {node : Node} (hnode : node.toElement ∈ parts) (slot : Nat) :
    Adds (node.removeSlot slot) parts Node.InStock := by
  refine Adds.ofStock fun supply hs => ?_
  unfold removeSlot
  split_ifs with h
  · exact rebuild_adds hnode fun x hx => hs.slot_mem hnode x (Array.mem_of_mem_eraseIdx hx)
  · exact Adds.throw _

end Node

end LosslessSyntax.Green
