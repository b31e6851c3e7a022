import LosslessSyntax.Kind
import Mathlib.Data.Set.Insert

/-!
# Sets of kinds by their members

However a set of kinds is put together, from lists, by adding kinds and by joining sets, its members
are the kinds that were put in, and nothing else of the way is left in it: no two kinds share a bit,
and no bit is set that is not one of a kind.

If there were more kinds, a set would take a row of words; as it is, the row has one. So no step goes
beyond the row or a word, and with all of these steps checked the sets come out as they do without.

* `Kind.code_injective`, `Kind.code_lt`: the bits of the kinds;
* `KindSet.contains_eq`: a member is a bit that is set;
* `KindSet.Recipe`, `KindSet.Recipe.members`: the ways to make a set, and the kinds put into it;
* **`KindSet.Recipe.getLsbD_make`**: the bits that are set are those of the kinds put in;
* `KindSet.Words`, **`KindSet.Recipe.makeChecked?_eq`**: sets as rows of words, with checks;
* **`KindSet.Recipe.make_faithful`**: members, equality and emptiness of all sets;
* `Kind.isToken_iff`, `Kind.isList_iff`, **`Kind.classes_apart`**: the classes of kinds as runs of them.
-/

namespace LosslessSyntax

namespace Kind

theorem getElem?_all (kind : Kind) : all[kind.code]? = some kind := by cases kind <;> rfl

theorem code_injective : Function.Injective code := by
  intro a b h
  have ha := getElem?_all a
  rw [h, getElem?_all b] at ha
  exact (Option.some.inj ha).symm

theorem code_lt (kind : Kind) : kind.code < 64 := by
  have hlength : kind.code < all.length := (List.getElem?_eq_some_iff.1 (getElem?_all kind)).1
  exact Nat.lt_of_lt_of_le hlength (by decide)

end Kind

namespace KindSet

/-! ## Bits -/

theorem eq_iff_bits {a b : KindSet} : a = b ↔ a.bits = b.bits := by
  obtain ⟨bits⟩ := a
  obtain ⟨bits'⟩ := b
  rw [mk.injEq]

theorem getLsbD_mask (kind : Kind) (place : Nat) :
    (mask kind).getLsbD place = decide (kind.code = place) := by
  rw [mask, ← BitVec.twoPow_eq, BitVec.getLsbD_twoPow, decide_eq_true kind.code_lt, Bool.true_and]

theorem contains_eq (set : KindSet) (kind : Kind) :
    set.contains kind = set.bits.getLsbD kind.code := by
  have hmask : mask kind ≠ 0#64 := by
    intro hzero
    have hbit := getLsbD_mask kind kind.code
    rw [hzero] at hbit
    simp at hbit
  unfold contains
  rw [mask, ← BitVec.twoPow_eq, BitVec.and_twoPow, BitVec.twoPow_eq, ← mask]
  cases set.bits.getLsbD kind.code with
  | false => rfl
  | true => simpa using hmask

/-! ## Ways to make a set -/

/-- A way to make a set: from nothing, from a row of kinds, by one more kind, or from two sets. -/
inductive Recipe where
  | empty
  | ofList (kinds : List Kind)
  | insert (recipe : Recipe) (kind : Kind)
  | union (a b : Recipe)

namespace Recipe

/-- The set that is made. -/
def make : Recipe → KindSet
  | empty => KindSet.empty
  | ofList kinds => KindSet.ofList kinds
  | insert recipe kind => recipe.make.insert kind
  | union a b => a.make.union b.make

/-- The kinds that are put in anywhere on the way. -/
def members : Recipe → Set Kind
  | empty => ∅
  | ofList kinds => {kind | kind ∈ kinds}
  | insert recipe kind => Insert.insert kind recipe.members
  | union a b => a.members ∪ b.members

end Recipe

theorem getLsbD_foldl_insert (set : KindSet) (kinds : List Kind) (place : Nat) :
    (kinds.foldl insert set).bits.getLsbD place = true ↔
      set.bits.getLsbD place = true ∨ ∃ kind ∈ kinds, kind.code = place := by
  induction kinds generalizing set with
  | nil => simp
  | cons kind kinds ih => simp [ih, insert, getLsbD_mask, or_assoc]

/-- **The bits of a set are those of the kinds that were put in.** -/
theorem Recipe.getLsbD_make (recipe : Recipe) (place : Nat) :
    recipe.make.bits.getLsbD place = true ↔ ∃ kind ∈ recipe.members, kind.code = place := by
  induction recipe with
  | empty => simp [make, members, KindSet.empty]
  | ofList kinds =>
    rw [make, KindSet.ofList, getLsbD_foldl_insert]
    simp [members, KindSet.empty]
  | insert recipe kind ih =>
    simp [make, members, KindSet.insert, getLsbD_mask, ih, or_comm]
  | union a b iha ihb =>
    simp [make, members, KindSet.union, iha, ihb, or_and_right, exists_or]

theorem Recipe.contains_make (recipe : Recipe) (kind : Kind) :
    recipe.make.contains kind = true ↔ kind ∈ recipe.members := by
  rw [contains_eq, getLsbD_make]
  constructor
  · rintro ⟨other, hother, hcode⟩
    exact Kind.code_injective hcode ▸ hother
  · intro hkind
    exact ⟨kind, hkind, rfl⟩

theorem contains_ofList (kinds : List Kind) (kind : Kind) :
    (ofList kinds).contains kind = true ↔ kind ∈ kinds := Recipe.contains_make (.ofList kinds) kind

theorem Recipe.make_ext {a b : Recipe}
    (h : ∀ kind, a.make.contains kind = b.make.contains kind) : a.make = b.make := by
  have hmembers : a.members = b.members := by
    ext kind
    rw [← contains_make, ← contains_make, h]
  rw [eq_iff_bits]
  apply BitVec.eq_of_getLsbD_eq
  intro place _
  rw [Bool.eq_iff_iff, getLsbD_make, getLsbD_make, hmembers]

/-! ## Rows of words -/

/-- The number of bits of a word. -/
def wordWidth : Nat := 64

/-- The number of words of a row. -/
def wordCount : Nat := 1

/-- A set as a row of words. -/
abbrev Words := List (BitVec 64)

/-- The number of the word with the bit of a kind, and the word in which only this bit is set; refused
if the row has no such word, or a word no such bit. -/
def locate? (kind : Kind) : Option (Nat × BitVec 64) :=
  let word := kind.code / wordWidth
  let place := kind.code % wordWidth
  if word < wordCount ∧ place < wordWidth then some (word, 1#64 <<< place) else none

namespace Words

/-- The row without members. -/
def empty : Words := List.replicate wordCount 0#64

/-- The row with `kind` added. -/
def insert? (words : Words) (kind : Kind) : Option Words := do
  let (word, mask) ← locate? kind
  return words.set word ((← words[word]?) ||| mask)

/-- Whether `kind` is a member. -/
def contains? (words : Words) (kind : Kind) : Option Bool := do
  let (word, mask) ← locate? kind
  return (← words[word]?) &&& mask != 0#64

/-- The row of the members of either row, word by word. -/
def union? (a b : Words) : Option Words :=
  (List.range wordCount).foldlM (fun words i => do
    return words.set i ((← words[i]?) ||| (← b[i]?))) a

/-- Whether there is no member, word by word. -/
def isEmpty? (words : Words) : Option Bool :=
  (List.range wordCount).allM fun i => do return (← words[i]?) == 0#64

end Words

/-- The row of words of a set. -/
def words (set : KindSet) : Words := [set.bits]

theorem locate?_eq (kind : Kind) : locate? kind = some (0, mask kind) := by
  have hcode := kind.code_lt
  have hword : kind.code / wordWidth = 0 := Nat.div_eq_of_lt hcode
  have hplace : kind.code % wordWidth = kind.code := Nat.mod_eq_of_lt hcode
  unfold locate?
  rw [hword, hplace]
  exact if_pos ⟨Nat.zero_lt_one, hcode⟩

theorem insert?_words (set : KindSet) (kind : Kind) :
    set.words.insert? kind = some (set.insert kind).words := by
  unfold Words.insert?
  rw [locate?_eq]
  rfl

theorem contains?_words (set : KindSet) (kind : Kind) :
    set.words.contains? kind = some (set.contains kind) := by
  unfold Words.contains?
  rw [locate?_eq]
  rfl

theorem foldlM_insert?_words (set : KindSet) (kinds : List Kind) :
    kinds.foldlM Words.insert? set.words = some (kinds.foldl insert set).words := by
  induction kinds generalizing set with
  | nil => rfl
  | cons kind kinds ih =>
    rw [List.foldlM_cons, insert?_words]
    exact ih (set.insert kind)

theorem union?_words (a b : KindSet) : a.words.union? b.words = some (a.union b).words := rfl

theorem isEmpty?_words (set : KindSet) : set.words.isEmpty? = some set.isEmpty := by
  unfold isEmpty
  by_cases hzero : set.bits = 0#64 <;> simp [Words.isEmpty?, words, wordCount, List.allM, hzero]

/-- The row of words that is made, each step of it checked. -/
def Recipe.makeChecked? : Recipe → Option Words
  | empty => some Words.empty
  | ofList kinds => kinds.foldlM Words.insert? Words.empty
  | insert recipe kind => do (← recipe.makeChecked?).insert? kind
  | union a b => do (← a.makeChecked?).union? (← b.makeChecked?)

/-- **No check fails**: what is made is the row of the set. -/
theorem Recipe.makeChecked?_eq (recipe : Recipe) :
    recipe.makeChecked? = some recipe.make.words := by
  induction recipe with
  | empty => rfl
  | ofList kinds => exact foldlM_insert?_words KindSet.empty kinds
  | insert recipe kind ih =>
    rw [makeChecked?, ih]
    exact insert?_words recipe.make kind
  | union a b iha ihb =>
    rw [makeChecked?, iha, ihb]
    exact union?_words a.make b.make

/-! ## All sets -/

/-- **A set of kinds is what was put into it.** In whatever way sets are made: the members are the kinds
that were put in; no bit lies beyond a word and no word beyond the row, for any kind; two sets are equal
if they have the same members; and a set is empty if it has none. -/
theorem Recipe.make_faithful (recipe : Recipe) :
    (∀ kind, recipe.make.contains kind = true ↔ kind ∈ recipe.members) ∧
    (∀ kind : Kind, kind.code < wordWidth ∧ kind.code / wordWidth < wordCount) ∧
    (recipe.makeChecked? = some recipe.make.words ∧
      (∀ kind, recipe.make.words.contains? kind = some (recipe.make.contains kind)) ∧
      recipe.make.words.isEmpty? = some recipe.make.isEmpty) ∧
    (∀ other : Recipe, (recipe.make == other.make) = true ↔
      ∀ kind, recipe.make.contains kind = other.make.contains kind) ∧
    (recipe.make.isEmpty = true ↔ ∀ kind, recipe.make.contains kind = false) := by
  refine ⟨recipe.contains_make, fun kind => ?_, ?_, fun other => ?_, ?_⟩
  · have hword : kind.code / wordWidth = 0 := Nat.div_eq_of_lt kind.code_lt
    exact ⟨kind.code_lt, hword ▸ Nat.zero_lt_one⟩
  · exact ⟨recipe.makeChecked?_eq, contains?_words recipe.make, isEmpty?_words recipe.make⟩
  · rw [beq_iff_eq]
    exact ⟨fun h kind => by rw [h], make_ext⟩
  · -- the empty set is made in one way at least
    have hempty : recipe.make.isEmpty = true ↔ recipe.make = Recipe.empty.make := by
      rw [KindSet.isEmpty, beq_iff_eq, eq_iff_bits]
      rfl
    have hnone : ∀ kind, Recipe.empty.make.contains kind = false := fun kind =>
      Bool.eq_false_iff.2 fun h => (contains_make .empty kind).1 h
    rw [hempty]
    constructor
    · intro h kind
      rw [h, hnone]
    · intro h
      exact make_ext fun kind => (h kind).trans (hnone kind).symm

/-- Order, grouping and repetitions leave no trace. -/
example : (Recipe.union (.ofList [.name, .comma]) (.insert .empty .name)).make =
    (Recipe.insert (.ofList [.comma, .comma]) .name).make := by decide

end KindSet

/-! ## Classes of kinds -/

namespace Kind

theorem isToken_iff (kind : Kind) : kind.isToken = true ↔ kind.code ≤ endOfFile.code := by
  rw [isToken, tokens, KindSet.contains_ofList]
  cases kind <;> decide

theorem isList_iff (kind : Kind) : kind.isList = true ↔ itemList.code ≤ kind.code := by
  rw [isList, lists, KindSet.contains_ofList]
  cases kind <;> decide

theorem isKeyword_iff (kind : Kind) :
    kind.isKeyword = true ↔ funKeyword.code ≤ kind.code ∧ kind.code ≤ whileKeyword.code := by
  cases kind <;> decide

/-- **The classes do not overlap**: keywords are tokens, and no kind is both of tokens and of lists. -/
theorem classes_apart (kind : Kind) : (kind.isKeyword = true → kind.isToken = true) ∧
    ¬ (kind.isToken = true ∧ kind.isList = true) := by
  have hkeywords : whileKeyword.code ≤ endOfFile.code := by decide
  have hlists : endOfFile.code < itemList.code := by decide
  rw [isKeyword_iff, isToken_iff, isList_iff]
  omega

end Kind

end LosslessSyntax
