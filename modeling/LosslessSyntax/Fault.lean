import LosslessSyntax.Kind
import LosslessSyntax.Text.Span
import LosslessSyntax.Text.Quoted

/-!
# What can go wrong

A request is either rejected, because the parts do not make a tree, or it breaks a rule that the
caller has to keep. Each cause has one constructor, and each constructor one wording.

* `BuildError`, `BuildError.message`: rejected parts;
* `Violation`, `Violation.message`: broken rules;
* `Failure`: either of them.

Offsets and lengths of text are never allowed to pass `maxSize`: a sum that would is a violation,
not a smaller number.

* `addSize`, `sumSizes`: a sum of two lengths, and of a list of them from the left;
* `offsetsOf`: where parts of given lengths begin if they stand one after the other;
* `Span.ofSize`, `Span.between`, `Span.shift`: a span by offset and length, by its two ends, and
  moved.
-/

namespace LosslessSyntax

/-- Why parts do not make a tree. -/
inductive BuildError where
  /-- A node with a fixed layout was given a kind of lists. -/
  | listKind (kind : Kind)
  /-- A list was given a kind that is none of lists. -/
  | notListKind (kind : Kind)
  /-- A token stands where a list has an element. -/
  | tokenAsElement (slot : Nat) (kind : Kind)
  /-- A node stands where a list has a separator. -/
  | nodeAsSeparator (slot : Nat) (kind : Kind)
  /-- The separators are too few or too many for the elements. -/
  | separatorsDoNotFit (elements separators : Nat)
  /-- Nodes were opened and not closed. -/
  | leftOpen (opened : Nat)
  /-- There is not exactly one root, or the root is a token. -/
  | notOneRoot (count : Nat)
  deriving DecidableEq

/-- The wording of a rejection. -/
def BuildError.message : BuildError → String
  | .listKind kind => s!"`{kind.label}` is a list kind and must be built as a list"
  | .notListKind kind => s!"`{kind.label}` is not a list kind"
  | .tokenAsElement slot kind =>
    s!"expected a list element at slot {slot}, found token `{kind.label}`"
  | .nodeAsSeparator slot kind =>
    s!"expected a separator at slot {slot}, found node `{kind.label}`"
  | .separatorsDoNotFit elements separators =>
    s!"a list of {elements} elements cannot take {separators} separators"
  | .leftOpen opened => s!"{opened} node(s) were started but never finished"
  | .notOneRoot count => s!"expected exactly one root node, found {count} top-level element(s)"

/-- Which rule a caller broke. -/
inductive Violation where
  /-- A sum of lengths or an offset is too large. -/
  | sizeOverflow
  /-- A product of slot numbers is too large. -/
  | slotOverflow
  /-- A span was moved beyond the largest offset. -/
  | spanOverflow
  /-- A span was to end before its start. -/
  | spanReversed
  /-- A node has no slot of that number. -/
  | noSuchSlot (slot : Nat) (kind : Kind) (slots : Nat)
  /-- A memo of child nodes has no room for that slot. -/
  | noSuchRoom (slot : Nat) (rooms : Nat)
  /-- A slot number is too large to be kept in a handle. -/
  | slotTooLarge
  /-- The trivia of a token are longer than its text. -/
  | triviaTooLong (kind : Kind) (text : String)
  /-- The trivia of a token end inside a character. -/
  | triviaSplitsCharacter (kind : Kind) (text : String)
  /-- A node or a list is closed while none is open. -/
  | nothingOpen
  /-- A node is closed while a list is open. -/
  | listIsOpen
  /-- A list is closed while a node is open. -/
  | nodeIsOpen
  /-- A mark lies beyond the row of children. -/
  | markBeyondChildren
  /-- A mark lies before the entry that is open. -/
  | markBeforeEntry
  /-- A builder is dropped while an entry is open. -/
  | builderNotFinished
  /-- A walk has not entered a node whose children could be skipped. -/
  | nothingToSkip
  /-- A span does not lie within a node. -/
  | spanOutsideNode (span : Span) (kind : Kind) (node : Span)
  /-- A list has no element of that number. -/
  | noSuchElement (element : Nat) (elements : Nat)
  /-- A token stands in a slot of a list that is one for elements. -/
  | elementIsToken
  deriving DecidableEq

/-- The wording of a violation. -/
def Violation.message : Violation → String
  | .sizeOverflow => "attempt to add with overflow"
  | .slotOverflow => "attempt to multiply with overflow"
  | .spanOverflow => "TextRange +offset overflowed"
  | .spanReversed => "assertion failed: start.raw <= end.raw"
  | .noSuchSlot slot kind slots =>
    s!"slot index {slot} is out of range for `{kind.label}` with {slots} slots"
  | .noSuchRoom slot rooms =>
    s!"slot index {slot} is out of range for a cache of {rooms} slots"
  | .slotTooLarge => "slot index fits in u32: TryFromIntError(())"
  | .triviaTooLong kind text =>
    s!"trivia of `{kind.label}` does not fit into {Text.quoted text}"
  | .triviaSplitsCharacter kind text =>
    s!"trivia of `{kind.label}` splits a character of {Text.quoted text}"
  | .nothingOpen => "no opened nodes?"
  | .listIsOpen => "expected an opened node, found an opened list"
  | .nodeIsOpen => "expected an opened list, found an opened node"
  | .markBeyondChildren =>
    "checkpoint no longer valid, was `finish_node` called early?"
  | .markBeforeEntry =>
    "checkpoint no longer valid, was an unmatched `start_node` called?"
  | .builderNotFinished => "you should call `Builder::finish()`"
  | .nothingToSkip => "must have a subtree to skip"
  | .spanOutsideNode span kind node =>
    s!"range {span.text} is not inside the node {kind.label}@{node.text}"
  | .noSuchElement element elements =>
    s!"element {element} is out of range for a list of {elements}"
  | .elementIsToken =>
    "internal error: entered unreachable code: list element slots only hold nodes"

/-- Why a request was not served. -/
inductive Failure where
  | rejected (error : BuildError)
  | violated (violation : Violation)
  deriving DecidableEq

/-! ## Sizes that stay in bounds -/

/-- The sum of two lengths, or of an offset and a length. -/
def addSize (a b : Nat) : Except Violation Nat :=
  if a + b ≤ maxSize then .ok (a + b) else .error .sizeOverflow

/-- The sum of a list of lengths, from left to right. -/
def sumSizes (sizes : List Nat) : Except Violation Nat := sizes.foldlM addSize 0

/-- The offsets of parts of the given lengths that stand one after the other. -/
def offsetsOf (sizes : List Nat) : Array Nat :=
  (sizes.foldl (fun (offsets, sum) size => (offsets.push sum, sum + size)) (#[], 0)).1

namespace Span

/-- The span of `length` bytes at `offset`. -/
def ofSize (offset length : Nat) : Except Violation Span :=
  if offset + length ≤ maxSize then .ok ⟨offset, offset + length, Nat.le_add_right _ _⟩
  else .error .sizeOverflow

/-- The span from `start` up to `stop`. -/
def between (start stop : Nat) : Except Violation Span :=
  if h : start ≤ stop then .ok ⟨start, stop, h⟩ else .error .spanReversed

/-- The span `offset` bytes further right. -/
def shift (span : Span) (offset : Nat) : Except Violation Span :=
  if span.stop + offset ≤ maxSize then
    .ok ⟨span.start + offset, span.stop + offset, Nat.add_le_add_right span.start_le_stop _⟩
  else .error .spanOverflow

end Span

end LosslessSyntax
