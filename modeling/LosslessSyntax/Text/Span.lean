/-!
# Spans of text

Offsets into a text and lengths of texts count bytes of UTF-8 and fit in 32 bits. A span is the
stretch of text between two offsets. A text is a sequence of characters, and a character takes one to
four bytes; a cut after a number of bytes is possible only where one character ends and the next
begins.

* `maxSize`: the largest offset or length;
* `Span`: the stretches, with `Span.isEmpty`, `Span.covers`, `Span.touches`;
* `Text.bytes`: the number of bytes of a list of characters;
* `Text.isBoundary`: whether a cut after that many bytes falls between two characters;
* `Text.takeBytes`, `Text.dropBytes`: the characters before and after a cut.
-/

namespace LosslessSyntax

/-- The largest length of a text. -/
def maxSize : Nat := UInt32.size - 1

/-- The stretch of text from `start` up to `stop`. -/
structure Span where
  start : Nat
  stop : Nat
  start_le_stop : start ≤ stop
  deriving DecidableEq

namespace Span

/-- Whether the span holds no text. -/
def isEmpty (span : Span) : Bool := span.start == span.stop

/-- Whether `inner` lies within the span. -/
def covers (span inner : Span) : Bool := span.start ≤ inner.start && inner.stop ≤ span.stop

/-- Whether `offset` lies in the span or at one of its ends. -/
def touches (span : Span) (offset : Nat) : Bool := span.start ≤ offset && offset ≤ span.stop

/-- A span is printed as its two ends. -/
def text (span : Span) : String := s!"{span.start}..{span.stop}"

end Span

/-! ## Cuts -/

namespace Text

/-- The number of bytes of a list of characters. -/
def bytes : List Char → Nat
  | [] => 0
  | c :: cs => c.utf8Size + bytes cs

/-- Whether a cut after `n` bytes falls between two characters, or at an end. -/
def isBoundary : List Char → Nat → Bool
  | _, 0 => true
  | [], _ + 1 => false
  | c :: cs, n + 1 => c.utf8Size ≤ n + 1 && isBoundary cs (n + 1 - c.utf8Size)

/-- The characters that fit into the first `n` bytes. -/
def takeBytes : List Char → Nat → List Char
  | [], _ => []
  | c :: cs, n => if c.utf8Size ≤ n then c :: takeBytes cs (n - c.utf8Size) else []

/-- The characters that are left when those that fit into the first `n` bytes are taken away. -/
def dropBytes : List Char → Nat → List Char
  | [], _ => []
  | c :: cs, n => if c.utf8Size ≤ n then dropBytes cs (n - c.utf8Size) else c :: cs

end Text

end LosslessSyntax
