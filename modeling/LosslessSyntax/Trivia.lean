import LosslessSyntax.Fault

/-!
# Trivia

Blanks, line ends and comments are no tokens of their own: they are trivia of a token, before or
after its proper text. Trivia are a run of pieces, each with a class and a length in bytes.

* `Trivia.Piece`: a piece of one class;
* `Trivia`: a run of pieces whose total length is in bounds;
* `Trivia.ofPieces`, `Trivia.whitespace`: runs from their pieces;
* `Trivia.label`: what a run is printed as.
-/

namespace LosslessSyntax

namespace Trivia

/-- The classes of trivia. -/
inductive Class where
  | whitespace
  | newline
  | lineComment
  deriving DecidableEq

/-- The name of a class. -/
def Class.label : Class → String
  | .whitespace => "Whitespace"
  | .newline => "Newline"
  | .lineComment => "SingleLineComment"

/-- A piece of trivia: its class and its length. -/
structure Piece where
  cls : Class
  length : Nat
  deriving DecidableEq

/-- The total length of a run of pieces. -/
def total : List Piece → Nat
  | [] => 0
  | piece :: pieces => piece.length + total pieces

end Trivia

/-- A run of trivia. -/
structure Trivia where
  pieces : List Trivia.Piece
  total_le : Trivia.total pieces ≤ maxSize
  deriving DecidableEq

namespace Trivia

/-- No trivia. -/
def none : Trivia := ⟨[], by decide⟩

/-- The length of a run. -/
def length (trivia : Trivia) : Nat := total trivia.pieces

/-- A run is empty if it has no piece; a piece of length zero is one. -/
def isEmpty (trivia : Trivia) : Bool := trivia.pieces.isEmpty

/-- The run of the given pieces. -/
def ofPieces (pieces : List Piece) : Except Violation Trivia :=
  if h : total pieces ≤ maxSize then .ok ⟨pieces, h⟩ else .error .sizeOverflow

/-- A single blank piece. -/
def whitespace (length : Nat) : Except Violation Trivia := ofPieces [⟨.whitespace, length⟩]

end Trivia

/-- Trivia are printed as their pieces and their length. -/
def Trivia.label (trivia : Trivia) : String :=
  let pieces := trivia.pieces.map fun piece =>
    s!"TriviaPiece \x7b kind: {piece.cls.label}, len: {piece.length} \x7d"
  let joined := ", ".intercalate pieces
  s!"GreenTrivia \x7b pieces: [{joined}], total_len: {trivia.length} \x7d"

end LosslessSyntax
