/-!
# Kinds of syntax

Every token and every node of a syntax tree carries a kind. The kinds come in three runs, in this
order: kinds of tokens, kinds of nodes with a fixed layout, and kinds of lists.

A set of kinds is one word of 64 bits: the bit at the position of a kind says whether the kind is
in the set. All kinds have a position below 64, so no two of them share a bit.

* `Kind`, `Kind.all`: the kinds, and the list of them in order;
* `Kind.code`: the position of a kind in that order;
* `Kind.label`, `Kind.ofLabel?`: the name a kind is printed with, and the kind of a name;
* `Kind.order`: which of two kinds comes first;
* `KindSet`: the sets, with `KindSet.insert`, `KindSet.union`, `KindSet.contains`,
  `KindSet.isEmpty`;
* `KindSet.ofList`, `KindSet.toList`: from a list of kinds and back to the ordered list of them;
* `Kind.isToken`, `Kind.isList`, `Kind.isKeyword`: the classes of kinds.
-/

namespace LosslessSyntax

/-- What a token or a node is. -/
inductive Kind where
  | leftParen | rightParen | leftBracket | rightBracket | leftBrace | rightBrace | comma
  | semicolon | colon | equals | dot | funKeyword | ifKeyword | elseKeyword | loopKeyword
  | valKeyword | whileKeyword | name | number | string | binaryOperator | postfixOperator
  | prefixOperator | unknown | endOfFile
  | module | function | param | typeRef | block | valStmt | exprStmt | literal
  | nameRef | binaryExpr | postfixExpr | prefixExpr | parenExpr | callExpr
  | skippedTokens | error
  | itemList | stmtList | paramList | argList
  deriving DecidableEq

namespace Kind

/-- Every kind once, in order. -/
def all : List Kind :=
  [.leftParen, .rightParen, .leftBracket, .rightBracket, .leftBrace, .rightBrace, .comma,
   .semicolon, .colon, .equals, .dot, .funKeyword, .ifKeyword, .elseKeyword, .loopKeyword,
   .valKeyword, .whileKeyword, .name, .number, .string, .binaryOperator, .postfixOperator,
   .prefixOperator, .unknown, .endOfFile, .module, .function, .param, .typeRef, .block,
   .valStmt, .exprStmt, .literal, .nameRef, .binaryExpr, .postfixExpr,
   .prefixExpr, .parenExpr, .callExpr, .skippedTokens, .error, .itemList, .stmtList,
   .paramList, .argList]

/-- The position of a kind in the order of kinds. -/
def code (kind : Kind) : Nat := kind.ctorIdx

/-- The name of a kind. -/
def label : Kind → String
  | .leftParen => "LEFT_PAREN"
  | .rightParen => "RIGHT_PAREN"
  | .leftBracket => "LEFT_BRACKET"
  | .rightBracket => "RIGHT_BRACKET"
  | .leftBrace => "LEFT_BRACE"
  | .rightBrace => "RIGHT_BRACE"
  | .comma => "COMMA"
  | .semicolon => "SEMICOLON"
  | .colon => "COLON"
  | .equals => "EQ"
  | .dot => "DOT"
  | .funKeyword => "FUN_KW"
  | .ifKeyword => "IF_KW"
  | .elseKeyword => "ELSE_KW"
  | .loopKeyword => "LOOP_KW"
  | .valKeyword => "VAL_KW"
  | .whileKeyword => "WHILE_KW"
  | .name => "NAME"
  | .number => "NUMBER"
  | .string => "STRING"
  | .binaryOperator => "BINARY_OPERATOR"
  | .postfixOperator => "POSTFIX_OPERATOR"
  | .prefixOperator => "PREFIX_OPERATOR"
  | .unknown => "UNKNOWN"
  | .endOfFile => "EOF"
  | .module => "MODULE"
  | .function => "FUNCTION"
  | .param => "PARAM"
  | .typeRef => "TYPE_REF"
  | .block => "BLOCK"
  | .valStmt => "VAL_STMT"
  | .exprStmt => "EXPR_STMT"
  | .literal => "LITERAL"
  | .nameRef => "NAME_REF"
  | .binaryExpr => "BINARY_EXPR"
  | .postfixExpr => "POSTFIX_EXPR"
  | .prefixExpr => "PREFIX_EXPR"
  | .parenExpr => "PAREN_EXPR"
  | .callExpr => "CALL_EXPR"
  | .skippedTokens => "SKIPPED_TOKENS"
  | .error => "ERROR"
  | .itemList => "ITEM_LIST"
  | .stmtList => "STMT_LIST"
  | .paramList => "PARAM_LIST"
  | .argList => "ARG_LIST"

/-- The kind with a given name. -/
def ofLabel? (name : String) : Option Kind := all.find? (·.label == name)

/-- Kinds are ordered by their position. -/
def order (a b : Kind) : Ordering := compare a.code b.code

end Kind

/-! ## Sets of kinds -/

/-- A set of kinds, bit by bit. -/
structure KindSet where
  bits : BitVec 64
  deriving DecidableEq

namespace KindSet

/-- The set without members. -/
def empty : KindSet := ⟨0#64⟩

/-- The word in which only the bit of `kind` is set. -/
def mask (kind : Kind) : BitVec 64 := 1#64 <<< kind.code

/-- The set with `kind` added. -/
def insert (set : KindSet) (kind : Kind) : KindSet := ⟨set.bits ||| mask kind⟩

/-- The set of the members of either set. -/
def union (a b : KindSet) : KindSet := ⟨a.bits ||| b.bits⟩

/-- Whether `kind` is a member. -/
def contains (set : KindSet) (kind : Kind) : Bool := set.bits &&& mask kind != 0#64

/-- Whether there is no member. -/
def isEmpty (set : KindSet) : Bool := set.bits == 0#64

/-- The set of the kinds of a list. -/
def ofList (kinds : List Kind) : KindSet := kinds.foldl insert empty

/-- The members in the order of kinds. -/
def toList (set : KindSet) : List Kind := Kind.all.filter set.contains

/-- A set is printed as the number that its bits make. -/
def label (set : KindSet) : String := s!"SyntaxSet \x7b bits: [{set.bits.toNat}] \x7d"

end KindSet

/-! ## Classes of kinds -/

namespace Kind

/-- The kinds of tokens. -/
def tokens : KindSet :=
  .ofList [.leftParen, .rightParen, .leftBracket, .rightBracket, .leftBrace, .rightBrace, .comma,
    .semicolon, .colon, .equals, .dot, .funKeyword, .ifKeyword, .elseKeyword, .loopKeyword,
    .valKeyword, .whileKeyword, .name, .number, .string, .binaryOperator, .postfixOperator,
    .prefixOperator, .unknown, .endOfFile]

/-- The kinds of lists. -/
def lists : KindSet := .ofList [.itemList, .stmtList, .paramList, .argList]

/-- Whether only tokens are of a kind. -/
def isToken (kind : Kind) : Bool := tokens.contains kind

/-- Whether a kind is that of nodes with any number of slots. -/
def isList (kind : Kind) : Bool := lists.contains kind

/-- Keywords are the reserved words. -/
def isKeyword : Kind → Bool
  | .funKeyword | .ifKeyword | .elseKeyword | .loopKeyword | .valKeyword | .whileKeyword => true
  | _ => false

end Kind

end LosslessSyntax
