import LosslessSyntax.Typed.Form

/-!
# Parts of typed nodes

The parts of a construct are found among the children of its node: the first child of a form, the
first token of a kind, the list of a kind. A part that is not there is absent, and a child that
belongs to no part is passed by.

A list of a form is a list view whose elements are seen as nodes of the form. Its length counts all
elements; one that does not belong to the form is absent when it is asked for by its number, and is
passed by when the elements are given out one by one.

* `Typed.ListOf`, `Typed.ListOf.get?`, `Typed.ListOf.placed?`: the elements by number;
* `Typed.ListOf.next`, `Typed.ListOf.nextBack`: the elements one by one, from either end;
* `Typed.childFrom?`, `Typed.child?`: a child of a form;
* `Typed.token?`: a token of a kind;
* `Typed.listOf?`: the list of a kind;
* `Typed.Node.params?` and its like: one function for each part of each form.
-/

namespace LosslessSyntax.Typed

open Placed (Query Token ListView)

/-! ## Lists -/

/-- A list whose elements are seen as nodes of a form. -/
structure ListOf (form : Form) where
  view : ListView

namespace ListOf

variable {form : Form}

/-- An element, if it is there and belongs to the form. -/
def get? (list : ListOf form) (index : Nat) : Query (Option (Node form)) := do
  return (← list.view.get? index).bind (cast? form)

/-- An element, if it is there, belongs to the form and was placed before. -/
def placed? (list : ListOf form) (index : Nat) : Query (Option (Node form)) := do
  return (← list.view.placed? index).bind (cast? form)

/-- The next element that belongs to the form among the next `count` ones that `step` gives out. -/
def pick (step : ListView.Cursor → Query (Option Placed.Node × ListView.Cursor)) :
    Nat → ListView.Cursor → Query (Option (Node form) × ListView.Cursor)
  | 0, cursor => return (none, cursor)
  | count + 1, cursor => do
    match ← step cursor with
    | (none, cursor) => return (none, cursor)
    | (some node, cursor) =>
      match cast? form node with
      | some typed => return (some typed, cursor)
      | none => pick step count cursor

/-- The next element from the front that belongs to the form. -/
def next (cursor : ListView.Cursor) : Query (Option (Node form) × ListView.Cursor) :=
  pick ListView.Cursor.next cursor.length cursor

/-- The next element from the back that belongs to the form. -/
def nextBack (cursor : ListView.Cursor) : Query (Option (Node form) × ListView.Cursor) :=
  pick ListView.Cursor.nextBack cursor.length cursor

/-- A typed list is printed around its view. -/
def label (list : ListOf form) : Except Violation String := do
  let view ← list.view.label
  return s!"AstList({view})"

end ListOf

/-! ## Children by form and by kind -/

/-- The numbers of the slots of a node from `first` on. -/
def slotsFrom (node : Placed.Node) (first : Nat) : List Nat :=
  List.range' first (node.arity - first)

/-- The first child of a form, from a slot on. -/
def childFrom? (form : Form) (node : Placed.Node) (first : Nat) : Query (Option (Node form)) :=
  (slotsFrom node first).findSomeM? fun slot => do
    return (← node.nodeAt slot).bind (cast? form)

/-- The first child of a form. -/
def child? (form : Form) (node : Placed.Node) : Query (Option (Node form)) :=
  childFrom? form node 0

/-- The first token among the children that `wanted` accepts. -/
def token? (wanted : Kind → Bool) (node : Placed.Node) : Query (Option Token) :=
  (slotsFrom node 0).findSomeM? fun slot => do
    return (← node.slotAt slot).token?.filter (wanted ·.kind)

/-- The first child of a kind, seen as a list of nodes of a form. -/
def listOf? (form : Form) (kind : Kind) (node : Placed.Node) : Query (Option (ListOf form)) := do
  let found ← (slotsFrom node 0).findSomeM? fun slot => do
    return (← node.nodeAt slot).filter (·.kind == kind)
  return (found.bind (·.asList?)).map (⟨·⟩)

namespace Node

/-! ## Declarations -/

/-- The functions of a module. -/
def functions? (typed : Node .module) : Query (Option (ListOf .function)) :=
  listOf? .function .itemList typed.node

/-- The name of a function. -/
def functionName? (typed : Node .function) : Query (Option Token) :=
  token? (· == .name) typed.node

/-- The parameters of a function. -/
def params? (typed : Node .function) : Query (Option (ListOf .param)) :=
  listOf? .param .paramList typed.node

/-- The body of a function. -/
def body? (typed : Node .function) : Query (Option (Node .block)) := child? .block typed.node

/-- The name of a parameter. -/
def paramName? (typed : Node .param) : Query (Option Token) := token? (· == .name) typed.node

/-- The type of a parameter. -/
def paramType? (typed : Node .param) : Query (Option (Node .typeRef)) :=
  child? .typeRef typed.node

/-- The name of a type. -/
def typeName? (typed : Node .typeRef) : Query (Option Token) := token? (· == .name) typed.node

/-! ## Statements -/

/-- The statements of a block. -/
def statements? (typed : Node .block) : Query (Option (ListOf .stmt)) :=
  listOf? .stmt .stmtList typed.node

/-- The name that a statement gives to a value. -/
def valName? (typed : Node .valStmt) : Query (Option Token) := token? (· == .name) typed.node

/-- The value that a statement gives a name to. -/
def initializer? (typed : Node .valStmt) : Query (Option (Node .expr)) := child? .expr typed.node

/-- The expression of a statement. -/
def stmtExpr? (typed : Node .exprStmt) : Query (Option (Node .expr)) := child? .expr typed.node

/-! ## Expressions -/

/-- The token of a literal, of whatever kind. -/
def literalToken? (typed : Node .literal) : Query (Option Token) :=
  token? (fun _ => true) typed.node

/-- The name that an expression refers to. -/
def refName? (typed : Node .nameRef) : Query (Option Token) := token? (· == .name) typed.node

/-- The left operand: the first expression. -/
def lhs? (typed : Node .binaryExpr) : Query (Option (Node .expr)) := child? .expr typed.node

/-- The operator between two operands. -/
def binaryOp? (typed : Node .binaryExpr) : Query (Option Token) :=
  token? (· == .binaryOperator) typed.node

/-- The right operand: the second expression. -/
def rhs? (typed : Node .binaryExpr) : Query (Option (Node .expr)) := do
  match ← child? .expr typed.node with
  | none => return none
  | some lhs => childFrom? .expr typed.node (lhs.node.index + 1)

/-- The operator before an operand. -/
def prefixOp? (typed : Node .prefixExpr) : Query (Option Token) :=
  token? (· == .prefixOperator) typed.node

/-- The operand after its operator. -/
def prefixOperand? (typed : Node .prefixExpr) : Query (Option (Node .expr)) :=
  child? .expr typed.node

/-- The operand before its operator. -/
def postfixOperand? (typed : Node .postfixExpr) : Query (Option (Node .expr)) :=
  child? .expr typed.node

/-- The operator after an operand. -/
def postfixOp? (typed : Node .postfixExpr) : Query (Option Token) :=
  token? (· == .postfixOperator) typed.node

/-- The expression in parentheses. -/
def inner? (typed : Node .parenExpr) : Query (Option (Node .expr)) := child? .expr typed.node

/-- The expression that is called. -/
def callee? (typed : Node .callExpr) : Query (Option (Node .expr)) := child? .expr typed.node

/-- The arguments of a call. -/
def args? (typed : Node .callExpr) : Query (Option (ListOf .expr)) :=
  listOf? .expr .argList typed.node

end Node

end LosslessSyntax.Typed
