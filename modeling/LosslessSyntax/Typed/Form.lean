import LosslessSyntax.Placed.ListView

/-!
# Typed nodes

A form names the nodes of one construct of the language, or of a class of constructs. A node of a
form is a placed node whose kind belongs to it, so a node of another kind can never be taken for
one.

* `Typed.Form`, `Typed.Form.admits`: the forms, and the kinds that belong to them;
* `Typed.Form.construct?`, `Typed.Form.construct?_isSome`: the construct that a node is cast to, which
  there is for just the kinds that belong to the form;
* `Typed.Node`, `Typed.cast?`: nodes of a form.
-/

namespace LosslessSyntax.Typed

/-- The constructs of the language, and the two classes of them. -/
inductive Form where
  | module | function | param | typeRef | block | valStmt | exprStmt
  | literal | nameRef | binaryExpr | prefixExpr | postfixExpr | parenExpr | callExpr
  | stmt | expr
  deriving DecidableEq

namespace Form

/-- Every form once. -/
def all : List Form :=
  [.module, .function, .param, .typeRef, .block, .valStmt, .exprStmt, .literal, .nameRef,
   .binaryExpr, .prefixExpr, .postfixExpr, .parenExpr, .callExpr, .stmt, .expr]

/-- The name of a form. -/
def label : Form → String
  | module => "Module"
  | function => "Function"
  | param => "Param"
  | typeRef => "TypeRef"
  | block => "Block"
  | valStmt => "ValStmt"
  | exprStmt => "ExprStmt"
  | literal => "Literal"
  | nameRef => "NameRef"
  | binaryExpr => "BinaryExpr"
  | prefixExpr => "PrefixExpr"
  | postfixExpr => "PostfixExpr"
  | parenExpr => "ParenExpr"
  | callExpr => "CallExpr"
  | stmt => "Stmt"
  | expr => "Expr"

/-- The kinds of expressions. -/
def exprKinds : KindSet :=
  .ofList [.literal, .nameRef, .binaryExpr, .prefixExpr, .postfixExpr, .parenExpr, .callExpr]

/-- Whether a kind belongs to a form. -/
def admits : Form → Kind → Bool
  | module, kind => kind == .module
  | function, kind => kind == .function
  | param, kind => kind == .param
  | typeRef, kind => kind == .typeRef
  | block, kind => kind == .block
  | valStmt, kind => kind == .valStmt
  | exprStmt, kind => kind == .exprStmt
  | literal, kind => kind == .literal
  | nameRef, kind => kind == .nameRef
  | binaryExpr, kind => kind == .binaryExpr
  | prefixExpr, kind => kind == .prefixExpr
  | postfixExpr, kind => kind == .postfixExpr
  | parenExpr, kind => kind == .parenExpr
  | callExpr, kind => kind == .callExpr
  | stmt, kind => kind == .valStmt || kind == .exprStmt
  | expr, kind => exprKinds.contains kind

/-- What is printed around the name of a member of a class: its short name in the class. -/
def memberLabel : Form → Kind → Option String
  | stmt, .valStmt => some "Val"
  | stmt, .exprStmt => some "Expr"
  | expr, .literal => some "Literal"
  | expr, .nameRef => some "NameRef"
  | expr, .binaryExpr => some "Binary"
  | expr, .prefixExpr => some "Prefix"
  | expr, .postfixExpr => some "Postfix"
  | expr, .parenExpr => some "Paren"
  | expr, .callExpr => some "Call"
  | _, _ => none

/-- The construct that a node of a kind is cast to: a class has one for each kind of its own. -/
def construct? : Form → Kind → Option Form
  | stmt, .valStmt => some valStmt
  | stmt, .exprStmt => some exprStmt
  | stmt, _ => none
  | expr, .literal => some literal
  | expr, .nameRef => some nameRef
  | expr, .binaryExpr => some binaryExpr
  | expr, .prefixExpr => some prefixExpr
  | expr, .postfixExpr => some postfixExpr
  | expr, .parenExpr => some parenExpr
  | expr, .callExpr => some callExpr
  | expr, _ => none
  | form, kind => if form.admits kind then some form else none

/-- A cast finds a construct just for the kinds that belong to the form. -/
theorem construct?_isSome (form : Form) (kind : Kind) :
    (form.construct? kind).isSome = form.admits kind := by
  cases form with
  | stmt => cases kind <;> rfl
  | expr => cases kind <;> rfl
  | _ =>
    simp only [construct?]
    split <;> simp_all

end Form

/-- A placed node whose kind belongs to a form. -/
structure Node (form : Form) where
  node : Placed.Node
  admitted : form.admits node.kind = true

/-- A node as one of a form, if there is a construct of the form that it is. -/
def cast? (form : Form) (node : Placed.Node) : Option (Node form) :=
  match found : form.construct? node.kind with
  | some _ => some ⟨node, by rw [← form.construct?_isSome, found]; rfl⟩
  | none => none

theorem cast?_eq (form : Form) (node : Placed.Node) :
    cast? form node = if h : form.admits node.kind = true then some ⟨node, h⟩ else none := by
  have hsome := form.construct?_isSome node.kind
  unfold cast?
  split
  case h_1 construct found =>
    rw [found, Option.isSome_some] at hsome
    rw [dif_pos hsome.symm]
  case h_2 found =>
    rw [found, Option.isSome_none] at hsome
    rw [dif_neg (Bool.eq_false_iff.1 hsome.symm)]

/-- A typed node is printed as its construct around the node, and a member of a class with its short
name around that. -/
def Node.label {form : Form} (typed : Node form) : Except Violation String := do
  let kind := typed.node.kind
  let construct := (form.construct? kind).getD form
  let label ← typed.node.label
  let text := s!"{construct.label}({label})"
  return match form.memberLabel kind with
    | some member => s!"{member}({text})"
    | none => text

end LosslessSyntax.Typed
