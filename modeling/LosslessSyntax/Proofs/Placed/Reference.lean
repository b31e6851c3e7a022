import LosslessSyntax.Proofs.Placed.Facade
import LosslessSyntax.Proofs.Placed.Walk

/-!
# The answers, told by paths

All questions to the handles of a tree can be answered from the green root and the paths alone. Here
nothing is placed and nothing is kept: the reference of a part is its path, and the reference of a
cursor or of a walk is the row of what is left of it.

* `Placed.Ref`: what stands for a handle;
* `Placed.HandleKind.answer`: the answer to a question;
* `Placed.Call.Admits`: the replies that a call may have; only a look at what was placed before may
  have more than one;
* `Placed.Tree.Admits`: the replies that a series of calls may have.
-/

namespace LosslessSyntax.Placed

/-- What stands for what a handle is. -/
def HandleKind.Told : HandleKind → Type
  | node => List Nat
  | token => List Nat
  | list => List Nat
  | slots => List (List Nat)
  | nodes => List (List Nat)
  | elements => List (List Nat)
  | walk => List Visit

/-- What stands for a handle. -/
structure Ref where
  kind : HandleKind
  told : kind.Told

namespace Tree

variable (tree : Tree)

/-- The green node at a path. -/
def node? (path : List Nat) : Option Green.Node := (tree.part? path).bind (·.node?)

/-- The green token at a path. -/
def token? (path : List Nat) : Option Green.Token := (tree.part? path).bind (·.token?)

/-- The length of the text of the part at a path. -/
def widthOf (path : List Nat) : Nat := ((tree.part? path).map (·.width)).getD 0

/-- The offset after the part at a path. -/
def stopOf (path : List Nat) : Nat := tree.startOf path + tree.widthOf path

/-- The stretch of the part at a path. -/
def spanOf (path : List Nat) : Span := ⟨tree.startOf path, tree.stopOf path, Nat.le_add_right _ _⟩

/-- What stands for the part at a path. -/
def ref (path : List Nat) : Ref :=
  if tree.holdsNode path then ⟨.node, path⟩ else ⟨.token, path⟩

/-- The answer that is a row of parts. -/
def dataOf (row : List (List Nat)) : List (Datum Ref) := row.map fun path => .handle (tree.ref path)

/-- Whether the token at a path has text and holds an offset or has it at an end. -/
def Touches (offset : Nat) (path : List Nat) : Prop :=
  tree.widthOf path ≠ 0 ∧ tree.startOf path ≤ offset ∧ offset ≤ tree.stopOf path

instance (offset : Nat) : DecidablePred (tree.Touches offset) :=
  fun _ => inferInstanceAs (Decidable (_ ∧ _ ∧ _))

/-- Whether the part at a path holds a text, and goes on after its first offset unless the text is at
`stop`. -/
def Holds (span : Span) (stop : Nat) (path : List Nat) : Prop :=
  tree.startOf path ≤ span.start ∧ span.stop ≤ tree.stopOf path ∧
    (span.start < tree.stopOf path ∨ span.start = stop)

instance (span : Span) (stop : Nat) : DecidablePred (tree.Holds span stop) :=
  fun _ => inferInstanceAs (Decidable (_ ∧ _ ∧ _))

end Tree

/-! ## Questions -/

/-- Answers for the node at a path. -/
def NodeQuestion.answer (tree : Tree) (path : List Nat) (node : Green.Node) :
    NodeQuestion → Except Violation (List (Datum Ref))
  | kind => .ok [.kind node.kind]
  | text => .ok [.text node.text]
  | width => .ok [.number node.width]
  | start => .ok [.number (tree.startOf path)]
  | stop => .ok [.number (tree.stopOf path)]
  | span => .ok [.span (tree.spanOf path)]
  | index => .ok [.number (path.getLast?.getD 0)]
  | arity => .ok [.number node.slots.size]
  | green => .ok [.green node.toElement]
  | annotations => do
    let notes ← node.annotations.mapM fun note => do
      return { note with span := ← note.span.shift (tree.startOf path) }
    return notes.map .note
  | parent => .ok (tree.dataOf (if path = [] then [] else [path.dropLast]))
  | ancestors => .ok (tree.dataOf path.inits.reverse)
  | slotAt slot =>
    if slot < node.slots.size then .ok (tree.dataOf [path ++ [slot]])
    else .error (.noSuchSlot slot node.kind node.slots.size)
  | getSlot slot => .ok (tree.dataOf (if slot < node.slots.size then [path ++ [slot]] else []))
  | cursor => .ok [.handle ⟨.slots, tree.children path⟩]
  | nodeCursor => .ok [.handle ⟨.nodes, tree.nodes path⟩]
  | firstNode => .ok (tree.dataOf (tree.nodes path).head?.toList)
  | lastNode => .ok (tree.dataOf (tree.nodes path).getLast?.toList)
  | nextNode => .ok (tree.dataOf (nextIn (tree.nodes path.dropLast) path).toList)
  | previousNode => .ok (tree.dataOf (previousIn (tree.nodes path.dropLast) path).toList)
  | next => .ok (tree.dataOf (nextIn (tree.children path.dropLast) path).toList)
  | previous => .ok (tree.dataOf (previousIn (tree.children path.dropLast) path).toList)
  | firstToken => .ok (tree.dataOf (tree.tokens path).head?.toList)
  | lastToken => .ok (tree.dataOf (tree.tokens path).getLast?.toList)
  | descendants => .ok (tree.dataOf (tree.descendants path))
  | walk => .ok [.handle ⟨.walk, tree.visits path⟩]
  | tokensAt offset => .ok (tree.dataOf ((tree.tokens path).filter (tree.Touches offset ·)))
  | covering stretch =>
    if tree.startOf path ≤ stretch.start ∧ stretch.stop ≤ tree.stopOf path then
      .ok (tree.dataOf
        ((tree.parts path).filter (tree.Holds stretch (tree.stopOf path) ·)).getLast?.toList)
    else .error (.spanOutsideNode stretch node.kind (tree.spanOf path))
  | asList => .ok (node.listShape?.toList.map fun _ => .handle ⟨.list, path⟩)

/-- Answers for the token at a path. -/
def TokenQuestion.answer (tree : Tree) (path : List Nat) (token : Green.Token) :
    TokenQuestion → Except Violation (List (Datum Ref))
  | kind => .ok [.kind token.kind]
  | text => .ok [.text token.text]
  | start => .ok [.number (tree.startOf path)]
  | stop => .ok [.number (tree.stopOf path)]
  | span => .ok [.span (tree.spanOf path)]
  | trimmedSpan => do return [.span (← token.trimmedSpan.shift (tree.startOf path))]
  | index => .ok [.number (path.getLast?.getD 0)]
  | green => .ok [.green (.token token)]
  | parent => .ok (tree.dataOf [path.dropLast])
  | ancestors => .ok (tree.dataOf path.dropLast.inits.reverse)
  | next => .ok (tree.dataOf (nextIn (tree.children path.dropLast) path).toList)
  | previous => .ok (tree.dataOf (previousIn (tree.children path.dropLast) path).toList)
  | nextToken => .ok (tree.dataOf (nextIn (tree.tokens []) path).toList)
  | previousToken => .ok (tree.dataOf (previousIn (tree.tokens []) path).toList)

/-- Answers for the list at a path. Its elements are the nodes and its separators the tokens in its
slots; a slot that is counted by twos has to be a slot number. -/
def ListQuestion.answer (tree : Tree) (path : List Nat) (form : Green.ListShape) :
    ListQuestion → Except Violation (List (Datum Ref))
  | node => .ok (tree.dataOf [path])
  | shape => .ok [.shape form]
  | length => .ok [.number (tree.nodes path).length]
  | isEmpty => .ok [.flag (tree.children path).isEmpty]
  | separatorCount => .ok [.number (tree.slotTokens path).length]
  | endsInSeparator =>
    .ok [.flag ((tree.children path).getLast?.any fun below => !tree.holdsNode below)]
  | slotOf index =>
    if form = .separated then
      if index * 2 < ListView.slotBound then .ok [.number (index * 2)] else .error .slotOverflow
    else .ok [.number index]
  | elementOf slot =>
    .ok (if form = .separated then if slot % 2 = 0 then [.number (slot / 2)] else []
      else [.number slot])
  | element index =>
    match (tree.nodes path)[index]? with
    | some below => .ok (tree.dataOf [below])
    | none => .error (.noSuchElement index (tree.nodes path).length)
  | get index => .ok (tree.dataOf (tree.nodes path)[index]?.toList)
  | separator index =>
    if form = .separated ∧ ListView.slotBound ≤ index * 2 then .error .slotOverflow
    else .ok (tree.dataOf (tree.slotTokens path)[index]?.toList)
  | separators => .ok (tree.dataOf (tree.slotTokens path))
  | cursor => .ok [.handle ⟨.elements, tree.nodes path⟩]

/-- Answers for what is left of a row; `rest` is what stands for the cursor that is given back. -/
def RowQuestion.answer (tree : Tree) (left : List (List Nat)) (rest : List (List Nat) → Ref) :
    RowQuestion → Except Violation (List (Datum Ref))
  | length => .ok [.number left.length]
  | next => .ok (tree.dataOf left.head?.toList ++ [.handle (rest left.tail)])
  | nextBack => .ok (tree.dataOf left.getLast?.toList ++ [.handle (rest left.dropLast)])

/-- Answers for what is left of a row of nodes. -/
def NodesQuestion.answer (tree : Tree) (left : List (List Nat)) :
    NodesQuestion → Except Violation (List (Datum Ref))
  | next => .ok (tree.dataOf left.head?.toList ++ [.handle ⟨.nodes, left.tail⟩])
  | nextBack => .ok (tree.dataOf left.getLast?.toList ++ [.handle ⟨.nodes, left.dropLast⟩])

/-- What is met in a walk: a token, or a node and whether it is entered. -/
def Tree.visitData (tree : Tree) : Visit → List (Datum Ref)
  | .enter path => .flag true :: tree.dataOf [path]
  | .leave path => .flag false :: tree.dataOf [path]
  | .token path => tree.dataOf [path]

/-- The answer that is the first of a row of visits, and a walk through the others. -/
def Tree.firstVisit (tree : Tree) (left : List Visit) : List (Datum Ref) :=
  (left.head?.map tree.visitData).getD [] ++ [.handle ⟨.walk, left.tail⟩]

/-- Answers for what is left of a walk. -/
def WalkQuestion.answer (tree : Tree) (left : List Visit) :
    WalkQuestion → Except Violation (List (Datum Ref))
  | next => .ok (tree.firstVisit left)
  | nextOfNode => .ok (tree.firstVisit (left.dropWhile Visit.isToken))
  | skip =>
    match Visit.skip 0 left with
    | some rest => .ok [.handle ⟨.walk, rest⟩]
    | none => .error .nothingToSkip

/-- Answers a question. -/
def HandleKind.answer (tree : Tree) :
    (kind : HandleKind) → kind.Told → kind.Question → Except Violation (List (Datum Ref))
  | node, path, question =>
    match tree.node? path with
    | some green => NodeQuestion.answer tree path green question
    | none => .ok []
  | token, path, question =>
    match tree.token? path with
    | some green => TokenQuestion.answer tree path green question
    | none => .ok []
  | list, path, question =>
    match (tree.node? path).bind (·.listShape?) with
    | some listShape => ListQuestion.answer tree path listShape question
    | none => .ok []
  | slots, left, question => RowQuestion.answer tree left (⟨.slots, ·⟩) question
  | nodes, left, question => NodesQuestion.answer tree left question
  | elements, left, question => RowQuestion.answer tree left (⟨.elements, ·⟩) question
  | walk, left, question => WalkQuestion.answer tree left question

/-! ## Calls -/

/-- The path of a part. -/
def Ref.path? : Ref → Option (List Nat)
  | ⟨.node, path⟩ => some path
  | ⟨.token, path⟩ => some path
  | _ => none

/-- Whether two references are of the same part: they are if they have one path. -/
def Ref.same? (a b : Ref) : Option Bool := do return decide ((← a.path?) = (← b.path?))

namespace Tree

variable (tree : Tree)

/-- A look at the part at a path finds nothing, or the part if it is a node. -/
def Finds (path : List Nat) (reply : Except Violation (List (Datum Ref))) : Prop :=
  reply = .ok [] ∨ tree.holdsNode path = true ∧ reply = .ok (tree.dataOf [path])

/-- A look into a slot of the node at a path. -/
def FindsSlot (path : List Nat) (slot : Nat) (reply : Except Violation (List (Datum Ref))) : Prop :=
  match tree.node? path with
  | none => reply = .ok []
  | some green =>
    if slot < green.slots.size then tree.Finds (path ++ [slot]) reply
    else reply = .error (.noSuchSlot slot green.kind green.slots.size)

/-- A look at an element of the list at a path. -/
def FindsElement (path : List Nat) (index : Nat) (reply : Except Violation (List (Datum Ref))) :
    Prop :=
  match (tree.nodes path)[index]? with
  | none => reply = .ok []
  | some below => tree.Finds below reply

end Tree

/-- The replies that a call may have. -/
def Call.Admits (tree : Tree) (refs : List Ref) :
    Call → Except Violation (List (Datum Ref)) → Prop
  | ask handle kind question, reply =>
    match refs[handle]? with
    | none => reply = .ok []
    | some ⟨actual, told⟩ =>
      if fitting : kind = actual then reply = actual.answer tree told (fitting ▸ question)
      else reply = .ok []
  | same a b, reply =>
    reply = .ok ((refs[a]?.bind fun x => refs[b]?.bind x.same?).toList.map .flag)
  | placedAt handle slot, reply =>
    match refs[handle]? with
    | some ⟨.node, path⟩ => tree.FindsSlot path slot reply
    | _ => reply = .ok []
  | placedElement handle index, reply =>
    match refs[handle]? with
    | some ⟨.list, path⟩ => tree.FindsElement path index reply
    | _ => reply = .ok []

/-- The replies that a series of calls may have. -/
def Tree.Admits (tree : Tree) (refs : List Ref) :
    List Call → List (Except Violation (List (Datum Ref))) → Prop
  | [], replies => replies = []
  | _ :: _, [] => False
  | call :: calls, reply :: replies =>
    call.Admits tree refs reply ∧
      Admits tree (refs ++ (reply.toOption.map handlesOf).getD []) calls replies

end LosslessSyntax.Placed
