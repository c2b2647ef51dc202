import ExprTree.Arena.Query

/-!
# Building nodes

A built node carries the flags that follow from its operands: evaluating it has an effect when its
kind has one, when it accesses a volatile object, or when an operand that is evaluated has an
effect.  Building a node again from the same operands therefore gives the same flags.

* `Arena.derivedFlags` — the flags that follow from kind, type and operands.
* `Arena.deriveFlags` — adds them after a change in place; it never clears a flag.
* `Arena.build` — appends a node with its derived flags.

The builders below it fix a kind, and often the type.
-/

namespace ExprTree

namespace Arena

/-! ### Derived flags -/

/-- Is this an access to an object of volatile type? -/
def accessesVolatile (a : Arena) (n : Node) : Except Fault Bool :=
  match n.type with
  | some type => if n.kind.accessesObject then a.isVolatile type else .ok false
  | none => .ok false

/-- Does an evaluated operand have an effect?  The operands are asked in order, up to the first
that has one. -/
def inheritsEffect (a : Arena) (n : Node) : Except Fault Bool :=
  if n.kind.isUnevaluated then .ok false
  else do (← a.handles n.kind.operands).anyM a.hasEffect

/-- The flags that follow from the kind, the type and the operands of a node. -/
def derivedFlags (a : Arena) (n : Node) : Except Fault NodeFlags := do
  let volatile ← a.accessesVolatile n
  let inherited ← a.inheritsEffect n
  let effect := if n.kind.hasOwnEffect || volatile || inherited then .single .effect else .empty
  return if volatile then effect.union (.single .volatileAccess) else effect

/-- Add the flags that follow from kind, type and operands. -/
def deriveFlags (id : NodeId) : Action Arena Unit := do
  insertFlags id (← Action.ask fun a => do a.derivedFlags (← a.node id))

/-- Append a node with the flags that follow from its operands.  The node is appended before its
operands are asked, so it is there even when one of them is not. -/
def build (kind : NodeKind) (type : Option NodeId) (span : Span) : Action Arena NodeId := do
  let id ← modifyGet (·.alloc kind type span)
  deriveFlags id
  return id

/-- Build a node that has the type of another. -/
def buildLike (other : NodeId) (kind : NodeKind) (span : Span) : Action Arena NodeId := do
  build kind (← Action.ask (·.typeOf other)) span

/-! ### Types -/

/-- Append a type, which has neither a type nor a location. -/
def addType (a : Arena) (kind : NodeKind) : NodeId × Arena := a.alloc kind none .unknown

/-- The type of functions with the given result and parameters. -/
def addFunctionType (a : Arena) (result : NodeId) (params : List NodeId) : NodeId × Arena :=
  let (params, a) := a.allocList params
  a.addType (.functionType result params)

/-- A record type together with the declaration that names it; without a size it is incomplete. -/
def addRecordType (a : Arena) (name : String) (size : Option Nat) (span : Span) :
    NodeId × Arena :=
  let (name, a) := a.intern name
  let decl : NodeId := ⟨a.size + 1⟩
  let (record, a) := a.addType (.recordType (some decl) size none)
  (record, (a.alloc (.decl .typeName (.named name)) (some record) span).2)

/-- Give a record its size; other nodes stay as they are. -/
def completeRecord (record : NodeId) (size : Nat) : Action Arena Unit :=
  update record fun n =>
    match n.kind with
    | .recordType name _ memberFunction =>
      { n with kind := .recordType name (some size) memberFunction }
    | _ => n

/-- A qualified variant of a type: a node of its own with the kind, the flags and the attributes
of the type, and those of the given flags that are qualifiers. -/
def addQualified (type : NodeId) (quals : NodeFlags) : Action Arena NodeId := do
  let n ← Action.ask (·.node type)
  let variant ← modifyGet (·.alloc n.kind none n.span)
  insertFlags variant (n.flags.union (quals.inter .qualifiers))
  modify fun a => (a.attributesOf type).foldl (·.addAttribute variant ·) a
  return variant

/-! ### Declarations and constants -/

/-- A declaration of which only name and type are known. -/
def addDecl (sort : DeclSort) (name : String) (type : NodeId) (span : Span) :
    Action Arena NodeId := do
  let name ← modifyGet (·.intern name)
  build (.decl sort (.named name)) (some type) span

/-- Change the payload of a declaration; nodes without one stay as they are. -/
def updateDecl (id : NodeId) (f : Decl → Decl) : Action Arena Unit :=
  update id fun n => { n with kind := n.kind.mapDecl f }

/-- A constant, which has a type but no location. -/
def addConst (a : Arena) (kind : NodeKind) (type : NodeId) : NodeId × Arena :=
  a.alloc kind (some type) .unknown

/-- A string constant. -/
def addString (a : Arena) (text : String) (type : NodeId) : NodeId × Arena :=
  let (text, a) := a.intern text
  a.addConst (.stringConst text) type

/-! ### Expressions -/

/-- The value of an expression, with its type. -/
def buildNonLvalue (operand : NodeId) (span : Span) : Action Arena NodeId :=
  buildLike operand (.unary .nonLvalue operand) span

/-- Two expressions one after the other, with the type of the second. -/
def buildComma (lhs rhs : NodeId) (span : Span) : Action Arena NodeId :=
  buildLike rhs (.comma lhs rhs) span

/-- An assignment, with the type of its left side. -/
def buildAssignment (lhs rhs : NodeId) (span : Span) : Action Arena NodeId :=
  buildLike lhs (.modify lhs rhs) span

/-- Access to a field, with the type of the field. -/
def buildComponent (object field : NodeId) (span : Span) : Action Arena NodeId :=
  buildLike field (.componentRef object field) span

/-- A temporary object with its initializer, with the type of the object. -/
def buildTarget (slot initial : NodeId) (span : Span) : Action Arena NodeId :=
  buildLike slot (.target slot initial) span

/-- A call with stored arguments. -/
def buildCall (callee : Option NodeId) (args : List NodeId) (type : Option NodeId) (span : Span) :
    Action Arena NodeId := do
  let args ← modifyGet (·.allocList args)
  build (.call callee args) type span

/-- Give a use of a declaration or a constant a location of its own.  A constant is wrapped as a
value, anything else keeps its storage. -/
def buildWrapper (operand : NodeId) (span : Span) : Action Arena NodeId := do
  let kind ← Action.ask (·.kindOf operand)
  let op := if kind.isConstant then UnaryOp.nonLvalue else .viewConvert
  let wrapper ← buildLike operand (.unary op operand) span
  insertFlags wrapper (.single .locationWrapper)
  return wrapper

end Arena

end ExprTree
