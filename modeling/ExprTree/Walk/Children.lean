import ExprTree.Arena.Query

/-!
# Children of nodes

A walk reaches more of a node than its operands.  Some kinds have children of the language: the
types named by casts, the parts of templates and coroutines, the initializers of the compiler's own
variables.  A few of these stand in place of the operands, and the operand of `sizeof` and its like
is a child that is never evaluated.

* `Child` — a child and whether it is evaluated.
* `Arena.languageChildren?` — the children of the language, and whether they replace the operands.
* `Arena.genericChildren` — the operands of an expression, the component types of a type.
-/

namespace ExprTree

/-- A node below another. -/
structure Child where
  node : NodeId
  /-- Is the child below an operand that is never evaluated? -/
  unevaluated : Bool
  deriving DecidableEq, Repr

/-- The children of the language of a node. -/
structure LanguageChildren where
  /-- The children in the order in which they are walked. -/
  children : List Child
  /-- Do they stand in place of the operands? -/
  replaceOperands : Bool
  deriving DecidableEq, Repr

namespace LanguageChildren

/-- Evaluated children before the operands. -/
def before (nodes : List NodeId) : LanguageChildren := ⟨nodes.map fun n => ⟨n, false⟩, false⟩

/-- Evaluated children in place of the operands. -/
def only (nodes : List NodeId) : LanguageChildren := ⟨nodes.map fun n => ⟨n, false⟩, true⟩

/-- One child in place of the operands, which is never evaluated. -/
def unevaluated (node : NodeId) : LanguageChildren := ⟨[⟨node, true⟩], true⟩

end LanguageChildren

namespace Arena

/-- The parts of a variable that the compiler made for itself.  Other declarations are walked where
they stand. -/
def temporaryParts (a : Arena) (decl : NodeId) : Except Fault (List NodeId) :=
  (a.node decl).map fun n =>
    match n.kind with
    | .decl .var payload =>
      if n.flags.has .artificial && !n.flags.has .static then
        payload.initial.toList ++ payload.size.toList ++ payload.sizeUnit.toList
      else []
    | _ => []

/-- What a coroutine leaves with: an operand of type `void` itself, and else the call that hands
its value over. -/
def returnedParts (a : Arena) (expr : NodeId) (call : Option NodeId) :
    Except Fault (List NodeId) := do
  let void ← match ← a.typeOf expr with
    | some type => a.isVoidType type
    | none => pure false
  return if void then [expr] else call.toList

/-- The children of the language of a node; nothing for kinds that have none. -/
def languageChildren? (a : Arena) (id : NodeId) : Except Fault (Option LanguageChildren) := do
  let n ← a.node id
  match n.kind with
  | .deferredParse | .typeofType _ | .underlyingType _ => return some (.only [])
  | .typenameType scope fullName => return some (.only (scope.toList ++ [fullName]))
  | .baselink access functions =>
    let access := if n.flags.has .qualified then access.toList else []
    return some (.only (access ++ [functions]))
  | .memberConst _ => return some (.only n.type.toList)
  | .listCell purpose _ _ => return some (.before purpose.toList)
  | .overload function next => return some (.only (function :: next.toList))
  | .usingDecl name scope decls => return some (.only (name :: (scope.toList ++ decls.toList)))
  | .recordType _ _ memberFunction => return some (.before memberFunction.toList)
  | .typePack args | .valuePack args => return some (.before (← a.list args))
  | .typeExpansion pattern extra | .valueExpansion pattern extra =>
    return some (.only (pattern :: extra.toList))
  | .cast .. => return some (.before n.type.toList)
  | .constructor _ =>
    return some (.before (if n.flags.has .compoundLiteral then n.type.toList else []))
  | .decltypeType expr => return some (.unevaluated expr)
  | .unary .alignof operand | .unary .sizeof operand | .unary .noexcept operand =>
    return some (.unevaluated operand)
  | .requires _ requirements => return some (.unevaluated requirements)
  | .unary .declare decl => return some (.before (← a.temporaryParts decl))
  | .coAwait _ frame initializer => return some (.before (frame.toList ++ initializer.toList))
  | .coReturn (some expr) call => return some (.before (← a.returnedParts expr call))
  | .coReturn none _ => return some (.before [])
  | .staticAssert condition message => return some (.before (condition :: message.toList))
  | _ => return none

/-- The children that every walk reaches: the operands of an expression.  The component types of a
type are reached only by a walk that knows where it has been, since types can contain themselves. -/
def genericChildren (a : Arena) (isType components : Bool) (id : NodeId) :
    Except Fault (List NodeId) :=
  if isType then if components then a.typeFields id else .ok []
  else a.operands id

end Arena

end ExprTree
