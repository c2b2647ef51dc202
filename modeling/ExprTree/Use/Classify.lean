import ExprTree.Arena.Spelling
import ExprTree.Arena.Strip
import ExprTree.Use.Read

/-!
# Uses of expressions

A use of an expression needs its value (an rvalue use) or its storage (an lvalue use).  Classifying
a use follows the operands that carry the value or the storage, records the variables that are
read, and changes in place what depends on the use: a location wrapper of a value becomes a
value, a wrapper of an expression gives its location to the expression, and a reference is
dereferenced again when its expression was replaced.

* `UseMode` — what a use needs.
* `Pass.classifyUse` — the classified expression: the same node, one in its place, or the error
  node.
* `Pass.classifyDiscarded` — the use of an expression whose value is discarded.
-/

namespace ExprTree

/-- What a use of an expression needs. -/
structure UseMode where
  /-- Is only the value needed? -/
  rvalue : Bool
  /-- Is the value read? -/
  read : Bool
  /-- Where the use is. -/
  loc : Span
  /-- Is a builtin function that can only be called refused? -/
  rejectBuiltin : Bool
  deriving DecidableEq, Repr

/-- Is the use of an expression with this operator the use of its operand? -/
def UnaryOp.isTransparent : UnaryOp → Bool
  | .nop | .convert | .viewConvert | .nonDependent => true
  | _ => false

/-- Does a node name a function that can only be called, bare or in a location wrapper? -/
def Arena.namesBuiltin (a : Arena) (expr : NodeId) : Except Fault Bool := do
  let target ← a.node (← a.stripWrapper expr)
  return target.kind.isFunction && target.flags.has .builtinOnly

/-- Is this use refused, as the use of a function that can only be called? -/
def Arena.isRejected (a : Arena) (expr : NodeId) (mode : UseMode) : Except Fault Bool :=
  if mode.rejectBuiltin then a.namesBuiltin expr else .ok false

namespace Pass

/-! ### Changes in place -/

/-- Give a node a new kind and the flags that follow from it. -/
def rebuild (expr : NodeId) (kind : NodeKind) : Pass Unit := do
  edit (Arena.setKind expr kind)
  edit (Arena.deriveFlags expr)

/-- Give a node a kind, unless it has it. -/
def replaceKind (expr : NodeId) (kind : NodeKind) : Pass NodeId := do
  if (← query (·.kindOf expr)) ≠ kind then rebuild expr kind
  return expr

/-! ### Classification -/

/-- The use of a location wrapper, under its location.  A declaration or a constant keeps the
wrapper, as a value where only the value is needed; any other expression takes its place and its
location. -/
def classifyWrapper (self : NodeId × UseMode → Pass NodeId) (wrapper operand : NodeId)
    (mode : UseMode) : Pass NodeId := do
  let loc ← query (·.spanOf wrapper)
  let operand ← self (operand, { mode with loc })
  if operand = .error then return .error
  let kind ← query (·.kindOf operand)
  if kind.isDecl || kind.isConstant then
    rebuild wrapper (.unary (if mode.rvalue then .nonLvalue else .viewConvert) operand)
    return wrapper
  else
    when kind.isExpression (edit (Arena.setSpan operand loc))
    return operand

/-- The use of the object behind a reference is a use of the value of the reference. -/
def classifyReference (self : NodeId × UseMode → Pass NodeId) (expr reference : NodeId)
    (mode : UseMode) : Pass NodeId := do
  let value ← self (reference, { mode with rvalue := true, read := true })
  if value = .error then return .error
  if value = reference then return expr
  dereference value

/-- The use of an expression by its kind. -/
def classifyNode (self : NodeId × UseMode → Pass NodeId) (expr : NodeId) (mode : UseMode) :
    Pass NodeId := do
  let n ← query (·.node expr)
  match n.kind with
  | .componentRef object field =>
    let object ← self (object, mode)
    if object = .error then return .error
    replaceKind expr (.componentRef object field)
  | .comma lhs rhs =>
    let loc ← query (·.locationOf expr mode.loc)
    let rhs ← self (rhs, { mode with loc })
    if rhs = .error then return .error
    replaceKind expr (.comma lhs rhs)
  | .cond cond second third =>
    let second ← second.mapM fun second => self (second, mode)
    if second = some .error then return .error
    let third ← self (third, mode)
    if third = .error then return .error
    replaceKind expr (.cond cond second third)
  | .unary .deref reference =>
    if ← query (·.isReference reference) then classifyReference self expr reference mode
    else return expr
  | .unary op operand =>
    if op = .viewConvert ∧ n.isWrapper then classifyWrapper self expr operand mode
    else if op.isTransparent then
      let operand ← self (operand, mode)
      if operand = .error then return .error
      replaceKind expr (.unary op operand)
    else return expr
  | _ => return expr

/-- The error for a builtin function that is used without a call. -/
def rejectBuiltin (expr : NodeId) (loc : Span) : Pass NodeId := do
  let target ← query (·.stripWrapper expr)
  let name ← query (·.spellDecl target)
  error (.builtinNotCalled (loc.orElse (← location expr)) name)
  return .error

/-- One level of `classifyUse`. -/
def classifyUseStep (self : NodeId × UseMode → Pass NodeId) : NodeId × UseMode → Pass NodeId
  | (expr, mode) => do
    if ← query (·.isErroneous expr) then return expr
    if ← query (·.isRejected expr mode) then rejectBuiltin expr mode.loc
    else
      when mode.read (recordRead expr)
      nested (← query (·.spanOf expr)) .error (classifyNode self expr mode)

/-- The classified use of an expression: the same node, one in its place, or the error node. -/
def classifyUse (expr : NodeId) (mode : UseMode) : Pass NodeId :=
  recursively classifyUseStep (expr, mode)

/-- The use of the value of an expression at a location. -/
def rvalueUseAt (expr : NodeId) (loc : Span) (rejectBuiltin : Bool) : Pass NodeId :=
  classifyUse expr ⟨true, true, loc, rejectBuiltin⟩

/-- The use of the value of an expression, which is no builtin function. -/
def rvalueUse (expr : NodeId) : Pass NodeId := rvalueUseAt expr .unknown true

/-- The use of the storage of an expression; `read` says whether the use reads it. -/
def lvalueUse (expr : NodeId) (read : Bool) : Pass NodeId := do
  classifyUse expr ⟨false, read, (← get).inputLocation, false⟩

/-! ### Discarded uses -/

/-- The use of an access or a declaration whose value is discarded. -/
def discardedRvalueUse (expr : NodeId) : Pass NodeId := do
  rvalueUseAt expr (← get).inputLocation false

/-- The use of an expression whose value is discarded, by its kind. -/
def classifyDiscardedNode (self : NodeId → Pass NodeId) (expr : NodeId) : Pass NodeId := do
  match ← query (·.kindOf expr) with
  | .cond cond second third =>
    let third ← self third
    let second ← second.mapM self
    if third = .error ∨ second = some .error then return .error
    rebuild expr (.cond cond second third)
    return expr
  | .comma lhs rhs =>
    let rhs ← self rhs
    if rhs = .error then return .error
    rebuild expr (.comma lhs rhs)
    return expr
  | .componentRef .. | .arrayRef .. | .memberRef .. | .unary .deref _ => discardedRvalueUse expr
  | kind => if kind.isDecl then discardedRvalueUse expr else return expr

/-- One level of `classifyDiscarded`. -/
def classifyDiscardedStep (self : NodeId → Pass NodeId) (expr : NodeId) : Pass NodeId := do
  let expr ← query (·.stripWrapper expr)
  nested (← query (·.spanOf expr)) .error (classifyDiscardedNode self expr)

/-- The use of an expression whose value is discarded.  Location wrappers are dropped, and only
the operands that carry the value are followed; accesses and declarations are used as values. -/
def classifyDiscarded (expr : NodeId) : Pass NodeId := recursively classifyDiscardedStep expr

end Pass

end ExprTree
