import ExprTree.Context
import ExprTree.Arena.Build

/-!
# Variables that are read

Reading an expression reads the variable or parameter that it designates.  The designated objects
are found through accesses, conversions, the value of a comma and the branches of a conditional.

* `Node.readOperands` — the operands that are read along with a node.
* `Pass.recordRead` — marks every variable that an expression reads.
* `Pass.dereference` — the object behind a value of reference type.
-/

namespace ExprTree

/-- Does reading an expression with this operator read its operand? -/
def UnaryOp.readsOperand : UnaryOp → Bool
  | .realPart | .imagPart | .nop | .convert | .viewConvert | .float | .nonDependent | .addressOf
  | .deref => true
  | .nonLvalue | .declare | .sizeof | .alignof | .noexcept => false

/-- The operands that are read along with a node.  The value of an expression is read through only
where it is a location wrapper. -/
def Node.readOperands (n : Node) : List NodeId :=
  match n.kind with
  | .arrayRef base _ => [base]
  | .componentRef object _ => [object]
  | .modify lhs _ => [lhs]
  | .unary .nonLvalue _ => n.wrapped?.toList
  | .unary op operand => if op.readsOperand then [operand] else []
  | .comma _ rhs => [rhs]
  | .cond _ second third => second.toList ++ [third]
  | _ => []

namespace Pass

/-- One level of `recordRead`. -/
def recordReadStep (self : NodeId → Pass Unit) (expr : NodeId) : Pass Unit := do
  nested (← query (·.spanOf expr)) () do
    let n ← query (·.node expr)
    if n.kind.isVariable then edit (Arena.insertFlags expr (.single .read))
    else n.readOperands.forM self

/-- Mark the variables and parameters that an expression designates as read. -/
def recordRead (expr : NodeId) : Pass Unit := recursively recordReadStep expr

/-- The object behind a value of reference type; other values are returned as they are. -/
def dereference (value : NodeId) : Pass NodeId := do
  let some type ← query (·.typeOf value) | return value
  match ← query (·.kindOf type) with
  | .referenceType target =>
    recordRead value
    let span ← query (·.spanOf value)
    edit (Arena.build (.unary .deref value) (some target) span)
  | _ => return value

end Pass

end ExprTree
