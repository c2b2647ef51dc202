import ExprTree.Arena.Query

/-!
# Looking through conversions

* `Arena.stripWrapper` — the operand of a location wrapper.
* `Arena.stripConversions` — what is left below all conversions that change nothing.
* `Arena.calledFunction?` — the function that a callee names.
-/

namespace ExprTree

/-- The operand of a conversion that keeps the representation of its value.  A view under another
type is one only as a location wrapper. -/
def Node.converted? (n : Node) : Option NodeId :=
  match n.kind with
  | .unary .nop operand | .unary .convert operand | .unary .nonLvalue operand => some operand
  | _ => n.wrapped?

namespace Arena

/-- Is this a location wrapper? -/
def isWrapper (a : Arena) (expr : NodeId) : Except Fault Bool := (a.node expr).map Node.isWrapper

/-- The expression without its location wrapper, if it has one. -/
def stripWrapper (a : Arena) (expr : NodeId) : Except Fault NodeId :=
  (a.node expr).map fun n => n.wrapped?.getD expr

/-- What is left below at most `fuel` conversions. -/
def stripConversionsWithin (a : Arena) : Nat → NodeId → Except Fault NodeId
  | 0, _ => .error .endless
  | fuel + 1, expr => do
    match (← a.node expr).converted? with
    | some operand => a.stripConversionsWithin fuel operand
    | none => return expr

/-- What is left below all conversions that change nothing. -/
def stripConversions (a : Arena) (expr : NodeId) : Except Fault NodeId :=
  a.stripConversionsWithin (a.size + 1) expr

/-- A function declaration, and nothing for other nodes. -/
def asFunction? (a : Arena) (id : NodeId) : Except Fault (Option NodeId) :=
  (a.kindOf id).map fun kind => if kind.isFunction then some id else none

/-- The function that a callee names by its form: itself, or for a pointer or a reference what is
left below conversions and then at most one address-of.  A callee that is computed has none. -/
def calledFunction? (a : Arena) (callee : NodeId) : Except Fault (Option NodeId) := do
  if (← a.kindOf callee).isFunction then return some callee
  match ← a.typeOf callee with
  | none => return none
  | some type =>
    if ← a.isIndirectType type then
      let core ← a.stripConversions callee
      match ← a.kindOf core with
      | .unary .addressOf operand => a.asFunction? operand
      | _ => a.asFunction? core
    else return none

end Arena

end ExprTree
