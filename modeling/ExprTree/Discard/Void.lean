import ExprTree.Discard.Ignored
import ExprTree.Use.Classify

/-!
# Discarded values

An expression whose value is discarded is reduced to the effects that still have to happen.  A
dereference without effect gives way to its operand; conditionals and commas are reduced branch by
branch; and what is left without an effect becomes the void value.  Volatile accesses that cannot
be performed are reported, in words that name the place of the expression.

* `Pass.toVoid` — the reduced expression.
-/

namespace ExprTree

namespace Pass

/-- Discard the value of a volatile access to an object of the given type: say why the access is
not performed, if it is not. -/
def warnVolatile (site : DiscardSite) (loc : Span) (reference : Bool) (type : NodeId) :
    Pass Unit := do
  let spelled ← query (·.spellType type)
  if !(← query (·.isComplete type)) then
    discard (warn .incompleteTarget loc (site.incompleteTarget spelled))
  else if reference then
    discard (warn .untouchedReference loc (site.untouchedReference spelled))
  else if ← query (·.isAddressable type) then
    discard (warn .addressableTarget loc (site.addressableTarget spelled))

/-- Say that the value behind a pointer is computed for nothing, unless it is meant to be. -/
def warnUnusedValue (site : DiscardSite) (loc : Span) (reference : Bool) (expr : NodeId) :
    Pass Unit := do
  if site ≠ .cast && !reference && !(← get).inUnevaluated then
    if !(← query (·.suppresses expr (.single .noUnusedValueWarning))) then
      discard (warn .unusedValue loc DiscardSite.unusedValue)

/-- Discard the value of a dereference.  A volatile access stays; any other gives way to the
pointer. -/
def voidDeref (expr pointer type : NodeId) (loc : Span) (site : DiscardSite) : Pass NodeId := do
  let reference ← query (·.isReference pointer)
  if ← query (·.isVolatile type) then
    warnVolatile site loc reference type
    return expr
  else
    warnUnusedValue site loc reference expr
    when (← query (·.kindOf pointer)).isCall (warnIgnored pointer site)
    return pointer

/-- Discard the value of a conditional: both branches are reduced.  The place of the branches is
named only when neither has an effect, so that a branch with an effect speaks for both. -/
def voidCond (self : NodeId × DiscardSite → Pass NodeId) (expr cond : NodeId)
    (second : Option NodeId) (third : NodeId) (loc : Span) (site : DiscardSite) :
    Pass (Option NodeId) := do
  let effect ← query fun a => (second.toList ++ [third]).anyM a.hasEffect
  let named := site ≠ .cast && !effect
  let newSecond ← second.mapM fun op => self (op, if named then .secondOfCond else .cast)
  let newThird ← self (third, if named then .thirdOfCond else .cast)
  if newSecond = some .error ∨ newThird = .error then return none
  if newSecond = second ∧ newThird = third then return some expr
  some <$> edit (Arena.buildLike newThird (.cond cond newSecond newThird) loc)

/-- Discard the value of a comma: its right operand is reduced. -/
def voidComma (self : NodeId × DiscardSite → Pass NodeId) (expr lhs rhs : NodeId) (loc : Span)
    (site : DiscardSite) : Pass (Option NodeId) := do
  let named := site ≠ .cast && !(← query (·.suppressesAny expr))
  let newRhs ← self (rhs, if named then .rightOfComma else .cast)
  if newRhs = .error then return none
  if newRhs = rhs then return some expr
  some <$> edit (Arena.buildComma lhs newRhs loc)

/-- Discard the value of a variable: say so when the access to a volatile one is not performed. -/
def warnVariable (name : Name) (type : NodeId) (loc : Span) (site : DiscardSite) : Pass Unit := do
  if ← query (·.isVolatile type) then
    if !(← query (·.isComplete type)) then
      let spelled ← query (·.spellType type)
      let var := (← get).arena.nameText name
      discard (warn .incompleteVariable loc (site.incompleteVariable var spelled))

/-- What is left of an expression of a type that is not void, by its kind; nothing when a part of
it is erroneous. -/
def voidByKind (self : NodeId × DiscardSite → Pass NodeId) (expr type : NodeId) (loc : Span)
    (site : DiscardSite) : Pass (Option NodeId) := do
  match ← query (·.kindOf expr) with
  | .cond cond second third => voidCond self expr cond second third loc site
  | .comma lhs rhs => voidComma self expr lhs rhs loc site
  | .unary .deref pointer => some <$> voidDeref expr pointer type loc site
  | .call .. | .target .. =>
    warnIgnored expr site
    return some expr
  | .decl .var payload =>
    warnVariable payload.name type loc site
    return some expr
  | _ => return some expr

/-- An expression with an effect, or the void value. -/
def collapse (expr : NodeId) : Pass NodeId := do
  return if ← query (·.hasEffect expr) then expr else .void

/-- The reduction of an expression at its location. -/
def voidNode (self : NodeId × DiscardSite → Pass NodeId) (expr : NodeId) (loc : Span)
    (site : DiscardSite) : Pass NodeId := do
  let expr ← classifyDiscarded expr
  if ← query (·.isErroneous expr) then return .error
  when (site == .cast) (recordRead expr)
  let some type ← query (·.typeOf expr) | return expr
  if ← query (·.isVoidType type) then return expr
  match ← voidByKind self expr type loc site with
  | some expr => collapse expr
  | none => return .error

/-- One level of `toVoid`.  The location is taken before a location wrapper is dropped. -/
def toVoidStep (self : NodeId × DiscardSite → Pass NodeId) : NodeId × DiscardSite → Pass NodeId
  | (expr, site) => do
    if ← query (·.isErroneous expr) then return .error
    let loc ← location expr
    nested loc .error (voidNode self expr loc site)

/-- What is left of an expression whose value is discarded: the error node for an erroneous one,
the expression itself when it has no type or is void, the void value when nothing has to be
evaluated, and else the expression or one with the same effects. -/
def toVoid (expr : NodeId) (site : DiscardSite) : Pass NodeId :=
  recursively toVoidStep (expr, site)

end Pass

end ExprTree
