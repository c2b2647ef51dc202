import ExprTree.Arena.Spelling
import ExprTree.Arena.Strip
import ExprTree.Context
import ExprTree.Discard.Escape
import ExprTree.Discard.Site

/-!
# Ignored results

The result of a call must be used when the called function is declared so, or else when the type
of the result is.  Both carry the attribute `nodiscard`, whose first argument is a reason.

* `Arena.callResult?` — the type of what a callee returns.
* `Arena.nodiscardReason?` — the reason of a declaration or a type.
* `Arena.mustUse?` — who says that a result must be used.
* `Pass.warnIgnored` — the warning for a call whose result is discarded.
-/

namespace ExprTree

namespace Arena

/-- The attribute of functions and types whose results must be used. -/
def nodiscard : String := "nodiscard"

/-- The end of a warning about a declaration or a type that must be used: the quoted reason, or
nothing when there is none. -/
def nodiscardReason? (a : Arena) (id : NodeId) : Option String :=
  (a.attribute? id nodiscard).map fun attr =>
    match attr.firstArg? with
    | some reason => ": \"" ++ Escape.encode (a.nameText reason) ++ "\""
    | none => ""

/-- Who says that a result must be used, with the end of the warning. -/
inductive MustUse
  /-- The called function. -/
  | function (id : NodeId) (reason : String)
  /-- The type of the result. -/
  | type (reason : String)
  deriving DecidableEq, Repr

/-- Must a result be used?  What the called function says comes before what the type says. -/
def mustUse? (a : Arena) (function : Option NodeId) (result : NodeId) : Option MustUse :=
  (function.bind fun f => (a.nodiscardReason? f).map (.function f)).or
    ((a.nodiscardReason? result).map .type)

/-- The call that a discarded expression evaluates: the initializer of a temporary, or the
expression itself. -/
def discardedCall (a : Arena) (expr : NodeId) : Except Fault NodeId :=
  (a.kindOf expr).map fun | .target _ initial => initial | _ => expr

/-- The type of what a callee returns.  A callee is a function, or a pointer or a reference to
one. -/
def callResult? (a : Arena) (callee : NodeId) : Except Fault (Option NodeId) := do
  let some type ← a.typeOf callee | return none
  a.resultType? ((← a.indirectTarget? type).getD type)

end Arena

namespace Pass

/-- Say where a node is that explains the last warning. -/
def noteAt (id : NodeId) (message : String) : Pass Unit := do
  discard (note (← query (·.spanOf id)) message)

/-- Warn that the result of a function that must be used is ignored. -/
def warnIgnoredFunction (loc : Span) (function : NodeId) (reason : String) : Pass Unit := do
  let name ← query (·.spellDecl function)
  let message := s!"ignoring return value of `{name}`, that must be used{reason}"
  let accepted ← warn .ignoredResult loc message
  when accepted (noteAt function "declared here")

/-- Say which function returned an ignored result, if it is known. -/
def noteFunction : Option NodeId → Pass Unit
  | some function => do
    let name ← query (·.spellDecl function)
    noteAt function s!"in call to `{name}`, declared here"
  | none => pure ()

/-- Say where the type of an ignored result is declared, if it has a declaration. -/
def noteType (type : NodeId) (spelled : String) : Pass Unit := do
  match ← query (·.nameDecl? type) with
  | some decl => noteAt decl s!"`{spelled}` declared here"
  | none => pure ()

/-- Warn that a result whose type must be used is ignored. -/
def warnIgnoredType (loc : Span) (function : Option NodeId) (type : NodeId) (reason : String) :
    Pass Unit := do
  let spelled ← query (·.spellType type)
  let message := s!"ignoring returned value of type `{spelled}`, that must be used{reason}"
  let accepted ← warn .ignoredResult loc message
  when accepted do
    noteFunction function
    noteType type spelled

/-- Warn that a call ignores what it returns, if that must be used. -/
def warnIgnoredCall (call callee result : NodeId) : Pass Unit := do
  let function ← query (·.calledFunction? callee)
  let loc ← location call
  match ← query fun a => .ok (a.mustUse? function result) with
  | some (.function function reason) => warnIgnoredFunction loc function reason
  | some (.type reason) => warnIgnoredType loc function result reason
  | none => pure ()

/-- Warn about a call whose result is discarded, if it must be used.  The expression is the call,
or a temporary that the call initializes.  An explicit cast needs no warning. -/
def warnIgnored (expr : NodeId) (site : DiscardSite) : Pass Unit := do
  let call ← query (·.discardedCall expr)
  match ← query (·.kindOf call) with
  | .call (some callee) _ =>
    match ← query (·.callResult? callee) with
    | some result => when (site != .cast) (warnIgnoredCall call callee result)
    | none => pure ()
  | _ => pure ()

end Pass

end ExprTree
