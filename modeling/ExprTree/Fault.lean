/-!
# Faults

An operation that is handed something outside its domain (a handle from another arena, an
inverted span, a severity that does not fit) answers with a *fault*.

* `Fault` — the causes.
-/

namespace ExprTree

/-- Why an operation had no answer. -/
inductive Fault
  /-- A node handle or an operand list lies outside the arena. -/
  | outOfBounds
  /-- A sum or a difference of 32-bit words leaves their range. -/
  | overflow
  /-- A diagnostic was reported under another severity than its own. -/
  | wrongSeverity
  /-- A level of recursion was left that had not been entered. -/
  | unbalancedExit
  /-- A chain of types, names or conversions leads back into itself, or a walk raises its own limit
  again and again. -/
  | endless
  deriving DecidableEq, Repr

end ExprTree
