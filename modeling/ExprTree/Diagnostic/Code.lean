/-!
# Diagnostic codes

A code is a letter for its severity and four digits, of which the first names the area: `E2` for
errors of use, `E9` for limits, `W1` for discarded values.  Warnings come in three categories that
are enabled one by one.

* `Code` — the reasons for a diagnostic, with their texts (`Code.text`, `Code.ofText?`).
* `Category` — the groups in which warnings are enabled.
* `WarningSet` — a choice of categories.
-/

namespace ExprTree

/-- The categories in which warnings are enabled. -/
inductive Category
  /-- Volatile objects that cannot be accessed. -/
  | inaccessible
  /-- Values that are computed for nothing. -/
  | unusedValue
  /-- Results that must not be ignored. -/
  | unusedResult
  deriving DecidableEq, Repr

namespace Category

/-- The bit of a category. -/
def position : Category → Nat
  | .inaccessible => 0
  | .unusedValue => 1
  | .unusedResult => 2

/-- The word for a category. -/
def word : Category → String
  | .inaccessible => "default"
  | .unusedValue => "unused_value"
  | .unusedResult => "unused_result"

/-- All categories. -/
def all : List Category := [.inaccessible, .unusedValue, .unusedResult]

end Category

/-- A choice of warning categories; bits without a category mean nothing. -/
structure WarningSet where
  bits : BitVec 8
  deriving DecidableEq, Repr

namespace WarningSet

/-- No category. -/
def none : WarningSet := ⟨0⟩

/-- One category. -/
def single (c : Category) : WarningSet := ⟨BitVec.twoPow 8 c.position⟩

/-- Every category. -/
def all : WarningSet := ⟨Category.all.foldr (fun c bits => (single c).bits ||| bits) 0⟩

/-- Is a category chosen? -/
def has (s : WarningSet) (c : Category) : Bool := s.bits.getLsbD c.position

@[simp] theorem has_all (c : Category) : all.has c = true := by
  cases c <;> decide

@[simp] theorem has_none (c : Category) : none.has c = false := by
  simp [none, has]

end WarningSet

/-- The reason for a diagnostic. -/
inductive Code
  /-- A builtin function is used other than in a call. -/
  | uncalledBuiltin
  /-- An expression is nested deeper than the limit. -/
  | tooDeep
  /-- An indirection does not access its object, whose type is incomplete. -/
  | incompleteTarget
  /-- A reference is followed without an access to its object. -/
  | untouchedReference
  /-- An indirection does not access its object, which must live in memory. -/
  | addressableTarget
  /-- A variable of incomplete type is not accessed. -/
  | incompleteVariable
  /-- A computed value is not used. -/
  | unusedValue
  /-- A result that must be used is ignored. -/
  | ignoredResult
  deriving DecidableEq, Repr

namespace Code

/-- All codes, errors first. -/
def all : List Code :=
  [.uncalledBuiltin, .tooDeep, .incompleteTarget, .untouchedReference, .addressableTarget,
    .incompleteVariable, .unusedValue, .ignoredResult]

/-- The text of a code. -/
def text : Code → String
  | .uncalledBuiltin => "E2001"
  | .tooDeep => "E9001"
  | .incompleteTarget => "W1001"
  | .untouchedReference => "W1002"
  | .addressableTarget => "W1003"
  | .incompleteVariable => "W1004"
  | .unusedValue => "W1005"
  | .ignoredResult => "W1006"

/-- The code with a given text. -/
def ofText? (s : String) : Option Code := all.find? (·.text == s)

/-- The category of a warning; errors have none. -/
def category? : Code → Option Category
  | .uncalledBuiltin | .tooDeep => none
  | .incompleteTarget | .untouchedReference | .addressableTarget | .incompleteVariable =>
    some .inaccessible
  | .unusedValue => some .unusedValue
  | .ignoredResult => some .unusedResult

/-- Is this the code of a warning? -/
def isWarning (c : Code) : Bool := c.category?.isSome

/-- Does this code report that a limit was reached? -/
def isLimit : Code → Bool
  | .tooDeep => true
  | _ => false

end Code

end ExprTree
