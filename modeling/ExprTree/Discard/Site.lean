/-!
# Where values are discarded

A discarded expression is either cast to void on purpose, or stands where its value is not used.
Warnings name that place; for a cast they say instead that the conversion does nothing.

* `DiscardSite` — the places.
* `DiscardSite.position?` — how a place is named in a warning.
* `DiscardSite.incompleteTarget` and the other messages of warnings.
-/

namespace ExprTree

/-- Where a value is discarded. -/
inductive DiscardSite
  /-- An explicit cast to void. -/
  | cast
  | secondOfCond
  | thirdOfCond
  | rightOfComma
  | leftOfComma
  /-- An expression that is a statement. -/
  | statement
  /-- The increment of a loop. -/
  | thirdInFor
  deriving DecidableEq, Repr

namespace DiscardSite

/-- All places, the cast first. -/
def all : List DiscardSite :=
  [.cast, .secondOfCond, .thirdOfCond, .rightOfComma, .leftOfComma, .statement, .thirdInFor]

/-- The name of a place; a cast needs none. -/
def position? : DiscardSite → Option String
  | .cast => none
  | .secondOfCond => some "second operand of conditional expression"
  | .thirdOfCond => some "third operand of conditional expression"
  | .rightOfComma => some "right operand of comma operator"
  | .leftOfComma => some "left operand of comma operator"
  | .statement => some "statement"
  | .thirdInFor => some "for increment expression"

/-- A place or a cast, in words. -/
def text (site : DiscardSite) : String := site.position?.getD "cast to void"

/-- The word for a place. -/
def word : DiscardSite → String
  | .cast => "cast"
  | .secondOfCond => "second_of_cond"
  | .thirdOfCond => "third_of_cond"
  | .rightOfComma => "right_of_comma"
  | .leftOfComma => "left_of_comma"
  | .statement => "statement"
  | .thirdInFor => "third_in_for"

/-! ### Messages -/

/-- A volatile object behind an indirection has incomplete type. -/
def incompleteTarget (site : DiscardSite) (type : String) : String :=
  match site.position? with
  | none => s!"conversion to void will not access object of incomplete type `{type}`"
  | some place => s!"indirection will not access object of incomplete type `{type}` in {place}"

/-- A volatile object is behind a reference. -/
def untouchedReference (site : DiscardSite) (type : String) : String :=
  match site.position? with
  | none => s!"conversion to void will not access object of type `{type}`"
  | some place => s!"implicit dereference will not access object of type `{type}` in {place}"

/-- A volatile object behind an indirection must live in memory. -/
def addressableTarget (site : DiscardSite) (type : String) : String :=
  match site.position? with
  | none => s!"conversion to void will not access object of non-trivially-copyable type `{type}`"
  | some place =>
    s!"indirection will not access object of non-trivially-copyable type `{type}` in {place}"

/-- A volatile variable has incomplete type. -/
def incompleteVariable (site : DiscardSite) (var type : String) : String :=
  match site.position? with
  | none =>
    s!"conversion to void will not access object `{var}` of incomplete type `{type}`"
  | some place =>
    s!"variable `{var}` of incomplete type `{type}` will not be accessed in {place}"

/-- A value is computed for nothing. -/
def unusedValue : String := "value computed is not used"

end DiscardSite

end ExprTree
