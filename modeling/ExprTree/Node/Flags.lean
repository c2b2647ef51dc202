/-!
# Node flags

One word of flags serves expressions, declarations and types.  A flag is a bit of the word; bits
without a flag of their own are carried along unchanged.

* `Flag` — the flags with a meaning, and their bits.
* `NodeFlags` — flag words with union, difference, and the test `has`.
-/

namespace ExprTree

/-- A boolean property of a node. -/
inductive Flag
  /-- Evaluating the node can change the state of the program. -/
  | effect
  /-- The node itself is a volatile access. -/
  | volatileAccess
  /-- The variable or parameter has been read. -/
  | read
  /-- No warning is given for this node. -/
  | noWarning
  /-- No warning about an unused value is given for this node. -/
  | noUnusedValueWarning
  /-- No warning about an ignored result is given for this node. -/
  | noUnusedResultWarning
  /-- A conversion that only carries a location. -/
  | locationWrapper
  /-- A declaration made by the compiler. -/
  | artificial
  /-- A declaration with static storage. -/
  | static
  /-- A constructor written as a compound literal. -/
  | compoundLiteral
  /-- A member function set reached through a qualified name. -/
  | qualified
  /-- A builtin function without a library fallback, which can only be called. -/
  | builtinOnly
  /-- A volatile type. -/
  | volatile
  /-- A constant type. -/
  | const
  /-- A type whose objects must live in memory. -/
  | addressable
  deriving DecidableEq, Repr

namespace Flag

/-- The bit of a flag. -/
def position : Flag → Nat
  | .effect => 0
  | .volatileAccess => 1
  | .read => 2
  | .noWarning => 8
  | .noUnusedValueWarning => 9
  | .noUnusedResultWarning => 10
  | .locationWrapper => 16
  | .artificial => 17
  | .static => 18
  | .compoundLiteral => 19
  | .qualified => 20
  | .builtinOnly => 21
  | .volatile => 24
  | .const => 25
  | .addressable => 26

/-- All flags, from the lowest bit to the highest. -/
def all : List Flag :=
  [.effect, .volatileAccess, .read, .noWarning, .noUnusedValueWarning, .noUnusedResultWarning,
    .locationWrapper, .artificial, .static, .compoundLiteral, .qualified, .builtinOnly, .volatile,
    .const, .addressable]

end Flag

/-- A word of flags. -/
structure NodeFlags where
  /-- The bits, those without a meaning included. -/
  bits : BitVec 32
  deriving DecidableEq, Repr

namespace NodeFlags

/-- No flag. -/
def empty : NodeFlags := ⟨0⟩

/-- One flag. -/
def single (f : Flag) : NodeFlags := ⟨BitVec.twoPow 32 f.position⟩

/-- The bits of either word. -/
def union (a b : NodeFlags) : NodeFlags := ⟨a.bits ||| b.bits⟩

/-- The bits of both words. -/
def inter (a b : NodeFlags) : NodeFlags := ⟨a.bits &&& b.bits⟩

/-- The bits of the first word that are not in the second. -/
def diff (a b : NodeFlags) : NodeFlags := ⟨a.bits &&& ~~~b.bits⟩

/-- Several flags. -/
def ofList (fs : List Flag) : NodeFlags :=
  fs.foldr (fun f flags => (single f).union flags) empty

/-- Is a flag set? -/
def has (a : NodeFlags) (f : Flag) : Bool := a.bits.getLsbD f.position

/-- Do two words share a bit? -/
def intersects (a b : NodeFlags) : Bool := (a.inter b).bits != 0

/-- All flags that suppress a warning. -/
def suppression : NodeFlags :=
  ofList [.noWarning, .noUnusedValueWarning, .noUnusedResultWarning]

/-- The flags that qualify a type. -/
def qualifiers : NodeFlags := ofList [.volatile, .const]

/-! ### The view `has` -/

theorem position_lt (f : Flag) : f.position < 32 := by
  cases f <;> decide

theorem position_injective {f g : Flag} (h : f.position = g.position) : f = g := by
  revert h
  cases f <;> cases g <;> decide

@[simp] theorem has_empty (f : Flag) : empty.has f = false := by
  simp [empty, has]

@[simp] theorem has_single (f g : Flag) : (single f).has g = decide (f = g) := by
  have hf := position_lt f
  by_cases h : f = g
  · subst h; simp [single, has, hf]
  · have : f.position ≠ g.position := fun e => h (position_injective e)
    simp [single, has, BitVec.getLsbD_twoPow, this, h]

@[simp] theorem has_union (a b : NodeFlags) (f : Flag) :
    (a.union b).has f = (a.has f || b.has f) := by
  simp [union, has]

@[simp] theorem has_inter (a b : NodeFlags) (f : Flag) :
    (a.inter b).has f = (a.has f && b.has f) := by
  simp [inter, has]

@[simp] theorem has_diff (a b : NodeFlags) (f : Flag) :
    (a.diff b).has f = (a.has f && !b.has f) := by
  have hf := position_lt f
  simp [diff, has, hf]

/-! ### Unions -/

theorem union_assoc (a b c : NodeFlags) : (a.union b).union c = a.union (b.union c) := by
  simp only [union, BitVec.or_assoc]

theorem union_empty (a : NodeFlags) : a.union empty = a := by
  simp [union, empty]

/-- A flag that is set can be set again. -/
theorem union_single_of_has {a : NodeFlags} {f : Flag} (h : a.has f = true) :
    a.union (single f) = a := by
  obtain ⟨bits⟩ := a
  refine congrArg NodeFlags.mk (BitVec.eq_of_getLsbD_eq fun i hi => ?_)
  rw [BitVec.getLsbD_or, single, BitVec.getLsbD_twoPow]
  by_cases hf : f.position = i
  · subst hf
    simpa [has, hi] using h
  · simp [hf]

theorem union_diff (a b c : NodeFlags) : (a.union b).diff c = (a.diff c).union (b.diff c) := by
  simp only [union, diff, mk.injEq]
  exact BitVec.and_or_distrib_right

theorem union_diff_self (a b : NodeFlags) : (a.union b).diff b = a.diff b := by
  rw [union_diff]
  simp [union, diff]

end NodeFlags

end ExprTree
