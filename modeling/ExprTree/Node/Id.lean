import ExprTree.Fault

/-!
# Node handles

Nodes live in an arena and are addressed by their position in it.  Identity is equality of
handles: two nodes of the same structure are still two nodes.

* `NodeId` — the handle of a node, with the handles that mean the same in every arena.
* `NodeSlice` — the handle of a stored operand list.
-/

namespace ExprTree

/-- The position of a node in its arena. -/
structure NodeId where
  /-- Position of the node. -/
  index : Nat
  deriving DecidableEq, Repr

namespace NodeId

/-- The error node.  A tree that contains it has been diagnosed already. -/
def error : NodeId := ⟨0⟩

/-- The void value: what is left of an expression that has nothing to evaluate. -/
def void : NodeId := ⟨1⟩

/-- The type `void`. -/
def voidType : NodeId := ⟨2⟩

/-- The type `bool`. -/
def boolType : NodeId := ⟨3⟩

/-- The signed 32-bit integer type. -/
def intType : NodeId := ⟨4⟩

/-- The unsigned integer type as wide as a pointer, in which offsets are computed. -/
def sizeType : NodeId := ⟨5⟩

/-- Is this the error node? -/
def isError (id : NodeId) : Bool := id == error

/-- A handle as it stands in debug output. -/
def render (id : NodeId) : String :=
  if id = error then "NodeId::ERROR"
  else if id = void then "NodeId::VOID"
  else s!"NodeId({id.index})"

end NodeId

/-- A run of handles in the operand lists of an arena. -/
structure NodeSlice where
  /-- Position of the first handle. -/
  start : Nat
  /-- Number of handles. -/
  length : Nat
  deriving DecidableEq, Repr

namespace NodeSlice

/-- The empty operand list. -/
def empty : NodeSlice := ⟨0, 0⟩

/-- Does the slice hold no handle? -/
def isEmpty (r : NodeSlice) : Bool := r.length == 0

/-- The position behind the last handle. -/
def stop (r : NodeSlice) : Nat := r.start + r.length

/-- The largest position that is a 32-bit number. -/
def maxPosition : Nat := 0xFFFFFFFF

/-- A slice as it stands in debug output, which fails when its end is no 32-bit position. -/
def render (r : NodeSlice) : Except Fault String :=
  if r.stop ≤ maxPosition then .ok s!"NodeRange({r.start}..{r.stop})" else .error .overflow

end NodeSlice

end ExprTree
