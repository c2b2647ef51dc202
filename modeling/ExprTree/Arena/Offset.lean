import ExprTree.Arena.Build

/-!
# Pointer offsets

The address of an element is the pointer plus the index times the size of an element, computed
modulo `2 ^ 64`.  Constants are folded on the way: a constant index gives a constant offset, and an
offset of zero gives the pointer itself.

* `Arena.stride?` — the size of the elements behind a pointer, where it is known.
* `Arena.offsetPointer` — the expression for the address of an element.
-/

namespace ExprTree

namespace Arena

/-- The largest size of an element: the largest signed 64-bit number. -/
def maxStride : Nat := 0x7FFFFFFFFFFFFFFF

/-- The number of bytes from one element to the next behind a pointer or a reference.  There is
none for an erroneous type, for a type that is no pointer, and for elements whose size is unknown
or no signed 64-bit number. -/
def stride? (a : Arena) (base : NodeId) : Except Fault (Option Int64) := do
  let some pointer ← a.typeOf base | return none
  if pointer = .error then return none
  let some element ← a.indirectTarget? pointer | return none
  if element = .error then return none
  let some size ← a.sizeInBytes element | return none
  return if size ≤ maxStride then some (Int64.ofNat size) else none

/-- An expression as a value of a type: itself where it has the type, a constant of the type for a
constant, and else a conversion. -/
def foldConvert (expr type : NodeId) (loc : Span) : Action Arena NodeId := do
  let n ← Action.ask (·.node expr)
  if n.type = some type then return expr
  match n.kind with
  | .intConst value => modifyGet (·.addConst (.intConst value) type)
  | _ => build (.unary .convert expr) (some type) loc

/-- An expression times a constant: itself for the factor one, a constant for a constant, and else
a product. -/
def foldMult (expr : NodeId) (factor : Int64) (type : NodeId) (loc : Span) :
    Action Arena NodeId := do
  if factor = 1 then return expr
  match ← Action.ask (·.kindOf expr) with
  | .intConst value => modifyGet (·.addConst (.intConst (value * factor)) type)
  | _ =>
    let factor ← modifyGet (·.addConst (.intConst factor) type)
    build (.binary .mult expr factor) (some type) loc

/-- The address of the element `index` behind the pointer `base`, or the error node where one of
them is erroneous or the size of an element is unknown. -/
def offsetPointer (base index : NodeId) (loc : Span) : Action Arena NodeId := do
  if base = .error ∨ index = .error then return .error
  match ← Action.ask (·.stride? base) with
  | none => return .error
  | some stride =>
    let index ← foldConvert index .sizeType loc
    let offset ← foldMult index stride .sizeType loc
    if (← Action.ask (·.kindOf offset)) = .intConst 0 then return base
    buildLike base (.binary .pointerPlus base offset) loc

end Arena

end ExprTree
