import ExprTree.Arena.Basic

/-!
# Questions about types and declarations

* `Arena.isErroneous` — the node has been diagnosed, or its type has.
* `Arena.isComplete`, `Arena.sizeInBytes` — what is known about the objects of a type.
* `Arena.indirectTarget?`, `Arena.resultType?` — what a type is made from.
* `Arena.suppresses` — whether a warning has been switched off for a node.
-/

namespace ExprTree

namespace Arena

/-! ### Erroneous nodes -/

/-- Is this the error node, or a node whose type is the error node? -/
def isErroneous (a : Arena) (id : NodeId) : Except Fault Bool :=
  if id = .error then .ok true else (a.typeOf id).map (· == some .error)

/-! ### Types -/

/-- Is this the type `void`, or a qualified variant of it? -/
def isVoidType (a : Arena) (type : NodeId) : Except Fault Bool :=
  (a.kindOf type).map (· == .voidType)

/-- Is this a volatile type? -/
def isVolatile (a : Arena) (type : NodeId) : Except Fault Bool := a.hasFlag type .volatile

/-- Must the objects of this type live in memory? -/
def isAddressable (a : Arena) (type : NodeId) : Except Fault Bool := a.hasFlag type .addressable

/-- Is this a pointer type? -/
def isPointerType (a : Arena) (type : NodeId) : Except Fault Bool :=
  (a.kindOf type).map fun | .pointerType _ => true | _ => false

/-- Is this a reference type? -/
def isReferenceType (a : Arena) (type : NodeId) : Except Fault Bool :=
  (a.kindOf type).map fun | .referenceType _ => true | _ => false

/-- Is this a function type? -/
def isFunctionType (a : Arena) (type : NodeId) : Except Fault Bool :=
  (a.kindOf type).map fun | .functionType .. => true | _ => false

/-- The target of a pointer or a reference type. -/
def indirectTarget? (a : Arena) (type : NodeId) : Except Fault (Option NodeId) :=
  (a.kindOf type).map fun | .pointerType t | .referenceType t => some t | _ => none

/-- Is this a pointer or a reference type? -/
def isIndirectType (a : Arena) (type : NodeId) : Except Fault Bool :=
  (a.indirectTarget? type).map Option.isSome

/-- The type of what a function returns. -/
def resultType? (a : Arena) (type : NodeId) : Except Fault (Option NodeId) :=
  (a.kindOf type).map fun | .functionType result _ => some result | _ => none

/-- The declaration that names a record type. -/
def nameDecl? (a : Arena) (type : NodeId) : Except Fault (Option NodeId) :=
  (a.kindOf type).map fun | .recordType name _ _ => name | _ => none

/-- The size of a pointer or a reference in bytes. -/
def pointerSize : Nat := 8

/-- The size in bytes of the objects of a type, where it is known.  A precision of so many bits
takes as many bytes as hold them. -/
def sizeInBytes (a : Arena) (type : NodeId) : Except Fault (Option Nat) :=
  (a.kindOf type).map fun
    | .boolType => some 1
    | .intType precision _ _ | .realType precision => some ((precision + 7) / 8)
    | .pointerType _ | .referenceType _ => some pointerSize
    | .recordType _ size _ => size
    | _ => none

/-- Completeness along at most `fuel` array types. -/
def isCompleteWithin (a : Arena) : Nat → NodeId → Except Fault Bool
  | 0, _ => .error .endless
  | fuel + 1, type => do
    match ← a.kindOf type with
    | .voidType | .errorMark => return false
    | .recordType _ size _ => return size.isSome
    | .arrayType element => a.isCompleteWithin fuel element
    | _ => return true

/-- Do objects of this type have a known size?  An array is as complete as its elements; a chain
of more array types than there are nodes has no end. -/
def isComplete (a : Arena) (type : NodeId) : Except Fault Bool :=
  a.isCompleteWithin (a.size + 1) type

/-! ### Expressions and declarations -/

/-- Does an expression have reference type? -/
def isReference (a : Arena) (expr : NodeId) : Except Fault Bool := do
  match ← a.typeOf expr with
  | some type => a.isReferenceType type
  | none => return false

/-- The name of a declaration. -/
def declName? (a : Arena) (id : NodeId) : Except Fault (Option Name) :=
  (a.kindOf id).map fun kind => kind.decl?.map Decl.name

/-- Where an expression is, or `fallback` when it has no location.  The span of a declaration, a
constant or a type is where it was declared, not where it is used. -/
def locationOf (a : Arena) (expr : NodeId) (fallback : Span) : Except Fault Span :=
  (a.node expr).map fun n => if n.kind.isExpression then n.span.orElse fallback else fallback

/-! ### Suppressed warnings -/

/-- Are the warnings of some flags switched off for a node?  `noWarning` switches off all. -/
def suppresses (a : Arena) (id : NodeId) (flags : NodeFlags) : Except Fault Bool :=
  (a.flagsOf id).map (·.intersects ((NodeFlags.single .noWarning).union flags))

/-- Is any warning switched off for a node? -/
def suppressesAny (a : Arena) (id : NodeId) : Except Fault Bool :=
  (a.flagsOf id).map (·.intersects .suppression)

end Arena

end ExprTree
