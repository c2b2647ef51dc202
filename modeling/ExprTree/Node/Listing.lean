import ExprTree.Node.Flags
import ExprTree.Node.Kind

/-!
# Listings of nodes

A listing shows a node as the name of its kind and its fields by name.  Operators, casts and flags
have words of their own.

* `Field` — what a field holds.
* `NodeKind.fields` — the fields of a kind, by name.
* `BinaryOp.word`, `CastForm.word`, `Flag.word` — the words of a listing.
-/

namespace ExprTree

/-- The word for an operator. -/
def BinaryOp.word : BinaryOp → String
  | .plus => "plus"
  | .minus => "minus"
  | .mult => "mult"
  | .pointerPlus => "pointer_plus"

/-- All operators of folded arithmetic. -/
def BinaryOp.all : List BinaryOp := [.plus, .minus, .mult, .pointerPlus]

/-- The word for the form of a cast. -/
def CastForm.word : CastForm → String
  | .plain => "cast"
  | .reinterpret => "reinterpret"
  | .static => "static"
  | .const => "const"
  | .dynamic => "dynamic"
  | .implicit => "implicit_conv"
  | .bit => "bit"

/-- All forms of casts. -/
def CastForm.all : List CastForm :=
  [.plain, .reinterpret, .static, .const, .dynamic, .implicit, .bit]

/-- All declarations that share a payload. -/
def DeclSort.all : List DeclSort := [.var, .param, .func, .typeName, .field, .scope, .template]

/-- All operators of expressions with one operand. -/
def UnaryOp.all : List UnaryOp :=
  [.realPart, .imagPart, .nop, .convert, .nonLvalue, .viewConvert, .float, .nonDependent,
    .addressOf, .deref, .declare, .sizeof, .alignof, .noexcept]

/-- The word for a flag. -/
def Flag.word : Flag → String
  | .effect => "SIDE_EFFECTS"
  | .volatileAccess => "THIS_VOLATILE"
  | .read => "READ"
  | .noWarning => "NO_WARNING"
  | .noUnusedValueWarning => "NO_UNUSED_VALUE_WARNING"
  | .noUnusedResultWarning => "NO_UNUSED_RESULT_WARNING"
  | .locationWrapper => "LOCATION_WRAPPER"
  | .artificial => "ARTIFICIAL"
  | .static => "STATIC"
  | .compoundLiteral => "COMPOUND_LITERAL"
  | .qualified => "BASELINK_QUALIFIED"
  | .builtinOnly => "BUILTIN_NO_FALLBACK"
  | .volatile => "VOLATILE"
  | .const => "CONST"
  | .addressable => "ADDRESSABLE"

/-- What a field of a listing holds. -/
inductive Field
  /-- A handle, or nothing where a node may be absent. -/
  | node (id : Option NodeId)
  | list (handles : NodeSlice)
  | text (name : Option Name)
  | word (s : String)
  | count (n : Nat)
  /-- A number of up to 64 bits, or nothing where it is unknown. -/
  | wide (n : Option Int)
  | choice (b : Bool)
  deriving DecidableEq, Repr

namespace NodeKind

/-- The fields of a kind, by name. -/
def fields : NodeKind → List (String × Field)
  | errorMark | voidConst | voidType | boolType | deferredParse => []
  | intConst value => [("value", .wide value.toInt)]
  | realConst bits => [("bits", .wide (Int.ofNat bits.toNat))]
  | stringConst text => [("value", .text text)]
  | memberConst member => [("member", .node member)]
  | identifier name => [("name", .text name)]
  | decl _ d =>
    [("name", .text d.name), ("initial", .node d.initial), ("size", .node d.size),
      ("size_unit", .node d.sizeUnit)]
  | usingDecl name scope decls =>
    [("name", .node name), ("scope", .node scope), ("decls", .node decls)]
  | intType precision unsigned name =>
    [("precision", .count precision), ("unsigned", .choice unsigned), ("name", .text name)]
  | realType precision => [("precision", .count precision)]
  | pointerType pointee => [("pointee", .node pointee)]
  | referenceType referent => [("referent", .node referent)]
  | arrayType element => [("element", .node element)]
  | functionType result params => [("ret", .node result), ("params", .list params)]
  | recordType name size memberFunction =>
    [("name", .node name), ("size", .wide (size.map Int.ofNat)),
      ("ptrmemfunc_fn_type", .node memberFunction)]
  | typenameType scope fullName => [("context", .node scope), ("fullname", .node fullName)]
  | typeofType expr | decltypeType expr => [("expr", .node expr)]
  | underlyingType type => [("ty", .node type)]
  | typeExpansion pattern extra | valueExpansion pattern extra =>
    [("pattern", .node pattern), ("extra_args", .node extra)]
  | typePack args | valuePack args => [("args", .list args)]
  | arrayRef base index => [("base", .node base), ("index", .node index)]
  | componentRef object field => [("object", .node object), ("field", .node field)]
  | memberRef object member => [("object", .node object), ("member", .node member)]
  | modify lhs rhs | comma lhs rhs => [("lhs", .node lhs), ("rhs", .node rhs)]
  | unary _ operand => [("operand", .node operand)]
  | binary op lhs rhs => [("bop", .word op.word), ("lhs", .node lhs), ("rhs", .node rhs)]
  | cond first second third =>
    [("cond", .node first), ("second", .node second), ("third", .node third)]
  | call callee args => [("callee", .node callee), ("args", .list args)]
  | target slot initial => [("slot", .node slot), ("initial", .node initial)]
  | constructor elements | vector elements => [("elts", .list elements)]
  | cast form operand => [("cast", .word form.word), ("operand", .node operand)]
  | requires params requirements => [("parms", .node params), ("reqs", .node requirements)]
  | coAwait expr frame initializer =>
    [("expr", .node expr), ("frame_var", .node frame), ("initializer", .node initializer)]
  | coReturn expr handOver => [("expr", .node expr), ("call", .node handOver)]
  | listCell purpose value next =>
    [("purpose", .node purpose), ("value", .node value), ("chain", .node next)]
  | overload function next => [("function", .node function), ("chain", .node next)]
  | baselink access functions => [("access_type", .node access), ("functions", .node functions)]
  | staticAssert condition message => [("condition", .node condition), ("message", .node message)]
  | foreign code operands => [("code", .count code), ("operands", .list operands)]

end NodeKind

end ExprTree
