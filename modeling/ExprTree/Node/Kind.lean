import ExprTree.Name
import ExprTree.Node.Id

/-!
# Node kinds

A node is a declaration, a type, an expression, a constant or an auxiliary cell, with handles of
its operands.  Kinds that differ only in their operator share a constructor: the declarations
(`DeclSort`), the expressions with one operand (`UnaryOp`) and the folded arithmetic (`BinaryOp`).

* `NodeKind` — the sum of all kinds.
* `NodeKind.code` — the name of a kind in listings.
* `NodeKind.isDecl`, `isConstant`, `isType`, `isExpression` — the classes of kinds.
* `NodeKind.isUnevaluated`, `hasOwnEffect` — how a kind takes part in evaluation.
* `NodeKind.operands` — the operands of an expression, the listed ones last.
-/

namespace ExprTree

/-- The declarations that share a payload. -/
inductive DeclSort
  | var
  | param
  | func
  | typeName
  | field
  | scope
  | template
  deriving DecidableEq, Repr

/-- The payload of a declaration. -/
structure Decl where
  /-- The declared name. -/
  name : Name
  /-- Initializer of a variable, body of a function. -/
  initial : Option NodeId
  /-- Size in bits, where it is computed at run time. -/
  size : Option NodeId
  /-- Size in bytes. -/
  sizeUnit : Option NodeId
  deriving DecidableEq, Repr

/-- A declaration of which only the name is known. -/
def Decl.named (name : Name) : Decl := ⟨name, none, none, none⟩

/-- The forms of a written cast. -/
inductive CastForm
  /-- A functional or parenthesised cast. -/
  | plain
  | reinterpret
  | static
  | const
  | dynamic
  /-- A conversion whose target is known only after instantiation. -/
  | implicit
  | bit
  deriving DecidableEq, Repr

/-- The operators of expressions with one operand. -/
inductive UnaryOp
  | realPart
  | imagPart
  /-- A conversion that changes nothing. -/
  | nop
  /-- A conversion of the value. -/
  | convert
  /-- The value of an expression, without its storage. -/
  | nonLvalue
  /-- The same bits under another type. -/
  | viewConvert
  | float
  /-- An expression kept in its form before instantiation. -/
  | nonDependent
  | addressOf
  /-- Access to the object behind a pointer or a reference. -/
  | deref
  /-- The point at which a declaration takes effect. -/
  | declare
  | sizeof
  | alignof
  | noexcept
  deriving DecidableEq, Repr

/-- The operators of folded arithmetic. -/
inductive BinaryOp
  | plus
  | minus
  | mult
  /-- A pointer moved by an offset in bytes. -/
  | pointerPlus
  deriving DecidableEq, Repr

/-- A node kind with its operands. -/
inductive NodeKind
  /-- Stands for a tree that has been diagnosed. -/
  | errorMark
  /-- The value of type `void`. -/
  | voidConst
  | intConst (value : Int64)
  /-- A floating-point constant, by its bits. -/
  | realConst (bits : UInt64)
  | stringConst (text : Name)
  /-- A pointer to a member. -/
  | memberConst (member : NodeId)
  | identifier (name : Name)
  | decl (sort : DeclSort) (payload : Decl)
  /-- Brings the declarations of another scope into this one. -/
  | usingDecl (name : NodeId) (scope decls : Option NodeId)
  | voidType
  | boolType
  | intType (precision : Nat) (unsigned : Bool) (name : Option Name)
  | realType (precision : Nat)
  | pointerType (target : NodeId)
  | referenceType (target : NodeId)
  | arrayType (element : NodeId)
  | functionType (result : NodeId) (params : NodeSlice)
  /-- A record: the declaration that names it, its size in bytes once it is complete, and the
  function type behind a pointer to a member function. -/
  | recordType (name : Option NodeId) (size : Option Nat) (memberFunction : Option NodeId)
  | typenameType (scope : Option NodeId) (fullName : NodeId)
  | typeofType (expr : NodeId)
  | underlyingType (type : NodeId)
  | decltypeType (expr : NodeId)
  | typeExpansion (pattern : NodeId) (extra : Option NodeId)
  | typePack (args : NodeSlice)
  | arrayRef (base index : NodeId)
  | componentRef (object field : NodeId)
  | memberRef (object member : NodeId)
  | modify (lhs rhs : NodeId)
  | unary (op : UnaryOp) (operand : NodeId)
  | binary (op : BinaryOp) (lhs rhs : NodeId)
  /-- Evaluates both operands in order; the value is that of the right one. -/
  | comma (lhs rhs : NodeId)
  /-- A conditional; without a second operand the condition is also the value of that branch. -/
  | cond (cond : NodeId) (second : Option NodeId) (third : NodeId)
  | call (callee : Option NodeId) (args : NodeSlice)
  /-- A temporary object and the expression that initializes it. -/
  | target (slot initial : NodeId)
  | constructor (elements : NodeSlice)
  | cast (form : CastForm) (operand : NodeId)
  | valuePack (args : NodeSlice)
  | valueExpansion (pattern : NodeId) (extra : Option NodeId)
  | requires (params : Option NodeId) (requirements : NodeId)
  | coAwait (expr : NodeId) (frame initializer : Option NodeId)
  /-- Leaves a coroutine; `call` hands a value that is not void to the coroutine's promise. -/
  | coReturn (expr call : Option NodeId)
  | listCell (purpose value next : Option NodeId)
  | vector (elements : NodeSlice)
  /-- A function of an overload set, and the rest of the set. -/
  | overload (function : NodeId) (next : Option NodeId)
  /-- A set of member functions reached through a class. -/
  | baselink (access : Option NodeId) (functions : NodeId)
  /-- Source text saved for a later parse. -/
  | deferredParse
  | staticAssert (condition : NodeId) (message : Option NodeId)
  /-- A kind of the host of which only the operands are known. -/
  | foreign (code : Nat) (operands : NodeSlice)
  deriving DecidableEq, Repr

/-! ### Names in listings -/

/-- The name of a declaration kind. -/
def DeclSort.code : DeclSort → String
  | .var => "var_decl"
  | .param => "parm_decl"
  | .func => "function_decl"
  | .typeName => "type_decl"
  | .field => "field_decl"
  | .scope => "namespace_decl"
  | .template => "template_decl"

/-- The name of a unary kind. -/
def UnaryOp.code : UnaryOp → String
  | .realPart => "realpart_expr"
  | .imagPart => "imagpart_expr"
  | .nop => "nop_expr"
  | .convert => "convert_expr"
  | .nonLvalue => "non_lvalue_expr"
  | .viewConvert => "view_convert_expr"
  | .float => "float_expr"
  | .nonDependent => "non_dependent_expr"
  | .addressOf => "addr_expr"
  | .deref => "indirect_ref"
  | .declare => "decl_expr"
  | .sizeof => "sizeof_expr"
  | .alignof => "alignof_expr"
  | .noexcept => "noexcept_expr"

namespace NodeKind

/-- The name of a kind in listings. -/
def code : NodeKind → String
  | errorMark => "error_mark"
  | voidConst => "void_cst"
  | intConst _ => "integer_cst"
  | realConst _ => "real_cst"
  | stringConst _ => "string_cst"
  | memberConst _ => "ptrmem_cst"
  | identifier _ => "identifier_node"
  | decl sort _ => sort.code
  | usingDecl .. => "using_decl"
  | voidType => "void_type"
  | boolType => "boolean_type"
  | intType .. => "integer_type"
  | realType _ => "real_type"
  | pointerType _ => "pointer_type"
  | referenceType _ => "reference_type"
  | arrayType _ => "array_type"
  | functionType .. => "function_type"
  | recordType .. => "record_type"
  | typenameType .. => "typename_type"
  | typeofType _ => "typeof_type"
  | underlyingType _ => "underlying_type"
  | decltypeType _ => "decltype_type"
  | typeExpansion .. => "type_pack_expansion"
  | typePack _ => "type_argument_pack"
  | arrayRef .. => "array_ref"
  | componentRef .. => "component_ref"
  | memberRef .. => "member_ref"
  | modify .. => "modify_expr"
  | unary op _ => op.code
  | binary .. => "binary_expr"
  | comma .. => "compound_expr"
  | cond .. => "cond_expr"
  | call .. => "call_expr"
  | target .. => "target_expr"
  | constructor _ => "constructor"
  | cast .. => "cast_expr"
  | valuePack _ => "nontype_argument_pack"
  | valueExpansion .. => "expr_pack_expansion"
  | requires .. => "requires_expr"
  | coAwait .. => "co_await_expr"
  | coReturn .. => "co_return_expr"
  | listCell .. => "tree_list"
  | vector _ => "tree_vec"
  | overload .. => "overload"
  | baselink .. => "baselink"
  | deferredParse => "deferred_parse"
  | staticAssert .. => "static_assert"
  | foreign .. => "opaque"

/-! ### Classes of kinds -/

/-- Is this a declaration? -/
def isDecl : NodeKind → Bool
  | decl .. | usingDecl .. => true
  | _ => false

/-- The payload of a declaration that has one. -/
def decl? : NodeKind → Option Decl
  | decl _ payload => some payload
  | _ => none

/-- A declaration with a changed payload; kinds without one stay as they are. -/
def mapDecl (f : Decl → Decl) : NodeKind → NodeKind
  | decl sort payload => decl sort (f payload)
  | kind => kind

/-- Is this a function declaration? -/
def isFunction : NodeKind → Bool
  | decl .func _ => true
  | _ => false

/-- Is this a variable or a parameter? -/
def isVariable : NodeKind → Bool
  | decl .var _ | decl .param _ => true
  | _ => false

/-- Is this a call? -/
def isCall : NodeKind → Bool
  | call .. => true
  | _ => false

/-- Is this a constant? -/
def isConstant : NodeKind → Bool
  | intConst _ | realConst _ | stringConst _ | memberConst _ | voidConst => true
  | _ => false

/-- Is this a type? -/
def isType : NodeKind → Bool
  | voidType | boolType | intType .. | realType _ | pointerType _ | referenceType _ | arrayType _
  | functionType .. | recordType .. | typenameType .. | typeofType _ | underlyingType _
  | decltypeType _ | typeExpansion .. | typePack _ => true
  | _ => false

/-- Is this an expression?  Expressions have locations of their own. -/
def isExpression : NodeKind → Bool
  | arrayRef .. | componentRef .. | memberRef .. | modify .. | unary .. | binary .. | comma ..
  | cond .. | call .. | target .. | constructor _ | cast .. | valuePack _ | valueExpansion ..
  | requires .. | coAwait .. | coReturn .. | foreign .. => true
  | _ => false

/-- Are the operands of this kind never evaluated? -/
def isUnevaluated : NodeKind → Bool
  | unary .sizeof _ | unary .alignof _ | unary .noexcept _ | requires .. | decltypeType _ => true
  | _ => false

/-- Does evaluating this kind have an effect, whatever its operands do? -/
def hasOwnEffect : NodeKind → Bool
  | modify .. | call .. | coAwait .. | coReturn .. => true
  | _ => false

/-- Does this kind access an object of its type? -/
def accessesObject : NodeKind → Bool
  | unary .deref _ | arrayRef .. | componentRef .. => true
  | decl .var _ | decl .param _ | decl .field _ => true
  | _ => false

/-! ### Operands -/

/-- The operands of an expression in source order: the single handles, and behind them the
operand list.  Declarations, constants and types have none; the component types of a type are its
`typeFields`.  Operands that only a walk over the language reaches (argument packs, coroutine
frames, assertions) are not among them. -/
def operands : NodeKind → List NodeId × NodeSlice
  | arrayRef a b | componentRef a b | memberRef a b | modify a b | binary _ a b | comma a b
  | target a b => ([a, b], .empty)
  | unary _ a | cast _ a | coAwait a .. => ([a], .empty)
  | cond a b c => (a :: (b.toList ++ [c]), .empty)
  | call callee args => (callee.toList, args)
  | constructor elements | vector elements | foreign _ elements => ([], elements)
  | listCell _ value next => (value.toList ++ next.toList, .empty)
  | requires params requirements => (params.toList ++ [requirements], .empty)
  | valueExpansion pattern extra => (pattern :: extra.toList, .empty)
  | _ => ([], .empty)

/-- The component types of a type: a target or an element, or a result with the parameters. -/
def typeFields : NodeKind → List NodeId × NodeSlice
  | pointerType t | referenceType t | arrayType t => ([t], .empty)
  | functionType result params => ([result], params)
  | _ => ([], .empty)

end NodeKind

end ExprTree
