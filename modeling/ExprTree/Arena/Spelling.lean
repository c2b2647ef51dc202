import ExprTree.Arena.Query

/-!
# Spelling of types and declarations

Types and declarations are named in diagnostics as they are written in a program: qualifiers
first, and what a pointer, reference, array or function type is made from before its own mark.

* `Arena.spellType` — the text of a type.
* `Arena.spellDecl` — the text of a declaration.

Both follow handles from node to node.  A chain of more handles than there are nodes leads back
into itself; such a type has no finite spelling.
-/

namespace ExprTree

/-- The name of a kind in angle brackets, for what has no spelling of its own. -/
def NodeKind.placeholder (kind : NodeKind) : String := s!"<{kind.code}>"

/-- The qualifiers of a type, each followed by a blank. -/
def NodeFlags.spellQualifiers (flags : NodeFlags) : String :=
  (if flags.has .const then "const " else "") ++ (if flags.has .volatile then "volatile " else "")

namespace Arena

/-- The spelling of a declaration along at most `fuel` handles. -/
def spellDeclWithin (a : Arena) : Nat → NodeId → Except Fault String
  | 0, _ => .error .endless
  | fuel + 1, id => do
    match ← a.kindOf id with
    | .identifier name => return a.nameText name
    | .decl _ payload => return a.nameText payload.name
    | .usingDecl name _ _ => a.spellDeclWithin fuel name
    | kind => return kind.placeholder

/-- The text of a declaration: its name. -/
def spellDecl (a : Arena) (id : NodeId) : Except Fault String :=
  a.spellDeclWithin (a.size + 1) id

/-- The spelling of an integer type. -/
def spellInt (a : Arena) (precision : Nat) (unsigned : Bool) : Option Name → String
  | some name => a.nameText name
  | none => if unsigned then s!"u{precision}" else s!"i{precision}"

/-- The spelling of a floating-point type. -/
def spellReal : Nat → String
  | 32 => "float"
  | 64 => "double"
  | precision => s!"f{precision}"

/-- The spelling of a record type by the declaration that names it. -/
def spellRecord (a : Arena) (name : Option NodeId) : Except Fault String := do
  let known ← match name with
    | some decl => a.declName? decl
    | none => pure none
  match known with
  | some name => return a.nameText name
  | none => return "<anonymous struct>"

/-- The spelling of a type along at most `fuel` handles. -/
def spellTypeWithin (a : Arena) : Nat → NodeId → Except Fault String
  | 0, _ => .error .endless
  | fuel + 1, type => do
    let n ← a.node type
    let text ← match n.kind with
      | .errorMark => pure "<error>"
      | .voidType => pure "void"
      | .boolType => pure "bool"
      | .intType precision unsigned name => pure (a.spellInt precision unsigned name)
      | .realType precision => pure (spellReal precision)
      | .pointerType target => pure ((← a.spellTypeWithin fuel target) ++ "*")
      | .referenceType target => pure ((← a.spellTypeWithin fuel target) ++ "&")
      | .arrayType element => pure ((← a.spellTypeWithin fuel element) ++ "[]")
      | .functionType result params => do
        let result ← a.spellTypeWithin fuel result
        let params ← (← a.list params).mapM (a.spellTypeWithin fuel)
        pure (result ++ "(" ++ ", ".intercalate params ++ ")")
      | .recordType name _ _ => a.spellRecord name
      | .typenameType scope fullName => do
        let scope ← match scope with
          | some scope => pure ((← a.spellTypeWithin fuel scope) ++ "::")
          | none => pure ""
        pure ("typename " ++ scope ++ (← a.spellDecl fullName))
      | .decltypeType _ => pure "decltype(...)"
      | .typeofType _ => pure "typeof(...)"
      | .underlyingType type =>
        pure ("__underlying_type(" ++ (← a.spellTypeWithin fuel type) ++ ")")
      | .typeExpansion pattern _ => pure ((← a.spellTypeWithin fuel pattern) ++ "...")
      | kind => pure kind.placeholder
    return n.flags.spellQualifiers ++ text

/-- The text of a type. -/
def spellType (a : Arena) (type : NodeId) : Except Fault String :=
  a.spellTypeWithin (a.size + 1) type

end Arena

end ExprTree
