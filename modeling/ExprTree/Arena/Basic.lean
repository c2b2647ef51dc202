import ExprTree.Action
import ExprTree.Span
import ExprTree.Node.Flags
import ExprTree.Node.Kind

/-!
# Arenas

An arena owns the nodes of a tree.  Nodes are appended and never freed; to change a tree is to
append new nodes or to replace the kind of an old one.  Operand lists of any length lie one behind
the other in one table, and attributes in another, since few nodes carry any.

Every arena starts with the same six nodes: the error node, the void value, and the types `void`,
`bool`, `int` and `size_t` (`Arena.initial`).

* `Arena.find?` — the node behind a handle, through which all changes are stated.
* `Arena.node` — the same with a fault for a handle from elsewhere.
* `Arena.alloc`, `Arena.update` — the two ways in which nodes change.
* `Arena.list`, `Arena.allocList` — operand lists.
* `Arena.attributesOf`, `Arena.addAttribute` — attributes.
-/

namespace ExprTree

/-- An attribute of a declaration or a type, with its interned arguments. -/
structure Attribute where
  name : Name
  args : List Name
  deriving DecidableEq, Repr

/-- The first argument of an attribute. -/
def Attribute.firstArg? (attr : Attribute) : Option Name := attr.args.head?

/-- A node of a tree. -/
structure Node where
  kind : NodeKind
  /-- The type; types and nodes without a value have none. -/
  type : Option NodeId
  flags : NodeFlags
  span : Span
  deriving DecidableEq, Repr

/-- The operand of a location wrapper: a conversion that only carries a location for it. -/
def Node.wrapped? (n : Node) : Option NodeId :=
  match n.kind with
  | .unary .viewConvert operand | .unary .nonLvalue operand =>
    if n.flags.has .locationWrapper then some operand else none
  | _ => none

/-- Is this a location wrapper? -/
def Node.isWrapper (n : Node) : Bool := n.wrapped?.isSome

/-- The nodes of a tree with their lists, attributes and names. -/
structure Arena where
  nodes : Array Node
  /-- All operand lists, one behind the other. -/
  lists : Array NodeId
  /-- All attributes in the order in which they were attached. -/
  attributes : Array (NodeId × Attribute)
  names : NameTable
  deriving DecidableEq, Repr

namespace Arena

/-- The arena that holds only the nodes common to all arenas. -/
def initial : Arena where
  nodes := #[
    ⟨.errorMark, some .error, .empty, .unknown⟩,
    ⟨.voidConst, some .voidType, .empty, .unknown⟩,
    ⟨.voidType, none, .empty, .unknown⟩,
    ⟨.boolType, none, .empty, .unknown⟩,
    ⟨.intType 32 false (some ⟨1⟩), none, .empty, .unknown⟩,
    ⟨.intType 64 true (some ⟨2⟩), none, .empty, .unknown⟩]
  lists := #[]
  attributes := #[]
  names := ⟨#["", "int", "size_t"]⟩

/-- The number of nodes. -/
def size (a : Arena) : Nat := a.nodes.size

/-! ### Reading nodes -/

/-- The node behind a handle. -/
def find? (a : Arena) (id : NodeId) : Option Node := a.nodes[id.index]?

/-- The node behind a handle of this arena. -/
def node (a : Arena) (id : NodeId) : Except Fault Node :=
  match a.find? id with
  | some n => .ok n
  | none => .error .outOfBounds

/-- The kind of a node. -/
def kindOf (a : Arena) (id : NodeId) : Except Fault NodeKind := (a.node id).map Node.kind

/-- The type of a node, if it has one. -/
def typeOf (a : Arena) (id : NodeId) : Except Fault (Option NodeId) := (a.node id).map Node.type

/-- The flags of a node. -/
def flagsOf (a : Arena) (id : NodeId) : Except Fault NodeFlags := (a.node id).map Node.flags

/-- The span of a node. -/
def spanOf (a : Arena) (id : NodeId) : Except Fault Span := (a.node id).map Node.span

/-- Does a node carry a flag? -/
def hasFlag (a : Arena) (id : NodeId) (f : Flag) : Except Fault Bool :=
  (a.node id).map (·.flags.has f)

/-- Can evaluating a node change the state of the program, by its flags? -/
def hasEffect (a : Arena) (id : NodeId) : Except Fault Bool := a.hasFlag id .effect

/-! ### Changing nodes -/

/-- Append a node without flags.  There is always room for it: the limit of `2 ^ 32` nodes that
handles of 32 bits set, and the fault beyond it, are left out. -/
def alloc (a : Arena) (kind : NodeKind) (type : Option NodeId) (span : Span) : NodeId × Arena :=
  (⟨a.size⟩, { a with nodes := a.nodes.push ⟨kind, type, .empty, span⟩ })

/-- Change a node in place. -/
def update (id : NodeId) (f : Node → Node) : Action Arena Unit := fun a =>
  if id.index < a.size then .ok () { a with nodes := a.nodes.modify id.index f }
  else .error .outOfBounds a

/-- Replace the kind of a node; its flags stay. -/
def setKind (id : NodeId) (kind : NodeKind) : Action Arena Unit :=
  update id fun n => { n with kind }

/-- Replace the type of a node. -/
def setType (id : NodeId) (type : Option NodeId) : Action Arena Unit :=
  update id fun n => { n with type }

/-- Replace the span of a node. -/
def setSpan (id : NodeId) (span : Span) : Action Arena Unit :=
  update id fun n => { n with span }

/-- Set flags of a node. -/
def insertFlags (id : NodeId) (flags : NodeFlags) : Action Arena Unit :=
  update id fun n => { n with flags := n.flags.union flags }

/-- Clear flags of a node. -/
def removeFlags (id : NodeId) (flags : NodeFlags) : Action Arena Unit :=
  update id fun n => { n with flags := n.flags.diff flags }

/-! ### Operand lists -/

/-- Store an operand list.  All empty lists share one handle.  As for nodes there is always room:
that the start and the length of a list have to fit into 32 bits, and the fault where they do not,
are left out. -/
def allocList (a : Arena) (ids : List NodeId) : NodeSlice × Arena :=
  if ids.isEmpty then (.empty, a)
  else (⟨a.lists.size, ids.length⟩, { a with lists := a.lists ++ ids })

/-- The handles of an operand list.  An empty slice lies in every arena, wherever it starts. -/
def list (a : Arena) (r : NodeSlice) : Except Fault (List NodeId) :=
  if r.isEmpty then .ok []
  else if r.stop ≤ a.lists.size then .ok (a.lists.extract r.start r.stop).toList
  else .error .outOfBounds

/-- Single handles followed by a stored list. -/
def handles (a : Arena) (parts : List NodeId × NodeSlice) : Except Fault (List NodeId) :=
  (a.list parts.2).map (parts.1 ++ ·)

/-- The operands of an expression, in source order. -/
def operands (a : Arena) (id : NodeId) : Except Fault (List NodeId) := do
  a.handles (← a.kindOf id).operands

/-- The component types of a type. -/
def typeFields (a : Arena) (id : NodeId) : Except Fault (List NodeId) := do
  a.handles (← a.kindOf id).typeFields

/-! ### Names -/

/-- The name of a string, interned in this arena. -/
def intern (a : Arena) (s : String) : Name × Arena :=
  let (name, names) := a.names.intern s
  (name, { a with names })

/-- The string of a name. -/
def nameText (a : Arena) (n : Name) : String := a.names.lookup n

/-! ### Attributes -/

/-- Attach an attribute to a handle, behind those it has. -/
def addAttribute (a : Arena) (id : NodeId) (attr : Attribute) : Arena :=
  { a with attributes := a.attributes.push (id, attr) }

/-- The attributes of a handle in the order in which they were attached. -/
def attributesOf (a : Arena) (id : NodeId) : List Attribute :=
  a.attributes.toList.filterMap fun entry => if entry.1 = id then some entry.2 else none

/-- The first attribute of a handle with the given name. -/
def attribute? (a : Arena) (id : NodeId) (name : String) : Option Attribute :=
  (a.attributesOf id).find? fun attr => a.nameText attr.name == name

/-! ### The view `find?` -/

theorem node_eq_ok_iff {a : Arena} {id : NodeId} {n : Node} :
    a.node id = .ok n ↔ a.find? id = some n := by
  unfold node
  split <;> simp_all

theorem find?_eq_none_iff {a : Arena} {id : NodeId} : a.find? id = none ↔ a.size ≤ id.index := by
  simp [find?, size]

theorem find?_alloc (a : Arena) (kind : NodeKind) (type : Option NodeId) (span : Span)
    (id : NodeId) :
    (a.alloc kind type span).2.find? id =
      if id.index = a.size then some ⟨kind, type, .empty, span⟩ else a.find? id := by
  exact Array.getElem?_push

theorem find?_update {a b : Arena} {id : NodeId} {f : Node → Node} (h : update id f a = .ok () b)
    (other : NodeId) :
    b.find? other = if other = id then (a.find? id).map f else a.find? other := by
  unfold update at h
  split at h
  · cases h
    obtain ⟨i⟩ := id
    obtain ⟨j⟩ := other
    by_cases hij : j = i
    · subst hij; simp [find?, Array.getElem?_modify]
    · have : i ≠ j := fun e => hij e.symm
      simp [find?, Array.getElem?_modify, hij, this]
  · cases h

end Arena

end ExprTree
