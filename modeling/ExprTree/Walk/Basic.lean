import ExprTree.Context
import ExprTree.Walk.Children

/-!
# Walks

A walk visits a node and then its children, depth first and in order.  The visitor may end the walk
at a node, skip the children of a node, and run passes of its own on the context.  What follows a
cell of a list is its sibling, and is walked also when the children of the cell are skipped.

With a set of visited nodes every node is visited at most once, and the component types of types
are walked too.  Without one, a shared node is visited once per reference, and a tree that contains
itself is walked down to the nesting limit.

* `Visitor` — what happens at a node.
* `Walk` — actions on a context, the visitor's own state and the visited nodes.
* `walkTree` — the walk of a tree.
* `walkLanguage` — the walk of the children of the language alone.
-/

namespace ExprTree

/-- The answer of a visitor. -/
structure Visit where
  /-- The node with which the walk ends, if it ends here. -/
  found : Option NodeId
  /-- Are the children of the node walked? -/
  descend : Bool
  deriving DecidableEq, Repr

/-- What is done at a node, with a state of its own beside the context. -/
abbrev Visitor (σ : Type) := NodeId → Action (σ × Context) Visit

/-- The nodes that a walk has visited, the last one first. -/
abbrev Visited := List NodeId

/-- What a walk works on. -/
structure WalkState (σ : Type) where
  /-- The state of the visitor. -/
  user : σ
  /-- The visited nodes, where the walk keeps them. -/
  visited : Option Visited
  context : Context

/-- A part of a walk. -/
abbrev Walk (σ : Type) := Action (WalkState σ)

/-- A pass beside the state of a visitor. -/
instance {σ : Type} : MonadLift Pass (Action (σ × Context)) where
  monadLift p := fun
    | (user, context) =>
      match p context with
      | .ok r context => .ok r (user, context)
      | .error e context => .error e (user, context)

/-- A pass in the course of a walk. -/
instance {σ : Type} : MonadLift Pass (Walk σ) where
  monadLift p := fun
    | ⟨user, visited, context⟩ =>
      match p context with
      | .ok r context => .ok r ⟨user, visited, context⟩
      | .error e context => .error e ⟨user, visited, context⟩

/-- How the children of the language were walked. -/
inductive LanguageWalk
  /-- The node has none. -/
  | notHandled
  /-- All were walked. -/
  | finished
  /-- The walk ended at one of them with a node. -/
  | stopped (found : NodeId)
  deriving DecidableEq, Repr

namespace Walk

variable {σ α : Type}

/-- Run the visitor. -/
def visit (v : Visitor σ) (node : NodeId) : Walk σ Visit := fun
  | ⟨user, visited, context⟩ =>
    match v node (user, context) with
    | .ok answer (user, context) => .ok answer ⟨user, visited, context⟩
    | .error e (user, context) => .error e ⟨user, visited, context⟩

/-- Note a node as visited, and say whether it is to be visited now. -/
def arrive (node : NodeId) : Walk σ Bool := fun s =>
  match s.visited with
  | none => .ok true s
  | some visited =>
    if node ∈ visited then .ok false s
    else .ok true { s with visited := some (node :: visited) }

/-- Walk nodes in order, up to the first that ends the walk. -/
def firstOf (walk : α → Walk σ (Option NodeId)) : List α → Walk σ (Option NodeId)
  | [] => pure none
  | x :: xs => do
    match ← walk x with
    | some found => return some found
    | none => firstOf walk xs

/-- Walk a child as it is evaluated. -/
def child (self : NodeId → Walk σ (Option NodeId)) (c : Child) : Walk σ (Option NodeId) :=
  if c.unevaluated then Pass.unevaluated (self c.node) else self c.node

/-- Walk the children of the language of a node; `descend` says whether the operands are still to
be walked, and so does the answer. -/
def language (self : NodeId → Walk σ (Option NodeId)) (node : NodeId) (descend : Bool) :
    Walk σ (LanguageWalk × Bool) := do
  match ← Pass.query (·.languageChildren? node) with
  | none => return (.notHandled, descend)
  | some parts =>
    match ← firstOf (child self) parts.children with
    | some found => return (.stopped found, descend)
    | none => return (.finished, descend && !parts.replaceOperands)

/-- Walk the operands or the component types of a node. -/
def generic (self : NodeId → Walk σ (Option NodeId)) (isType : Bool) (node : NodeId) :
    Walk σ (Option NodeId) := do
  let components := (← get).visited.isSome
  firstOf self (← Pass.query (·.genericChildren isType components node))

/-- Walk the children of a node that was of the given kind when it had been visited. -/
def children (self : NodeId → Walk σ (Option NodeId)) (kind : NodeKind) (node : NodeId) :
    Walk σ (Option NodeId) := do
  match ← language self node true with
  | (.stopped found, _) => return some found
  | (.finished, false) => return none
  | _ => generic self kind.isType node

/-- Walk what follows a node whose children are skipped: the rest of a list. -/
def siblings (self : NodeId → Walk σ (Option NodeId)) : NodeKind → Walk σ (Option NodeId)
  | .listCell _ _ (some next) => self next
  | _ => pure none

/-- Visit a node and walk below it. -/
def node (v : Visitor σ) (self : NodeId → Walk σ (Option NodeId)) (id : NodeId) :
    Walk σ (Option NodeId) := do
  if ← arrive id then
    let answer ← visit v id
    if let some found := answer.found then return some found
    let kind ← Pass.query (·.kindOf id)
    if answer.descend then children self kind id else siblings self kind
  else return none

/-- One level of `walkTree`. -/
def step (v : Visitor σ) (self : NodeId → Walk σ (Option NodeId)) (id : NodeId) :
    Walk σ (Option NodeId) := do
  Pass.nested (← Pass.query (·.spanOf id)) (some .error) (node v self id)

/-- How often a walk is unrolled.  There is room for so many levels, and under the largest limit for
so many more: a visitor that replaces the context may raise the limit. -/
def levels (n : Nesting) : Nat := max n.room Nesting.largestLimit

/-- A walk that goes down to `levels` at most. -/
def within (v : Visitor σ) (levels : Nat) (id : NodeId) : Walk σ (Option NodeId) :=
  unroll (step v) levels id

end Walk

variable {σ : Type}

/-- Walk a tree.  The answer is the node with which the visitor ended the walk; it is the error
node, with a report, when the tree is nested deeper than the limit. -/
def walkTree (v : Visitor σ) (id : NodeId) : Walk σ (Option NodeId) := fun s =>
  Walk.within v (Walk.levels s.context.nesting) id s

/-- Walk the children of the language of a node alone.  The flag says whether its operands are to be
walked afterwards, before and after. -/
def walkLanguage (v : Visitor σ) (id : NodeId) (descend : Bool) :
    Walk σ (LanguageWalk × Bool) := fun s =>
  Walk.language (Walk.within v (Walk.levels s.context.nesting)) id descend s

end ExprTree
