import ExprTree.Proofs.ErrorPaths
import ExprTree.Proofs.UseRules

/-!
# The path of a use

The use of an expression passes through the operands that carry its value or its storage, down to
where there are none.  Which nodes it meets depends on the kinds of the nodes before it alone, and
what else decides about them stays while an arena evolves.

* `Arena.UsedAlong` — the nodes that the use of an expression meets.
* `Arena.Evolves.isErroneous`, `Arena.Evolves.isReference` — questions that have the same answer.
* `Arena.Evolves.mem_useOperands` — nodes of one kind have the same operands.
-/

namespace ExprTree

theorem NodeKind.isFunction_skeleton (k : NodeKind) : k.skeleton.isFunction = k.isFunction := by
  cases k with
  | unary op _ => cases op <;> rfl
  | _ => rfl

namespace Arena

variable {a b : Arena} {expr id op : NodeId} {n m : Node}

/-- The nodes that the use of an expression meets.  Erroneous nodes are not entered. -/
inductive UsedAlong (a : Arena) (expr : NodeId) : NodeId → Prop
  | self (herr : a.isErroneous expr = .ok false) : UsedAlong a expr expr
  | operand {id op : NodeId} {n : Node} (h : UsedAlong a expr id) (hn : a.find? id = some n)
    (hop : op ∈ a.useOperands n) (herr : a.isErroneous op = .ok false) : UsedAlong a expr op

theorem UsedAlong.expr_not_erroneous (h : a.UsedAlong expr id) :
    a.isErroneous expr = .ok false := by
  induction h with
  | self herr => exact herr
  | operand _ _ _ _ ih => exact ih

theorem exists_find?_of_not_erroneous (h : a.isErroneous id = .ok false) :
    ∃ n, a.find? id = some n := by
  obtain ⟨-, type, htype, -⟩ := isErroneous_eq_false_iff.1 h
  obtain ⟨n, hn, -⟩ := map_eq_ok_iff.1 htype
  exact ⟨n, node_eq_ok_iff.1 hn⟩

/-- A use meets the expression, and what the uses of its operands meet. -/
theorem UsedAlong.cases_head (h : a.UsedAlong expr id) (hn : a.find? expr = some n) :
    id = expr ∨ ∃ op ∈ a.useOperands n, a.UsedAlong op id := by
  induction h with
  | self _ => exact .inl rfl
  | operand _ hm hop herr ih =>
    rcases ih with rfl | ⟨op', hop', h⟩
    · cases hn.symm.trans hm
      exact .inr ⟨_, hop, .self herr⟩
    · exact .inr ⟨op', hop', h.operand hm hop herr⟩

/-! ### While an arena evolves -/

/-- A node of the kind that an old node had has its operands. -/
theorem Evolves.mem_useOperands (h : a.Evolves b) (hk : m.kind = n.kind)
    (hop : op ∈ a.useOperands n) : op ∈ b.useOperands m := by
  simp only [useOperands, hk] at hop ⊢
  split at hop
  case h_4 =>
    split at hop
    · rename_i href
      rw [h.isReference href]
      exact hop
    · cases hop
  all_goals exact hop

/-- Whether a node that wraps what it did names a function that can only be called has not
changed. -/
theorem Evolves.namesBuiltin (h : a.Evolves b) (hn : a.find? id = some n) (hm : b.find? id = some m)
    (hwrapped : m.wrapped? = n.wrapped?) {r : Bool} (hr : a.namesBuiltin id = .ok r) :
    b.namesBuiltin id = .ok r := by
  obtain ⟨_, hstrip, hr⟩ := bind_eq_ok_iff.1 hr
  rw [stripWrapper, map_node_of_find? hn] at hstrip
  cases hstrip
  obtain ⟨d, hd, ⟨⟩⟩ := bind_eq_ok_iff.1 hr
  obtain ⟨d', hd', hdd⟩ := h.node _ d (node_eq_ok_iff.1 hd)
  have hfunction : d'.kind.isFunction = d.kind.isFunction := by
    rw [← NodeKind.isFunction_skeleton, hdd.skeleton_eq, NodeKind.isFunction_skeleton]
  refine bind_eq_ok_iff.2 ⟨m.wrapped?.getD id, map_node_of_find? hm, ?_⟩
  rw [hwrapped]
  refine bind_eq_ok_iff.2 ⟨d', node_eq_ok_iff.2 hd', ?_⟩
  rw [hfunction, hdd.flag_eq .builtinOnly (by decide) (by decide) (by decide)]
  rfl

end Arena

end ExprTree
