import ExprTree.Proofs.Reads

/-!
# One rule for each part of a use

What a use of an expression ends in follows from what the uses of its operands end in.  There is one
rule for each definition that uses are put together from, and for a definition by kinds the rule has
one case for each kind.

* `Arena.useOperands` — the operands whose use is part of the use of a node.
* `Pass.OrError` — the answer of an operand, which goes on unless it is the error node.
* `Pass.wlp_replaceKind`, `Pass.wlp_classifyWrapper`, `Pass.wlp_classifyReference` — parts of a use.
* `Pass.UseCases`, `Pass.wlp_classifyNode` — a use by kind.
* `Pass.DiscardCases`, `Pass.wlp_classifyDiscardedNode` — a discarded use by kind.
-/

namespace ExprTree

/-- The operands whose use is part of the use of a node: those that carry its value or its storage,
and the reference behind which the storage is. -/
def Arena.useOperands (a : Arena) (n : Node) : List NodeId :=
  match n.kind with
  | .componentRef object _ => [object]
  | .comma _ rhs => [rhs]
  | .cond _ second third => second.toList ++ [third]
  | .unary .deref reference =>
    match a.isReference reference with
    | .ok true => [reference]
    | _ => []
  | .unary op operand => if op.isTransparent then [operand] else []
  | _ => []

theorem Arena.useOperands_unary {a : Arena} {n : Node} {op : UnaryOp} {operand : NodeId}
    (hk : n.kind = .unary op operand) (hop : op ≠ .deref) :
    a.useOperands n = if op.isTransparent then [operand] else [] := by
  cases op with
  | deref => exact absurd rfl hop
  | _ => simp only [useOperands, hk]

theorem UnaryOp.readsOperand_of_isTransparent {op : UnaryOp} (h : op.isTransparent = true) :
    op.readsOperand = true := by
  cases op <;> first | rfl | cases h

/-! ### Operands that are read along -/

section Operands

variable {n : Node} {object field lhs rhs first third op : NodeId} {second : Option NodeId}

theorem Node.mem_readOperands_component (hk : n.kind = .componentRef object field) :
    object ∈ n.readOperands := by
  simp [readOperands, hk]

theorem Node.mem_readOperands_comma (hk : n.kind = .comma lhs rhs) : rhs ∈ n.readOperands := by
  simp [readOperands, hk]

theorem Node.mem_readOperands_second (hk : n.kind = .cond first second third)
    (hop : second = some op) : op ∈ n.readOperands := by
  simp [readOperands, hk, hop]

theorem Node.mem_readOperands_third (hk : n.kind = .cond first second third) :
    third ∈ n.readOperands := by
  simp [readOperands, hk]

theorem Node.mem_readOperands_unary {op : UnaryOp} {operand : NodeId}
    (hk : n.kind = .unary op operand) (hop : op.readsOperand = true) :
    operand ∈ n.readOperands := by
  cases op with
  | nonLvalue => cases hop
  | _ => simp [readOperands, hk, hop]

end Operands

theorem Node.wrapped?_of_isTransparent {n : Node} {op : UnaryOp} {operand : NodeId}
    (hk : n.kind = .unary op operand) (hop : op.isTransparent = true)
    (hw : ¬(op = .viewConvert ∧ n.isWrapper = true)) : n.wrapped? = none := by
  refine Option.eq_none_iff_forall_ne_some.2 fun wrapped hwrapped => hw ?_
  obtain ⟨-, hk' | hk'⟩ := Node.wrapped?_eq_some_iff.1 hwrapped
  · cases hk.symm.trans hk'
    exact ⟨rfl, Option.isSome_iff_exists.2 ⟨_, hwrapped⟩⟩
  · cases hk.symm.trans hk'
    cases hop

namespace Pass

open ExprTree.Action

variable {cx : Context} {expr : NodeId} {mode : UseMode} {n : Node} {Q : NodeId → Context → Prop}

/-- An answer that is the error node is the answer of the whole; any other goes on. -/
structure OrError (f : NodeId → Pass NodeId) (Q : NodeId → Context → Prop) (r : NodeId)
    (t : Context) : Prop where
  error : r = .error → Q .error t
  next : r ≠ .error → wlp (f r) Q t

theorem wlp_orError {p : Pass NodeId} {f : NodeId → Pass NodeId} (hp : wlp p (OrError f Q) cx) :
    wlp (p >>= fun r => if r = .error then pure .error else f r) Q cx := by
  rw [wlp_bind]
  refine hp.mono fun r t h => ?_
  by_cases hr : r = .error
  · rw [if_pos hr]
    exact wlp_pure.2 (h.error hr)
  · rw [if_neg hr]
    exact h.next hr

theorem wlp_replaceKind {kind : NodeKind} (hstay : cx.arena.kindOf expr = .ok kind → Q expr cx)
    (hnew : cx.arena.kindOf expr ≠ .ok kind → wlp (rebuild expr kind) (fun _ t => Q expr t) cx) :
    wlp (replaceKind expr kind) Q cx := by
  unfold replaceKind
  rw [wlp_bind, wlp_query]
  intro current hcurrent
  split
  · rename_i hother
    rw [wlp_bind]
    refine (hnew fun hk => hother ?_).mono fun _ _ ht => wlp_pure.2 ht
    cases hcurrent.symm.trans hk
    rfl
  · rename_i hsame
    exact wlp_pure.2 (hstay (hcurrent.trans (congrArg Except.ok (not_not.1 hsame))))

section Node

variable {self : NodeId × UseMode → Pass NodeId}

/-- A declaration or a constant stays in its location wrapper; any other expression takes the place
of the wrapper. -/
theorem wlp_classifyWrapper {wrapper operand : NodeId}
    (hself : ∀ loc, cx.arena.spanOf wrapper = .ok loc →
      wlp (self (operand, { mode with loc })) (fun r t =>
        (r = .error → Q .error t) ∧ (r ≠ .error → ∀ kind, t.arena.kindOf r = .ok kind →
          ((kind.isDecl || kind.isConstant) = true →
            wlp (rebuild wrapper (.unary (if mode.rvalue then .nonLvalue else .viewConvert) r))
              (fun _ u => Q wrapper u) t) ∧
          ((kind.isDecl || kind.isConstant) = false →
            wlp (when kind.isExpression (edit (Arena.setSpan r loc))) (fun _ u => Q r u) t))) cx) :
    wlp (classifyWrapper self wrapper operand mode) Q cx := by
  unfold classifyWrapper
  rw [wlp_bind, wlp_query]
  intro loc hloc
  refine wlp_orError ((hself loc hloc).mono fun r t h => ⟨h.1, fun hr => ?_⟩)
  rw [wlp_bind, wlp_query]
  intro kind hkind
  obtain ⟨hstay, hnew⟩ := h.2 hr kind hkind
  cases hk : kind.isDecl || kind.isConstant with
  | true =>
    rw [if_pos rfl, wlp_bind]
    exact (hstay hk).mono fun _ _ hu => wlp_pure.2 hu
  | false =>
    rw [if_neg Bool.false_ne_true, wlp_bind]
    exact (hnew hk).mono fun _ _ hu => wlp_pure.2 hu

/-- The value of a reference that is the reference itself is not dereferenced again. -/
theorem wlp_classifyReference {reference : NodeId}
    (hself : wlp (self (reference, { mode with rvalue := true, read := true })) (fun r t =>
      (r = .error → Q .error t) ∧ (r ≠ .error → r = reference → Q expr t) ∧
        (r ≠ .error → r ≠ reference → wlp (dereference r) Q t)) cx) :
    wlp (classifyReference self expr reference mode) Q cx := by
  refine wlp_orError (hself.mono fun r t h => ⟨h.1, fun hr => ?_⟩)
  by_cases hsame : r = reference
  · rw [if_pos hsame]
    exact wlp_pure.2 (h.2.1 hr hsame)
  · rw [if_neg hsame]
    exact h.2.2 hr hsame

/-- What has to hold of a node for its use to end in `Q`. -/
structure UseCases (call : NodeId × UseMode → Pass NodeId) (expr : NodeId) (mode : UseMode)
    (Q : NodeId → Context → Prop) (cx : Context) (n : Node) : Prop where
  component : ∀ object field, n.kind = .componentRef object field →
    wlp (call (object, mode)) (OrError (fun r => replaceKind expr (.componentRef r field)) Q) cx
  comma : ∀ lhs rhs loc, n.kind = .comma lhs rhs →
    wlp (call (rhs, { mode with loc })) (OrError (fun r => replaceKind expr (.comma lhs r)) Q) cx
  cond : ∀ first second third, n.kind = .cond first second third →
    wlp (second.mapM fun op => call (op, mode)) (fun o t => (o = some .error → Q .error t) ∧
      (o ≠ some .error → wlp (call (third, mode))
        (OrError (fun r => replaceKind expr (.cond first o r)) Q) t)) cx
  reference : ∀ pointer, n.kind = .unary .deref pointer →
    cx.arena.isReference pointer = .ok true → wlp (classifyReference call expr pointer mode) Q cx
  wrapper : ∀ operand, n.kind = .unary .viewConvert operand → n.wrapped? = some operand →
    wlp (classifyWrapper call expr operand mode) Q cx
  transparent : ∀ op operand, n.kind = .unary op operand → op.isTransparent = true →
    n.wrapped? = none →
      wlp (call (operand, mode)) (OrError (fun r => replaceKind expr (.unary op r)) Q) cx
  keep : cx.arena.useOperands n = [] →
    (∀ pointer, n.kind = .unary .deref pointer → cx.arena.isReference pointer = .ok false) →
      Q expr cx

theorem wlp_classifyNode
    (h : ∀ n, cx.arena.find? expr = some n → UseCases self expr mode Q cx n) :
    wlp (classifyNode self expr mode) Q cx := by
  unfold classifyNode
  rw [wlp_bind, wlp_query]
  intro n hn
  have hcases := h n (Arena.node_eq_ok_iff.1 hn)
  split
  · rename_i hk
    exact wlp_orError (hcases.component _ _ hk)
  · rename_i hk
    rw [wlp_bind, wlp_query]
    exact fun loc _ => wlp_orError (hcases.comma _ _ loc hk)
  · rename_i hk
    rw [wlp_bind]
    refine (hcases.cond _ _ _ hk).mono ?_
    rintro o t ⟨herror, hnext⟩
    split
    · rename_i ho
      exact wlp_pure.2 (herror ho)
    · rename_i ho
      exact wlp_orError (hnext ho)
  · rename_i pointer hk
    rw [wlp_bind, wlp_query]
    intro reference href
    cases reference with
    | true => exact hcases.reference _ hk href
    | false =>
      refine wlp_pure.2 (hcases.keep ?_ ?_)
      · simp only [Arena.useOperands, hk, href]
      · rintro pointer' hk'
        cases hk.symm.trans hk'
        exact href
  · rename_i op operand hderef hk
    split
    · rename_i hw
      obtain ⟨rfl, hw⟩ := hw
      exact hcases.wrapper _ hk (Node.wrapped?_of_isWrapper hw hk)
    rename_i hw
    split
    · rename_i hop
      exact wlp_orError (hcases.transparent _ _ hk hop (Node.wrapped?_of_isTransparent hk hop hw))
    · rename_i hop
      refine wlp_pure.2 (hcases.keep ?_ fun pointer hk' => ?_)
      · rw [Arena.useOperands_unary hk hderef, if_neg hop]
      · cases hk.symm.trans hk'
        exact absurd rfl hderef
  · rename_i hcomponent hcomma hcond hunary hderef
    refine wlp_pure.2 (hcases.keep ?_ fun pointer hk => absurd hk (hderef _ pointer))
    cases hk : n.kind with
    | componentRef object field => exact absurd hk (hcomponent _ _)
    | comma lhs rhs => exact absurd hk (hcomma _ _)
    | cond first second third => exact absurd hk (hcond _ _ _)
    | unary op operand => exact absurd hk (hderef _ _)
    | _ => simp only [Arena.useOperands, hk]

end Node

section Discarded

variable {self : NodeId → Pass NodeId}

/-- What has to hold of a node for its discarded use to end in `Q`. -/
structure DiscardCases (call : NodeId → Pass NodeId) (expr : NodeId)
    (Q : NodeId → Context → Prop) (cx : Context) (n : Node) : Prop where
  /-- The third operand comes first. -/
  cond : ∀ first second third, n.kind = .cond first second third →
    wlp (call third) (fun r t => wlp (second.mapM call) (fun o u =>
      (r = .error ∨ o = some .error → Q .error u) ∧
        (r ≠ .error → o ≠ some .error →
          wlp (rebuild expr (.cond first o r)) (fun _ v => Q expr v) u)) t) cx
  comma : ∀ lhs rhs, n.kind = .comma lhs rhs →
    wlp (call rhs) (fun r t => (r = .error → Q .error t) ∧
      (r ≠ .error → wlp (rebuild expr (.comma lhs r)) (fun _ u => Q expr u) t)) cx
  use : (∀ first second third, n.kind ≠ .cond first second third) →
    (∀ lhs rhs, n.kind ≠ .comma lhs rhs) → wlp (discardedRvalueUse expr) Q cx
  keep : (∀ first second third, n.kind ≠ .cond first second third) →
    (∀ lhs rhs, n.kind ≠ .comma lhs rhs) → Q expr cx

theorem wlp_classifyDiscardedNode
    (h : ∀ n, cx.arena.find? expr = some n → DiscardCases self expr Q cx n) :
    wlp (classifyDiscardedNode self expr) Q cx := by
  unfold classifyDiscardedNode
  rw [wlp_bind, wlp_query]
  intro kind hkind
  obtain ⟨n, hn, rfl⟩ := Arena.kindOf_eq_ok_iff.1 hkind
  have hcases := h n hn
  split
  · rename_i hk
    rw [wlp_bind]
    refine (hcases.cond _ _ _ hk).mono fun r t ht => ?_
    rw [wlp_bind]
    refine ht.mono ?_
    rintro o u ⟨herror, hnext⟩
    split
    · rename_i hr
      exact wlp_pure.2 (herror hr)
    · rename_i hr
      rw [not_or] at hr
      rw [wlp_bind]
      exact (hnext hr.1 hr.2).mono fun _ _ hv => wlp_pure.2 hv
  · rename_i hk
    rw [wlp_bind]
    refine (hcases.comma _ _ hk).mono ?_
    rintro r t ⟨herror, hnext⟩
    split
    · rename_i hr
      exact wlp_pure.2 (herror hr)
    · rename_i hr
      rw [wlp_bind]
      exact (hnext hr).mono fun _ _ hu => wlp_pure.2 hu
  case h_3 | h_4 | h_5 | h_6 =>
    rename_i hk
    refine hcases.use ?_ ?_ <;> rw [hk] <;> exact nofun
  rename_i hcond hcomma _ _ _ _
  split
  · exact hcases.use hcond hcomma
  · exact wlp_pure.2 (hcases.keep hcond hcomma)

end Discarded

end Pass

end ExprTree
