import ExprTree.Proofs.Footprint
import ExprTree.Proofs.UseRules

/-!
# Uses change nothing outside the footprint

Recording a read, classifying a use and discarding a value change only nodes of a set that nothing
read along leads out of, and answer with nodes of the set.

* `Pass.Answers` — an answer in a set, and an arena that changed only there.
* `Pass.recordRead_within` — reads.
* `Pass.classifyUse_within`, `Pass.classifyDiscarded_within` — uses.
-/

namespace ExprTree

namespace Arena

/-- The operand of a location wrapper is in the set, too. -/
theorem Within.stripped {a b : Arena} {S : NodeId → Prop} {id inner : NodeId} (h : a.Within S b)
    (hid : S id) (hinner : b.stripWrapper id = .ok inner) : S inner := by
  obtain ⟨n, hn, rfl⟩ := map_eq_ok_iff.1 hinner
  rw [node_eq_ok_iff] at hn
  cases hw : n.wrapped? with
  | none => exact hid
  | some operand => exact h.reads id n hn hid operand (Node.wrapped?_mem_readOperands hw)

theorem diff_acquired_derivedFlags {a : Arena} {n : Node} {f : NodeFlags}
    (h : a.derivedFlags n = .ok f) : f.diff .acquired = .empty ∧ f.has .read = false := by
  obtain ⟨v, i, -, -, rfl⟩ := derivedFlags_eq_ok_iff.1 h
  generalize (n.kind.hasOwnEffect || v || i) = e
  cases v <;> cases e <;> decide

end Arena

namespace Pass

open ExprTree.Action

/-- Only nodes of a set have changed, and the answer is one of them or the error node. -/
def Answers (a : Arena) (S : NodeId → Prop) (r : NodeId) (t : Context) : Prop :=
  a.Within S t.arena ∧ (r ≠ .error → S r)

variable {a : Arena} {S : NodeId → Prop} {cx t : Context} {expr : NodeId} {n : Node}
  {kind : NodeKind}

/-! ### Changes -/

theorem recordRead_within (h : a.Within S cx.arena) (hexpr : S expr) :
    wlp (recordRead expr) (fun _ t => a.Within S t.arena) cx := by
  refine wlp_recursively_of (P := fun cx expr => a.Within S cx.arena ∧ S expr)
    (Q := fun _ _ _ t => a.Within S t.arena) (fun self hself expr cx ⟨h, hexpr⟩ => ?_) ⟨h, hexpr⟩
  unfold recordReadStep
  rw [wlp_bind, wlp_query]
  intro span _
  refine wlp_nested (Q := fun _ b => a.Within S b) (fun inner => ?_) h
  rw [wlp_bind, wlp_query]
  intro n hn
  rw [Arena.node_eq_ok_iff] at hn
  split
  · rename_i hv
    rw [wlp_edit, Arena.insertFlags, Arena.wlp_update]
    intro m hm
    cases hn.symm.trans hm
    refine h.change (f := Node.markRead) hexpr hn
      (fun n' hn' => (h.reworked hn hn').markRead hv) fun op hop => ?_
    rw [Node.readOperands_of_not_isExpression (n := n.markRead)
        (NodeKind.isExpression_of_isVariable hv)] at hop
    cases hop
  · exact wlp_forM (I := fun t : Context => a.Within S t.arena)
      (fun op hop t ht => hself op t ⟨ht, h.reads expr n hn hexpr op hop⟩) h

theorem read_within {asked : Bool} (h : a.Within S cx.arena) (hexpr : S expr) :
    wlp (when asked (recordRead expr)) (fun _ t => a.Within S t.arena) cx := by
  rw [wlp_when]
  split
  · exact recordRead_within h hexpr
  · exact h

theorem setSpan_within {span : Span} (h : a.Within S t.arena) (hexpr : S expr)
    (hk : t.arena.kindOf expr = .ok kind) (he : kind.isExpression = true) :
    wlp (edit (Arena.setSpan expr span)) (fun _ u => a.Within S u.arena) t := by
  obtain ⟨m, hm, rfl⟩ := Arena.kindOf_eq_ok_iff.1 hk
  rw [wlp_edit, Arena.setSpan, Arena.wlp_update]
  intro m' hm'
  cases hm.symm.trans hm'
  exact h.change (f := fun n => { n with span }) hexpr hm
    (fun n hn => (h.reworked hm hn).setSpan he) (h.reads expr m hm hexpr)

/-- A node is given the kind that it had when it was looked at, with operands exchanged for nodes
of the set. -/
theorem rebuild_within (hcx : a.Within S cx.arena) (hn : cx.arena.find? expr = some n)
    (h : a.Within S t.arena) (hexpr : S expr) (hk : n.kind.Rewritten (fun _ op => S op) kind)
    (hw : ∀ operand operand', n.kind = .unary .viewConvert operand →
      kind = .unary .nonLvalue operand' → n.flags.has .locationWrapper = true) :
    wlp (rebuild expr kind) (fun _ u => a.Within S u.arena) t := by
  refine wlp_rebuild fun m f hm hf => ?_
  obtain ⟨hnew, hread⟩ := Arena.diff_acquired_derivedFlags hf
  have hex : n.kind.Exchanged kind := hk.imp fun _ _ _ => trivial
  refine h.change (f := fun n => { n with kind, flags := n.flags.union f }) hexpr hm
    (fun n' hn' => ?_) fun op hop => ?_
  · have hform := (hcx.reworked hn hn').setKind (h.reworked hm hn') hex hw
    refine hform.addFlags ?_ hnew hread
    rw [← (hcx.reworked hn hn').isExpression_eq, hex.isExpression_eq.1]
  · obtain ⟨_, -, hop⟩ := Node.mem_readOperands_rewritten hk hop
    exact hop

theorem replaceKind_within (hcx : a.Within S cx.arena) (hn : cx.arena.find? expr = some n)
    (h : a.Within S t.arena) (hexpr : S expr) (hk : n.kind.Rewritten (fun _ op => S op) kind)
    (hw : ∀ operand, kind ≠ .unary .nonLvalue operand) :
    wlp (replaceKind expr kind) (Answers a S) t := by
  refine wlp_replaceKind (fun _ => ⟨h, fun _ => hexpr⟩) fun _ => ?_
  exact (rebuild_within hcx hn h hexpr hk fun _ _ _ hv => absurd hv (hw _)).mono
    fun _ u hu => ⟨hu, fun _ => hexpr⟩

theorem dereference_within {value : NodeId} (h : a.Within S cx.arena) (hvalue : S value) :
    wlp (dereference value) (Answers a S) cx := by
  refine wlp_dereference (fun _ => ⟨h, fun _ => hvalue⟩) fun target _ => ?_
  refine (recordRead_within h hvalue).mono fun _ t ht span _ => ?_
  refine Arena.wlp_build fun f _ => ⟨ht.append fun op hop => ?_, fun _ => ht.mem_size⟩
  cases List.mem_singleton.1 hop
  exact hvalue

/-! ### Uses -/

section Uses

variable {self : NodeId × UseMode → Pass NodeId} {mode : UseMode}

/-- Calls that are made from nodes of the set answer with nodes of the set. -/
def Confines (a : Arena) (S : NodeId → Prop) (p : NodeId → Pass NodeId) : Prop :=
  ∀ op cx, a.Within S cx.arena ∧ S op → wlp (p op) (Answers a S) cx

/-- The operand in the place of the value of an expression is exchanged for its use. -/
theorem exchanged_within {op : NodeId} {f : NodeId → NodeKind} {p : NodeId → Pass NodeId}
    (hp : Confines a S p) (hcx : a.Within S cx.arena) (hexpr : S expr)
    (hn : cx.arena.find? expr = some n) (h : a.Within S t.arena) (hop : S op)
    (hk : ∀ r, S r → n.kind.Rewritten (fun _ op => S op) (f r))
    (hw : ∀ r operand, f r ≠ .unary .nonLvalue operand) :
    wlp (p op) (OrError (fun r => replaceKind expr (f r)) (Answers a S)) t :=
  (hp op t ⟨h, hop⟩).mono fun r _ ⟨hu, hr⟩ => ⟨fun _ => ⟨hu, fun hne => absurd rfl hne⟩,
    fun hne => replaceKind_within hcx hn hu hexpr (hk r (hr hne)) (hw r)⟩

/-- The use of an operand that may be missing. -/
theorem mapM_within {o : Option NodeId} {p : NodeId → Pass NodeId} (hp : Confines a S p)
    (h : a.Within S t.arena) (ho : ∀ op, o = some op → S op) :
    wlp (o.mapM p) (fun o' u => a.Within S u.arena ∧
      (o' ≠ some .error → Option.Rel (fun _ op => S op) o o')) t := by
  rw [wlp_mapM]
  cases o with
  | none => exact ⟨h, fun _ => .none⟩
  | some op =>
    refine (hp op t ⟨h, ho op rfl⟩).mono fun r u ⟨hu, hr⟩ => ⟨hu, fun hne => .some (hr ?_)⟩
    simpa using hne

theorem classifyWrapper_within (hself : ∀ mode, Confines a S fun op => self (op, mode))
    (h : a.Within S cx.arena) (hexpr : S expr) (hn : cx.arena.find? expr = some n)
    {operand : NodeId} (hk : n.kind = .unary .viewConvert operand) (hw : n.wrapped? = some operand)
    (hop : S operand) :
    wlp (classifyWrapper self expr operand mode) (Answers a S) cx := by
  have hflag : n.flags.has .locationWrapper = true := (Node.wrapped?_eq_some_iff.1 hw).1
  refine wlp_classifyWrapper fun loc _ => (hself _ operand cx ⟨h, hop⟩).mono ?_
  rintro r t ⟨ht, hr⟩
  refine ⟨fun _ => ⟨ht, fun hne => absurd rfl hne⟩, fun hne kind hkind =>
    ⟨fun _ => ?_, fun _ => ?_⟩⟩
  · exact (rebuild_within h hn ht hexpr (hk ▸ .wrapper (hr hne) mode.rvalue)
      fun _ _ _ _ => hflag).mono fun _ u hu => ⟨hu, fun _ => hexpr⟩
  · rw [wlp_when]
    split
    · rename_i he
      exact (setSpan_within ht (hr hne) hkind he).mono fun _ u hu => ⟨hu, hr⟩
    · exact ⟨ht, hr⟩

theorem classifyReference_within (hself : ∀ mode, Confines a S fun op => self (op, mode))
    (h : a.Within S cx.arena) (hexpr : S expr) {reference : NodeId} (hop : S reference) :
    wlp (classifyReference self expr reference mode) (Answers a S) cx := by
  refine wlp_classifyReference ((hself _ reference cx ⟨h, hop⟩).mono ?_)
  rintro r t ⟨ht, hr⟩
  exact ⟨fun _ => ⟨ht, fun hne => absurd rfl hne⟩, fun _ _ => ⟨ht, fun _ => hexpr⟩,
    fun hne _ => dereference_within ht (hr hne)⟩

theorem classifyNode_within (cx : Context)
    (hself : ∀ mode, Confines a S fun op => self (op, mode)) (h : a.Within S cx.arena)
    (hexpr : S expr) :
    wlp (classifyNode self expr mode) (Answers a S) cx := by
  refine wlp_classifyNode fun n hn => ?_
  have hreads : ∀ op ∈ n.readOperands, S op := h.reads expr n hn hexpr
  refine
    { component := fun object field hk => ?_
      comma := fun lhs rhs loc hk => ?_
      cond := fun first second third hk => ?_
      reference := fun pointer hk _ => ?_
      wrapper := fun operand hk hw => ?_
      transparent := fun op operand hk htransparent _ => ?_
      keep := fun _ _ => ⟨h, fun _ => hexpr⟩ }
  · exact exchanged_within (hself mode) h hexpr hn h (hreads _ (Node.mem_readOperands_component hk))
      (fun r hr => hk ▸ .component hr) (by simp)
  · exact exchanged_within (hself _) h hexpr hn h (hreads _ (Node.mem_readOperands_comma hk))
      (fun r hr => hk ▸ .comma hr) (by simp)
  · refine (mapM_within (hself mode) h fun op ho =>
      hreads op (Node.mem_readOperands_second hk ho)).mono ?_
    rintro o t ⟨ht, ho⟩
    refine ⟨fun _ => ⟨ht, fun hne => absurd rfl hne⟩, fun hne => ?_⟩
    exact exchanged_within (hself mode) h hexpr hn ht (hreads _ (Node.mem_readOperands_third hk))
      (fun r hr => hk ▸ .cond (ho hne) hr) (by simp)
  · exact classifyReference_within hself h hexpr
      (hreads _ (Node.mem_readOperands_unary hk rfl))
  · exact classifyWrapper_within hself h hexpr hn hk hw
      (hreads _ (Node.mem_readOperands_unary hk rfl))
  · have hop : operand ∈ n.readOperands :=
      Node.mem_readOperands_unary hk (UnaryOp.readsOperand_of_isTransparent htransparent)
    refine exchanged_within (hself mode) h hexpr hn h (hreads _ hop)
      (fun r hr => hk ▸ .transparent htransparent hr) fun r _ hv => ?_
    cases hv
    cases htransparent

theorem rejectBuiltin_within (h : a.Within S cx.arena) (loc : Span) :
    wlp (rejectBuiltin expr loc) (Answers a S) cx := by
  unfold rejectBuiltin Pass.error
  simp only [wlp_bind, wlp_query, wlp_location, wlp_modify, wlp_pure]
  exact fun _ _ _ _ _ _ => ⟨h, fun hne => absurd rfl hne⟩

theorem classifyUseStep_within (hself : ∀ mode, Confines a S fun op => self (op, mode))
    (h : a.Within S cx.arena) (hexpr : S expr) :
    wlp (classifyUseStep self (expr, mode)) (Answers a S) cx := by
  refine wlp_classifyUseStep_cases (fun _ => ⟨h, fun _ => hexpr⟩)
    (fun _ _ => rejectBuiltin_within h _) fun _ _ => ?_
  exact (read_within h hexpr).mono fun _ t ht span =>
    wlp_nested (Q := fun r b => a.Within S b ∧ (r ≠ .error → S r))
      (fun inner => classifyNode_within { t with nesting := inner } hself ht hexpr)
      ⟨ht, fun hne => absurd rfl hne⟩

end Uses

/-- A classified use stays in a set that nothing read along leads out of. -/
theorem classifyUse_within {mode : UseMode} (h : a.Within S cx.arena) (hexpr : S expr) :
    wlp (classifyUse expr mode) (Answers a S) cx :=
  wlp_recursively_of (P := fun cx (p : NodeId × UseMode) => a.Within S cx.arena ∧ S p.1)
    (Q := fun _ _ => Answers a S)
    (fun _ hself _ _ hp => classifyUseStep_within (fun mode op => hself (op, mode)) hp.1 hp.2)
    ⟨h, hexpr⟩

/-! ### Discarded uses -/

theorem discardedRvalueUse_within (h : a.Within S cx.arena) (hexpr : S expr) :
    wlp (discardedRvalueUse expr) (Answers a S) cx := by
  unfold discardedRvalueUse
  rw [wlp_bind, wlp_get]
  exact classifyUse_within h hexpr

theorem classifyDiscardedNode_within {self : NodeId → Pass NodeId} (cx : Context)
    (hself : Confines a S self) (h : a.Within S cx.arena) (hexpr : S expr) :
    wlp (classifyDiscardedNode self expr) (Answers a S) cx := by
  refine wlp_classifyDiscardedNode fun n hn => ?_
  have hreads : ∀ op ∈ n.readOperands, S op := h.reads expr n hn hexpr
  refine
    { cond := fun first second third hk => ?_
      comma := fun lhs rhs hk => ?_
      use := fun _ _ => discardedRvalueUse_within h hexpr
      keep := fun _ _ => ⟨h, fun _ => hexpr⟩ }
  · refine (hself third cx ⟨h, hreads _ (Node.mem_readOperands_third hk)⟩).mono ?_
    rintro r t ⟨ht, hr⟩
    refine (mapM_within hself ht fun op ho =>
      hreads op (Node.mem_readOperands_second hk ho)).mono ?_
    rintro o u ⟨hu, ho⟩
    refine ⟨fun _ => ⟨hu, fun hne => absurd rfl hne⟩, fun hne hne' => ?_⟩
    exact (rebuild_within h hn hu hexpr (hk ▸ .cond (ho hne') (hr hne)) (by simp [hk])).mono
      fun _ v hv => ⟨hv, fun _ => hexpr⟩
  · refine (hself rhs cx ⟨h, hreads _ (Node.mem_readOperands_comma hk)⟩).mono ?_
    rintro r t ⟨ht, hr⟩
    refine ⟨fun _ => ⟨ht, fun hne => absurd rfl hne⟩, fun hne => ?_⟩
    exact (rebuild_within h hn ht hexpr (hk ▸ .comma (hr hne)) (by simp [hk])).mono
      fun _ u hu => ⟨hu, fun _ => hexpr⟩

theorem classifyDiscardedStep_within {self : NodeId → Pass NodeId} (hself : Confines a S self)
    (h : a.Within S cx.arena) (hexpr : S expr) :
    wlp (classifyDiscardedStep self expr) (Answers a S) cx := by
  unfold classifyDiscardedStep
  simp only [wlp_bind, wlp_query]
  intro inner hinner span _
  exact wlp_nested (Q := fun r b => a.Within S b ∧ (r ≠ .error → S r))
    (fun level => classifyDiscardedNode_within { cx with nesting := level } hself h
      (h.stripped hexpr hinner))
    ⟨h, fun hne => absurd rfl hne⟩

theorem classifyDiscarded_within (h : a.Within S cx.arena) (hexpr : S expr) :
    wlp (classifyDiscarded expr) (Answers a S) cx :=
  wlp_recursively_of (P := fun cx op => a.Within S cx.arena ∧ S op) (Q := fun _ _ => Answers a S)
    (fun _ hself _ _ hp => classifyDiscardedStep_within hself hp.1 hp.2) ⟨h, hexpr⟩

end Pass

end ExprTree
