import ExprTree.Proofs.ClassifiedRuns

/-!
# Refused functions

A use that refuses functions which can only be called refuses every one that it meets, bare or in a
location wrapper.  The refusal is reported, and answered with the error node; each use around it
hands the error node on and looks at nothing else, so there is no second report.

* `Pass.Refuses` — at most one report, which the error node goes with.
* `Arena.Accepts` — arenas in which only nodes have changed whose use meets no such function.
* `Arena.Classified.callless` — a use with another answer has met none.
* `Pass.classifyUse_refusals` — refusals are complete, and reported once.
-/

namespace ExprTree

namespace Pass

open ExprTree.Action

variable {α : Type} {cx t u : Context} {expr op r : NodeId} {mode : UseMode} {rejects : Bool}

/-! ### One report -/

/-- A pass that reports no refusal. -/
def KeepsRefusals (p : Pass α) : Prop :=
  ∀ cx, wlp p (fun _ t => t.queue.reports .uncalledBuiltin = cx.queue.reports .uncalledBuiltin) cx

theorem reports_tooDeeplyNested (q : Queue) (span : Span) (limit : Nat) :
    (q.offerError (.tooDeeplyNested span limit)).2.reports .uncalledBuiltin =
      q.reports .uncalledBuiltin := by
  rw [Queue.reports_offerError, if_neg (fun h => nomatch h.1), Nat.add_zero]

theorem keepsRefusals_twins : Twins fun {α} (p _ : Pass α) => KeepsRefusals p where
  ask _ _ := wlp_ask.2 fun _ _ => rfl
  bind hp hf cx := wlp_bind.2 ((hp cx).mono fun r t ht => (hf r t).mono fun _ _ hu => hu.trans ht)
  edit _ _ := wlp_edit.2 fun _ _ _ => rfl
  nested hp _ := wlp_level (fun _ _ => (hp _).mono fun _ _ ht _ _ => ht)
    fun _ _ => reports_tooDeeplyNested _ _ _

/-- Nothing has been refused, or once, in a use that refuses functions and answers with the error
node. -/
def Refuses (cx : Context) (rejects : Bool) (r : NodeId) (t : Context) : Prop :=
  t.queue.reports .uncalledBuiltin = cx.queue.reports .uncalledBuiltin ∨
    t.queue.reports .uncalledBuiltin = cx.queue.reports .uncalledBuiltin + 1 ∧
      rejects = true ∧ r = .error

theorem Refuses.eq_of_ne (h : Refuses cx rejects r t) (hr : r ≠ .error) :
    t.queue.reports .uncalledBuiltin = cx.queue.reports .uncalledBuiltin := by
  rcases h with h | ⟨-, -, he⟩
  · exact h
  · exact absurd he hr

theorem Refuses.after (h : Refuses t rejects r u)
    (ht : t.queue.reports .uncalledBuiltin = cx.queue.reports .uncalledBuiltin) :
    Refuses cx rejects r u := by
  unfold Refuses
  rw [← ht]
  exact h

/-- A refusal is reported once, if the queue keeps it. -/
theorem refuses_rejectBuiltin {loc : Span} (hrejects : rejects = true) :
    wlp (rejectBuiltin expr loc) (Refuses cx rejects) cx := by
  unfold rejectBuiltin Pass.error
  simp only [wlp_bind, wlp_query, wlp_location, wlp_modify, wlp_pure]
  intro target _ name _ span _
  simp only [Refuses, Context.reportError, Queue.reports_offerError]
  split
  · exact .inr ⟨rfl, hrejects, trivial⟩
  · exact .inl rfl

section Refuses

variable {self : NodeId × UseMode → Pass NodeId}
  (hself : ∀ op (mode' : UseMode) cx, mode'.rejectBuiltin = mode.rejectBuiltin →
    wlp (self (op, mode')) (Refuses cx mode.rejectBuiltin) cx)
include hself

/-- The operand in the place of the value may be refused; what comes behind it is not looked at
then. -/
theorem refuses_exchanged {mode' : UseMode} {f : NodeId → NodeKind}
    (hmode : mode'.rejectBuiltin = mode.rejectBuiltin)
    (ht : t.queue.reports .uncalledBuiltin = cx.queue.reports .uncalledBuiltin) :
    wlp (self (op, mode'))
      (OrError (fun r => replaceKind expr (f r)) (Refuses cx mode.rejectBuiltin)) t := by
  refine (hself op mode' t hmode).mono fun r u hu => ⟨fun hr => ?_, fun hr => ?_⟩
  · exact hr ▸ hu.after ht
  · refine (keepsRefusals_twins.replaceKind expr (f r) u).mono fun _ v hv => .inl ?_
    rw [hv, hu.eq_of_ne hr, ht]

theorem refuses_classifyNode (cx : Context) :
    wlp (classifyNode self expr mode) (Refuses cx mode.rejectBuiltin) cx := by
  refine wlp_classifyNode fun n _ =>
    { component := fun _ _ _ => refuses_exchanged hself rfl rfl
      comma := fun _ _ _ _ => refuses_exchanged hself rfl rfl
      cond := fun first second third _ => ?_
      reference := fun pointer _ _ => ?_
      wrapper := fun operand _ _ => ?_
      transparent := fun _ _ _ _ _ => refuses_exchanged hself rfl rfl
      keep := fun _ _ => .inl rfl }
  · rw [wlp_mapM]
    cases second with
    | none => exact ⟨nofun, fun _ => refuses_exchanged hself rfl rfl⟩
    | some op =>
      refine (hself op mode cx rfl).mono fun r t ht => ⟨fun hr => ?_, fun hr => ?_⟩
      · exact Option.some.inj hr ▸ ht
      · exact refuses_exchanged hself rfl (ht.eq_of_ne fun he => hr (he ▸ rfl))
  · refine wlp_classifyReference ((hself pointer { mode with rvalue := true, read := true } cx
      rfl).mono fun r t ht =>
      ⟨fun hr => hr ▸ ht, fun hr _ => .inl (ht.eq_of_ne hr), fun hr _ => ?_⟩)
    exact (keepsRefusals_twins.dereference r t).mono fun _ u hu =>
      .inl (hu.trans (ht.eq_of_ne hr))
  · refine wlp_classifyWrapper fun loc _ => (hself operand { mode with loc } cx rfl).mono
      fun r t ht => ⟨fun hr => hr ▸ ht, fun hr kind _ => ⟨fun _ => ?_, fun _ => ?_⟩⟩
    · exact (keepsRefusals_twins.rebuild expr _ t).mono fun _ u hu =>
        .inl (hu.trans (ht.eq_of_ne hr))
    · rw [wlp_when]
      split
      · exact wlp_edit.2 fun _ _ _ => .inl (ht.eq_of_ne hr)
      · exact .inl (ht.eq_of_ne hr)

theorem refuses_classifyUseStep (cx : Context) :
    wlp (classifyUseStep self (expr, mode)) (Refuses cx mode.rejectBuiltin) cx := by
  refine wlp_classifyUseStep_cases (fun _ => .inl rfl)
    (fun _ hrejected => refuses_rejectBuiltin ?_) fun _ _ => ?_
  · unfold Arena.isRejected at hrejected
    split at hrejected
    · assumption
    · cases hrejected
  · have hread : KeepsRefusals (when mode.read (recordRead expr)) :=
      @Twins.when _ keepsRefusals_twins (recordRead expr) (recordRead expr)
        (keepsRefusals_twins.recordRead expr) mode.read
    refine (hread cx).mono fun _ t ht span => wlp_level (fun inner _ => ?_)
      fun _ _ => .inl ((reports_tooDeeplyNested _ _ _).trans ht)
    exact (refuses_classifyNode hself { t with nesting := inner }).mono
      fun r u hu _ _ => Refuses.after hu ht

end Refuses

theorem refuses_classifyUse : wlp (classifyUse expr mode) (Refuses cx mode.rejectBuiltin) cx :=
  wlp_recursively (Q := fun cx (p : NodeId × UseMode) => Refuses cx p.2.rejectBuiltin)
    (fun _ hself _ cx => refuses_classifyUseStep
      (fun op mode' cx hmode => hmode ▸ hself (op, mode') cx) cx) (expr, mode) cx

end Pass

/-! ### All refusals -/

namespace Arena

variable {R : Recording} {a b c d : Arena} {expr id r : NodeId} {m : Node} {room : Nat}
  {mode : UseMode}

/-- The use of an expression meets no function that can only be called. -/
def Callless (a : Arena) (expr : NodeId) : Prop :=
  ∀ id, a.UsedAlong expr id → a.namesBuiltin id ≠ .ok true

/-- Only nodes have changed whose use meets no function that can only be called. -/
def Accepts (a b : Arena) : Prop :=
  a.Evolves b ∧ ∀ id n m, a.find? id = some n → b.find? id = some m →
    m.kind = n.kind ∨ a.Callless id

theorem Accepts.refl (a : Arena) : a.Accepts a :=
  ⟨.refl a, fun _ _ _ hn hm => .inl (by cases hn.symm.trans hm; rfl)⟩

/-- A node of which this is true may change. -/
theorem Accepts.step (h : a.Accepts b) (hbc : b.Evolves c) (hkinds : KeepsKinds (· ≠ expr) b c)
    (hexpr : a.Callless expr) : a.Accepts c := by
  refine ⟨h.1.trans hbc, fun id n m hn hm => ?_⟩
  by_cases hid : id = expr
  · exact .inr (hid ▸ hexpr)
  · obtain ⟨k, hk, -⟩ := h.1.node id n hn
    obtain ⟨m', hm', hmk⟩ := hkinds id k hid hk
    cases hm.symm.trans hm'
    exact (h.2 id n k hn hk).imp_left hmk.trans

theorem Accepts.marked (h : a.Accepts b) (hbc : b.Marked c) : a.Accepts c := by
  refine ⟨h.1.trans hbc.evolves, fun id n m hn hm => ?_⟩
  obtain ⟨k, hk, hmk⟩ := hbc.kind_eq hm
  exact (h.2 id n k hn hk).imp_left hmk.trans

/-- Nothing that a use meets is refused if the node itself is not, and nothing that the uses of its
operands meet. -/
theorem Accepts.callless (h : a.Accepts b) (hm : b.find? id = some m)
    (hname : b.namesBuiltin id = .ok false) (hops : ∀ op ∈ b.useOperands m, a.Callless op) :
    a.Callless id := by
  intro x hx
  obtain ⟨hab, hkind⟩ := h
  obtain ⟨n, hn⟩ := exists_find?_of_not_erroneous hx.expr_not_erroneous
  rcases hkind id n m hn hm with hk | hdone
  · rcases hx.cases_head hn with rfl | ⟨op, hop, hx⟩
    · intro hbuiltin
      cases (hab.namesBuiltin hn hm (hab.wrapped?_eq hn hm hk) hbuiltin).symm.trans hname
    · exact hops op (hab.mem_useOperands hk hop) x hx
  · exact hdone x hx

/-- A node that has been entered by a use that refuses functions is none that can only be called. -/
theorem Enters.namesBuiltin (hR : R.Marks) (h : Enters R room mode a expr m b)
    (hrejects : mode.rejectBuiltin = true) : b.namesBuiltin expr = .ok false := by
  have hname : a.namesBuiltin expr = .ok false := by
    have hadmitted := h.admitted
    rwa [isRejected, if_pos hrejects] at hadmitted
  have hmark := h.marked hR
  obtain ⟨n, hn⟩ := exists_find?_of_not_erroneous h.accepted
  obtain ⟨m', hm', hmn⟩ := hmark.find? hn
  cases h.node.symm.trans hm'
  refine hmark.evolves.namesBuiltin hn h.node ?_ hname
  rw [← m.wrapped?_unread, hmn, n.wrapped?_unread]

/-- A use that refuses functions, and answers with another node than the error node, has met
none. -/
theorem Classified.callless (hR : R.Marks) (h : Classified R room mode b expr c r)
    (hrejects : mode.rejectBuiltin = true) (hab : a.Accepts b) : a.Accepts c ∧ a.Callless expr := by
  induction h with
  | erroneous herr =>
    refine ⟨hab, fun x hx => ?_⟩
    cases herr.symm.trans (hab.1.isErroneous hx.expr_not_erroneous)
  | rest h hops =>
    have hac := hab.marked (h.marked hR)
    refine ⟨hac, hac.callless h.node (h.namesBuiltin hR hrejects) fun op hop => ?_⟩
    rw [hops] at hop
    cases hop
  | node h hops hop hd ih =>
    have hac := hab.marked (h.marked hR)
    obtain ⟨had, hcall⟩ := ih (by rwa [UseMode.rejectBuiltin_below]) hac
    have hexpr := hac.callless h.node (h.namesBuiltin hR hrejects) fun op hop => by
      rw [hops] at hop
      exact List.mem_singleton.1 hop ▸ hcall
    obtain ⟨m, hm, hnm⟩ := (hop.evolves hR).node _ _ h.node
    exact ⟨had.step (hd.evolves hR hm hnm.skeleton_eq) (hd.keepsKinds hR fun hne => hne rfl) hexpr,
      hexpr⟩
  | cond h hk hsecond hthird he ihsecond ihthird =>
    have hac := hab.marked (h.marked hR)
    obtain ⟨hasecond, hcall⟩ := ihsecond hrejects hac
    obtain ⟨hathird, hcall'⟩ := ihthird hrejects hasecond
    have hexpr := hac.callless h.node (h.namesBuiltin hR hrejects) fun op hop => by
      rw [mem_useOperands_cond hk] at hop
      rcases List.mem_pair.1 hop with rfl | rfl
      · exact hcall
      · exact hcall'
    obtain ⟨m, hm, hnm⟩ := ((hsecond.evolves hR).trans (hthird.evolves hR)).node _ _ h.node
    refine ⟨hathird.step (evolves_replaced he hm ?_)
      (keepsKinds_replaced he fun hne => hne rfl) hexpr, hexpr⟩
    rw [hnm.skeleton_eq, hk]
    rfl

end Arena

namespace Pass

open ExprTree.Action

variable {cx t : Context} {expr r : NodeId} {mode : UseMode}

/-- A use reports at most one function that it refuses.  If it does, it has been asked to refuse
functions, and answers with the error node.  If it has been asked to, and answers with another node,
then neither the expression nor an operand whose use is part of its use names such a function, bare
or in a location wrapper. -/
theorem classifyUse_refusals (hrun : classifyUse expr mode cx = .ok r t) :
    ((classifyUse expr mode).added cx).countP (fun d => d.code == .uncalledBuiltin) ≤ 1 ∧
    (∀ d ∈ (classifyUse expr mode).added cx, d.code = .uncalledBuiltin →
      mode.rejectBuiltin = true ∧ r = .error) ∧
    (mode.rejectBuiltin = true → r ≠ .error → ∀ id, cx.arena.UsedAlong expr id →
      cx.arena.namesBuiltin id ≠ .ok true) := by
  have hlaw : Law (OnlyAdds fun _ => True) := onlyAdds_law fun _ _ => trivial
  have hadded := (hlaw.classifyUse expr mode).appends.diagnostics_last cx
  rw [last_eq_of_ok hrun] at hadded
  have hcount : t.queue.reports .uncalledBuiltin = cx.queue.reports .uncalledBuiltin +
      ((classifyUse expr mode).added cx).countP fun d => d.code == .uncalledBuiltin :=
    (congrArg (List.countP _) hadded).trans List.countP_append
  have hrefuses : Refuses cx mode.rejectBuiltin r t := refuses_classifyUse r t hrun
  refine ⟨?_, fun d hd hcode => ?_, fun hrejects hne => ?_⟩
  · rcases hrefuses with h | ⟨h, -, -⟩ <;> omega
  · have hpos : 0 < ((classifyUse expr mode).added cx).countP fun d => d.code == .uncalledBuiltin :=
      List.countP_pos_iff.2 ⟨d, hd, by simp [hcode]⟩
    rcases hrefuses with h | ⟨-, hrejects, hr⟩
    · omega
    · exact ⟨hrejects, hr⟩
  · have hderives := (classifyUse_derives recordsAs_marked r t hrun).2 trivial hne
    exact (hderives.callless (fun _ _ _ _ h => h) hrejects (.refl _)).2

end Pass

/-- The arena of `1 ? f : f` and of `f, 1`, its last two nodes, where `f` is a function that can
only be called, in a location wrapper. -/
def Arena.uncalled : Arena :=
  { Arena.initial with
    nodes := Arena.initial.nodes ++ #[
      ⟨.functionType .intType .empty, none, .empty, .unknown⟩,
      ⟨.decl .func (.named ⟨1⟩), some ⟨6⟩, .single .builtinOnly, .unknown⟩,
      ⟨.unary .viewConvert ⟨7⟩, some ⟨6⟩, .single .locationWrapper, ⟨1, 2⟩⟩,
      ⟨.intConst 1, some .intType, .empty, .unknown⟩,
      ⟨.cond ⟨9⟩ (some ⟨8⟩) ⟨8⟩, some ⟨6⟩, .empty, .unknown⟩,
      ⟨.comma ⟨8⟩ ⟨9⟩, some .intType, .empty, .unknown⟩] }

namespace Pass

open ExprTree.Action

/-- Of two branches that are refused the first is reported; of a comma the left operand is not
used. -/
theorem classifyUse_refusals_uncalled :
    let cx := Context.ofArena .uncalled ⟨16, .unlimited⟩
    let mode : UseMode := ⟨true, true, .unknown, true⟩
    (∃ t, classifyUse ⟨10⟩ mode cx = .ok .error t ∧
      ((classifyUse ⟨10⟩ mode).added cx).countP (fun d => d.code == .uncalledBuiltin) = 1) ∧
    ∃ t, classifyUse ⟨11⟩ mode cx = .ok ⟨11⟩ t ∧
      ∀ id, cx.arena.UsedAlong ⟨11⟩ id → cx.arena.namesBuiltin id ≠ .ok true := by
  intro cx mode
  obtain ⟨t, ht⟩ := answer?_eq_some_iff.1
    (show (classifyUse ⟨10⟩ mode).answer? cx = some .error by decide +kernel)
  obtain ⟨u, hu⟩ := answer?_eq_some_iff.1
    (show (classifyUse ⟨11⟩ mode).answer? cx = some ⟨11⟩ by decide +kernel)
  have hreported : ∃ d ∈ (classifyUse ⟨10⟩ mode).added cx, (d.code == .uncalledBuiltin) = true := by
    decide +kernel
  exact ⟨⟨t, ht, Nat.le_antisymm (classifyUse_refusals ht).1 (List.countP_pos_iff.2 hreported)⟩,
    u, hu, (classifyUse_refusals hu).2.2 rfl (by decide)⟩

end Pass

end ExprTree
