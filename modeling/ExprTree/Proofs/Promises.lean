import ExprTree.Proofs.Reduction
import ExprTree.Proofs.Trace

/-!
# Promised traces

What the nodes of an arena did before passes changed it is promised; passes keep the promises.  A
node that stands for an expression promises what the expression does, and a new node promises what
the node does in whose place it was built.

* `Promise` — traces of nodes, each with a height that is enough for it.
* `Arena.Keeps` — nodes do what is promised, operands first.
* `Arena.Keeps.trace?_eq` — what is promised is the trace.
* `Reading.promises`, `Reading.promises_lawful` — the elementary rewrites keep promises.
-/

namespace ExprTree

/-- Traces that nodes have up to a height. -/
abbrev Promise := NodeId → Nat → List Event → Prop

/-- A new node also promises what an old one does. -/
def Promise.extend (v : Promise) (old new : NodeId) : Promise := fun id h es =>
  v id h es ∨ id = new ∧ v old h es

namespace Arena

variable {a b : Arena} {o : Oracle} {v w : Promise} {n m : Node} {id s r t : NodeId} {h : Nat}
  {es : List Event} {k k' : NodeKind}

/-- It is known whether a node accesses a volatile object, and a dereferenced pointer is there. -/
structure Anchored (a : Arena) (n : Node) : Prop where
  access : ∃ volatile, a.accessesVolatile n = .ok volatile
  pointer : ∀ pointer, n.kind = .unary .deref pointer → (a.find? pointer).isSome = true

theorem Anchored.of_derivedFlags {f : NodeFlags} (hf : a.derivedFlags n = .ok f) :
    a.Anchored n := by
  obtain ⟨volatile, _, hv, -⟩ := derivedFlags_eq_ok_iff.1 hf
  exact ⟨⟨volatile, hv⟩, fun _ hk => isSome_pointer hf hk⟩

theorem Anchored.congr (h : a.Anchored n) (hk : m.kind = n.kind) (ht : m.type = n.type) :
    a.Anchored m := by
  refine ⟨?_, fun pointer hm => h.pointer pointer (hk ▸ hm)⟩
  obtain ⟨volatile, hv⟩ := h.access
  refine ⟨volatile, ?_⟩
  rw [← hv]
  unfold accessesVolatile
  rw [hk, ht]

theorem Anchored.mono (hab : a.Evolves b) (h : a.Anchored n) : b.Anchored n := by
  obtain ⟨volatile, hv⟩ := h.access
  exact ⟨⟨volatile, accessesVolatile_mono (fun _ _ => hab.isVolatile) hv⟩,
    fun pointer hk => hab.isSome (h.pointer pointer hk)⟩

theorem Anchored.rewritten {R : NodeId → NodeId → Prop} (hk : k.Rewritten R k')
    (h : a.Anchored { n with kind := k }) : a.Anchored { n with kind := k' } := by
  obtain ⟨volatile, hv⟩ := h.access
  refine ⟨⟨volatile, ?_⟩, fun pointer hd => absurd hd (hk.ne_deref pointer)⟩
  rw [← hv]
  simp only [accessesVolatile, hk.class_eq.1]

theorem Supports.evolve (hs : a.Supports o v id n h es) (hab : a.Evolves b) (hn : a.Anchored n)
    (hvw : ∀ op es, v op h es → w op h es) : b.Supports o w id n h es := by
  obtain ⟨volatile, hv⟩ := hn.access
  exact hs.mono hab.lists_eq hv (accessesVolatile_mono (fun _ _ => hab.isVolatile) hv) hvw

/-! ### Kept promises -/

/-- Nodes do what is promised, operands first, and a node without an effect promises nothing. -/
structure Keeps (a : Arena) (o : Oracle) (v : Promise) : Prop where
  typed : a.WellTyped
  anchored : ∀ id n, a.find? id = some n → a.Anchored n
  mono : ∀ {id h k es}, h ≤ k → v id h es → v id k es
  supported : ∀ {id h es}, v id h es →
    ∃ n k, a.find? id = some n ∧ h = k + 1 ∧ a.Supports o v id n k es
  quiet : ∀ {id h es}, a.hasEffect id = .ok false → v id h es → es = []
  void : ∀ h, v .void (h + 1) []

/-- What is promised is the trace. -/
theorem Keeps.trace?_eq (hv : a.Keeps o v) (he : v id h es) : a.trace? o h id = some es := by
  induction h generalizing id es with
  | zero =>
    obtain ⟨_, _, -, hk, -⟩ := hv.supported he
    cases hk
  | succ h ih =>
    obtain ⟨n, k, hn, hk, ops, ess, hops, hess, rfl⟩ := hv.supported he
    cases hk
    exact trace?_succ_eq_some_iff.2 ⟨n, hn, ops, ess, hops, hess.imp fun _ _ => ih, rfl⟩

theorem Keeps.isSome (hv : a.Keeps o v) (he : v id h es) : (a.find? id).isSome = true := by
  obtain ⟨n, _, hn, -⟩ := hv.supported he
  rw [hn]
  rfl

theorem Keeps.succ (hv : a.Keeps o v) (he : v id h es) : v id (h + 1) es :=
  hv.mono (Nat.le_succ h) he

/-- A node without a derived effect does nothing where its operands without effects do nothing. -/
theorem Supports.eq_nil {f : NodeFlags} (hs : a.Supports o v id n h es) (hab : a.EffectsAgree b)
    (hf : b.derivedFlags n = .ok f) (hfe : f.has .effect = false)
    (hn : a.Anchored n)
    (hop : ∀ op es, v op h es → ∃ e, a.hasEffect op = .ok e ∧ (e = false → es = [])) :
    es = [] := by
  obtain ⟨ops, ess, hops, hess, rfl⟩ := hs
  rw [Bool.eq_false_iff, ne_eq, has_effect_derivedFlags hf, not_or, not_or] at hfe
  obtain ⟨hown, hvol, hinh⟩ := hfe
  -- an evaluated operand that does something would hand its effect on
  have hquiet : ess.flatten = [] := by
    refine List.flatten_eq_nil_iff.2 fun es hes => ?_
    obtain ⟨i, hi, rfl⟩ := List.getElem_of_mem hes
    have hi' : i < ops.length := hess.length_eq ▸ hi
    obtain ⟨e, he, hnil⟩ := hop _ _ (hess.get hi' hi)
    refine hnil (Bool.eq_false_iff.2 fun htrue => hinh ?_)
    obtain ⟨hun, all, hall, hmem⟩ := mem_of_evaluated? hops (List.getElem_mem hi')
    exact ⟨hun, all, hab.handles _ _ hall, _, hmem, hab.hasEffect _ _ (htrue ▸ he)⟩
  obtain ⟨volatile, hv⟩ := hn.access
  have hv' : volatile = false := Bool.eq_false_iff.2 fun htrue =>
    hvol (accessesVolatile_eq_true (accessesVolatile_mono hab.isVolatile (htrue ▸ hv)))
  rw [hquiet, ownEvents_eq_nil (Bool.eq_false_iff.2 hown) (hv' ▸ hv)]
  rfl

/-- Operands do nothing where they have no effect. -/
theorem Keeps.quiet_operand (hv : a.Keeps o v) (op : NodeId) (es : List Event) (he : v op h es) :
    ∃ e, a.hasEffect op = .ok e ∧ (e = false → es = []) := by
  obtain ⟨n, -, hn, -⟩ := hv.supported he
  have heff : a.hasEffect op = .ok (n.flags.has .effect) := hasEffect_eq_ok_iff.2 ⟨n, hn, rfl⟩
  exact ⟨_, heff, fun hfalse => hv.quiet (hfalse ▸ heff) he⟩

/-! ### Nodes that promise the same -/

/-- Two handles are the same, or the second promises what the first does. -/
def Covers (a : Arena) (v : Promise) (s r : NodeId) : Prop :=
  s = r ∨ (a.find? s).isSome = true ∧ ∀ h es, v s h es → v r h es

/-- An arena continues another and its promises: nothing new is promised by an old node. -/
structure Continues (a : Arena) (v : Promise) (b : Arena) (w : Promise) : Prop where
  isSome : ∀ {id}, (a.find? id).isSome = true → (b.find? id).isSome = true
  keep : ∀ {id h es}, v id h es → w id h es
  old : ∀ {id h es}, (a.find? id).isSome = true → w id h es → v id h es

theorem Covers.apply (hc : a.Covers v s r) (he : v s h es) : v r h es := by
  rcases hc with rfl | ⟨-, hc⟩
  · exact he
  · exact hc h es he

theorem Covers.trans (hc : a.Covers v s r) (hc' : a.Covers v r t) : a.Covers v s t := by
  rcases id hc with rfl | ⟨hs, -⟩
  · exact hc'
  · exact .inr ⟨hs, fun _ _ he => hc'.apply (hc.apply he)⟩

theorem Covers.mono (hab : a.Continues v b w) (hc : a.Covers v s r) : b.Covers w s r := by
  rcases id hc with rfl | ⟨hs, -⟩
  · exact .inl rfl
  · exact .inr ⟨hab.isSome hs, fun _ _ he => hab.keep (hc.apply (hab.old hs he))⟩

theorem Continues.refl (a : Arena) (v : Promise) : a.Continues v a v := ⟨id, id, fun _ => id⟩

theorem Continues.trans {c : Arena} {u : Promise} (h : a.Continues v b w)
    (h' : b.Continues w c u) : a.Continues v c u :=
  ⟨fun hs => h'.isSome (h.isSome hs), fun he => h'.keep (h.keep he),
    fun hs he => h.old hs (h'.old (h.isSome hs) he)⟩

/-- A node of an exchanged kind does what the node did, if the exchanged operands do. -/
theorem Supports.rewritten {R : NodeId → NodeId → Prop} (hk : k.Rewritten R k')
    (hR : ∀ s r, R s r → a.Covers v s r) (hs : a.Supports o v id { n with kind := k } h es) :
    a.Supports o v id { n with kind := k' } h es := by
  obtain ⟨ops, ess, hops, hess, rfl⟩ := hs
  obtain ⟨ops', hops', hall⟩ := evaluated?_rewritten hk hops
  refine ⟨ops', ess, hops', ?_, by rw [ownEvents_rewritten hk]⟩
  -- operand by operand, each the same or one that promises the same
  clear hops hops'
  induction hall generalizing ess with
  | nil => exact hess
  | cons hsr _ ih =>
    cases hess with
    | cons he hess =>
      refine .cons ?_ (ih _ hess)
      rcases hsr with rfl | hsr
      · exact he
      · exact (hR _ _ hsr).apply he

/-- An operator without an effect of its own does what its operand does. -/
theorem Keeps.unary (hv : a.Keeps o v) (hn : a.find? s = some n) {op : UnaryOp} {operand : NodeId}
    (hk : n.kind = .unary op operand) (hun : n.kind.isUnevaluated = false)
    (hvol : a.accessesVolatile n = .ok false) : a.Covers v s operand := by
  refine .inr ⟨by rw [hn]; rfl, fun h es he => ?_⟩
  obtain ⟨m, j, hm, rfl, ops, ess, hops, hess, rfl⟩ := hv.supported he
  cases hn.symm.trans hm
  cases (evaluated?_unary hk hun).symm.trans hops
  cases hess with
  | cons hop hess =>
    cases hess
    rw [ownEvents_eq_nil (by rw [hk]; rfl) hvol, List.append_nil, List.flatten_cons,
      List.flatten_nil, List.append_nil]
    exact hv.succ hop

/-! ### Changed and new nodes -/

theorem Evolves.hasEffect_eq_false (hab : a.Evolves b) (hs : (a.find? id).isSome = true)
    (he : b.hasEffect id = .ok false) : a.hasEffect id = .ok false := by
  obtain ⟨n, hn⟩ := Option.isSome_iff_exists.1 hs
  obtain ⟨m, hm, hnm⟩ := hab.node id n hn
  obtain ⟨m', hm', hfalse⟩ := hasEffect_eq_ok_iff.1 he
  cases hm.symm.trans hm'
  refine hasEffect_eq_ok_iff.2 ⟨n, hn, Bool.eq_false_iff.2 fun htrue => ?_⟩
  rw [hnm.flag_mono _ htrue] at hfalse
  cases hfalse

/-- Promises are kept by a node that changes, if it still does what it promises. -/
theorem Keeps.change {f : Node → Node} (hv : a.Keeps o v) (hn : a.find? id = some n)
    (hb : n.Becomes (f n)) (ht : a.Typed (f n)) (ha : a.Anchored (f n))
    (hs : ∀ h es, v id (h + 1) es → a.Supports o v id (f n) h es) :
    (a.change id f).Keeps o v ∧ a.Continues v (a.change id f) v := by
  have hev := evolves_change hn hb
  -- a node and what it supports, before the change
  have hnode : ∀ other m, (a.change id f).find? other = some m → a.Typed m ∧ a.Anchored m ∧
      ∀ h es, v other (h + 1) es → a.Supports o v other m h es := by
    intro other m hm
    rcases find?_change_cases hn hm with ⟨rfl, rfl⟩ | hm
    · exact ⟨ht, ha, hs⟩
    · refine ⟨hv.typed.node _ _ hm, hv.anchored _ _ hm, fun h es he => ?_⟩
      obtain ⟨m', k, hm', hk, hs⟩ := hv.supported he
      cases hm.symm.trans hm'
      cases hk
      exact hs
  refine ⟨⟨⟨fun other m hm => ?_, hev.void hv.typed.void⟩, fun other m hm => ?_, hv.mono,
    fun {other h es} he => ?_, fun hfalse he => ?_, hv.void⟩,
    ⟨hev.isSome, fun he => he, fun _ he => he⟩⟩
  · obtain ⟨ht, ha, -⟩ := hnode other m hm
    exact ht.mono hev.typesAgree ha.pointer
  · exact (hnode other m hm).2.1.mono hev
  · obtain ⟨m, hm⟩ := Option.isSome_iff_exists.1 (hev.isSome (hv.isSome he))
    obtain ⟨-, ha, hs⟩ := hnode other m hm
    obtain ⟨_, k, -, rfl, -⟩ := hv.supported he
    exact ⟨m, k, hm, rfl, (hs k es he).evolve hev ha fun _ _ he => he⟩
  · exact hv.quiet (hev.hasEffect_eq_false (hv.isSome he) hfalse) he

/-- Promises are kept by a new node that does what an old one promises. -/
theorem Keeps.append {flags : NodeFlags} {type : Option NodeId} {span : Span}
    (hv : a.Keeps o v) (expr : NodeId) (hev : a.Evolves (a.append ⟨k, type, flags, span⟩))
    (ht : (a.append ⟨k, type, flags, span⟩).Typed ⟨k, type, flags, span⟩)
    (ha : a.Anchored ⟨k, type, flags, span⟩)
    (hf : (a.append ⟨k, type, .empty, span⟩).derivedFlags ⟨k, type, .empty, span⟩ = .ok flags)
    (hs : ∀ h es, v expr (h + 1) es → a.Supports o v ⟨a.size⟩ ⟨k, type, flags, span⟩ h es) :
    (a.append ⟨k, type, flags, span⟩).Keeps o (v.extend expr ⟨a.size⟩) ∧
      a.Continues v (a.append ⟨k, type, flags, span⟩) (v.extend expr ⟨a.size⟩) := by
  have hnew := find?_append_new a ⟨k, type, flags, span⟩
  have hcont : a.Continues v (a.append ⟨k, type, flags, span⟩) (v.extend expr ⟨a.size⟩) :=
    ⟨hev.isSome, .inl, fun hs he => he.resolve_right fun h => ne_size_of_isSome hs h.1⟩
  refine ⟨⟨⟨fun other m hm => ?_, hev.void hv.typed.void⟩, fun other m hm => ?_,
    fun hk => Or.imp (hv.mono hk) (And.imp_right (hv.mono hk)), ?_, ?_, fun h => .inl (hv.void h)⟩,
    hcont⟩
  · rcases find?_append_cases hm with ⟨-, rfl⟩ | hm
    · exact ht
    · exact (hv.typed.node _ _ hm).mono hev.typesAgree (hv.anchored _ _ hm).pointer
  · rcases find?_append_cases hm with ⟨-, rfl⟩ | hm
    · exact ha.mono hev
    · exact (hv.anchored _ _ hm).mono hev
  · -- the new node supports what the old one promises
    rintro other h es (he | ⟨rfl, he⟩)
    · obtain ⟨m, k, hm, rfl, hs⟩ := hv.supported he
      exact ⟨m, k, find?_append_of_some hm, rfl,
        hs.evolve hev (hv.anchored _ _ hm) fun _ _ => .inl⟩
    · obtain ⟨_, j, -, rfl, -⟩ := hv.supported he
      exact ⟨_, j, hnew, rfl, (hs j es he).evolve hev ha fun _ _ => .inl⟩
  · -- without an effect of its own it is as quiet as its operands
    rintro other h es hfalse (he | ⟨rfl, he⟩)
    · exact hv.quiet (hev.hasEffect_eq_false (hv.isSome he) hfalse) he
    · obtain ⟨_, j, -, rfl, -⟩ := hv.supported he
      obtain ⟨_, hm, hfe⟩ := hasEffect_eq_ok_iff.1 hfalse
      cases hnew.symm.trans hm
      have hf' : (a.append ⟨k, type, .empty, span⟩).derivedFlags ⟨k, type, flags, span⟩ =
          .ok flags := (derivedFlags_congr rfl rfl).trans hf
      exact (hs j es he).eq_nil effectsAgree_append hf' hfe ha hv.quiet_operand

theorem Covers.new (hs : (a.find? s).isSome = true)
    (hb : (b.find? s).isSome = true) : b.Covers (v.extend s ⟨a.size⟩) s ⟨a.size⟩ := by
  refine .inr ⟨hb, fun h es he => .inr ⟨rfl, ?_⟩⟩
  exact he.resolve_right fun h => ne_size_of_isSome hs h.1

end Arena

namespace Reading

open Arena

/-- Arenas that keep promises under an oracle.  A node can stand in the place of another of the
same type if it promises what the other does. -/
def promises (o : Oracle) : Reading Promise where
  Sound a v := a.Keeps o v
  Fits a v id k := ∃ n, a.find? id = some n ∧ a.Typed { n with kind := k } ∧
    a.Anchored { n with kind := k } ∧
    ∀ h es, v id (h + 1) es → a.Supports o v id { n with kind := k } h es
  Stands a v s r := a.SameType s r ∧ a.Covers v s r
  Same a v s r := a.Covers v s r
  Extends a v b w := a.Continues v b w

variable {o : Oracle} {a b : Arena} {v w : Promise} {n : Node} {expr pointer value : NodeId}
  {k k' : NodeKind} {flags : NodeFlags} {span : Span}

theorem promises_fits_mono (h : (promises o).Leads a v b w) (hfit : (promises o).Fits a v expr k) :
    (promises o).Fits b w expr k := by
  obtain ⟨hev, hcont⟩ := h
  obtain ⟨n, hn, ht, ha, hs⟩ := hfit
  obtain ⟨m, hm, hnm⟩ := hev.node expr n hn
  have hflag := hnm.locationWrapper_eq
  refine ⟨m, hm, (ht.mono hev.typesAgree ha.pointer).congr rfl hnm.type_eq hflag,
    (ha.mono hev).congr rfl hnm.type_eq, fun h es he => ?_⟩
  have hv := hs h es (hcont.old (by rw [hn]; rfl) he)
  exact (hv.evolve hev ha fun _ _ => hcont.keep).congr rfl hnm.type_eq

theorem promises_unwrap (hv : a.Keeps o v) (hn : a.find? expr = some n)
    (hw : n.wrapped? = some value) : (promises o).Stands a v expr value := by
  refine ⟨.inr ⟨n.type, map_eq_ok_iff.2 ⟨n, node_eq_ok_iff.2 hn, rfl⟩,
    (hv.typed.node _ _ hn).wrapper value hw⟩, ?_⟩
  rcases (Node.wrapped?_eq_some_iff.1 hw).2 with hk | hk
  · exact hv.unary hn hk (by rw [hk]; rfl) (accessesVolatile_eq_false (by rw [hk]; rfl))
  · exact hv.unary hn hk (by rw [hk]; rfl) (accessesVolatile_eq_false (by rw [hk]; rfl))

theorem promises_access {type : NodeId} (hv : a.Keeps o v) (hn : a.find? expr = some n)
    (hk : n.kind = .unary .deref pointer) (ht : n.type = some type)
    (hvol : a.isVolatile type = .ok false) : a.Covers v expr pointer := by
  refine hv.unary hn hk (by rw [hk]; rfl) ?_
  unfold accessesVolatile
  rw [ht, hk]
  exact hvol

/-- The new dereference accesses an object of the same type. -/
theorem promises_dereference {target : NodeId} (hv : a.Keeps o v)
    (hfit : (promises o).Fits a v expr (.unary .deref pointer))
    (hstand : (promises o).Stands a v pointer value) (hr : a.referent? value = some target)
    (hf : (a.append ⟨.unary .deref value, some target, .empty, span⟩).derivedFlags
      ⟨.unary .deref value, some target, .empty, span⟩ = .ok flags)
    (hev : a.Evolves (a.append ⟨.unary .deref value, some target, flags, span⟩)) :
    ∃ w, (a.append ⟨.unary .deref value, some target, flags, span⟩).Keeps o w ∧
      a.Continues v (a.append ⟨.unary .deref value, some target, flags, span⟩) w ∧
      (promises o).Stands (a.append ⟨.unary .deref value, some target, flags, span⟩) w expr
        ⟨a.size⟩ := by
  obtain ⟨n, hn, ht, ha, hs⟩ := hfit
  obtain ⟨hst, hcov⟩ := hstand
  have htype : n.type = some target := ht.deref pointer target rfl (hst.referent?.symm.trans hr)
  have hvalue : (a.find? value).isSome = true := isSome_of_referent? hr
  have ha' : a.Anchored ⟨.unary .deref value, some target, flags, span⟩ := by
    obtain ⟨volatile, hvol⟩ := ha.access
    refine ⟨⟨volatile, ?_⟩, fun _ hk => by cases hk; exact hvalue⟩
    rw [← hvol]
    simp only [accessesVolatile, htype]
    rfl
  have ht' : (a.append ⟨.unary .deref value, some target, flags, span⟩).Typed
      ⟨.unary .deref value, some target, flags, span⟩ := by
    refine ⟨fun pointer' target' hk hr' => ?_, fun operand hw => ?_⟩
    · cases hk
      rw [hev.referent? hr] at hr'
      exact hr'
    · rcases (Node.wrapped?_eq_some_iff.1 hw).2 with hk | hk <;> cases hk
  obtain ⟨hkeep, hcont⟩ := hv.append expr hev ht' ha' hf fun h es he => by
    obtain ⟨ops, ess, hops, hess, rfl⟩ := hs h es he
    cases (evaluated?_unary (n := { n with kind := .unary .deref pointer }) rfl rfl).symm.trans hops
    cases hess with
    | cons hop hess =>
      cases hess
      refine ⟨[value], _, evaluated?_unary rfl rfl, .cons (hcov.apply hop) .nil, ?_⟩
      rw [ownEvents_deref (n := { n with kind := .unary .deref pointer }) rfl rfl htype rfl]
  have hsome : (a.find? expr).isSome = true := by rw [hn]; rfl
  refine ⟨_, hkeep, hcont, .inr ⟨n.type, ?_, ?_⟩, .new hsome (hev.isSome hsome)⟩
  · exact hev.typeOf (map_eq_ok_iff.2 ⟨n, node_eq_ok_iff.2 hn, rfl⟩)
  · exact map_eq_ok_iff.2 ⟨_, node_eq_ok_iff.2 (find?_append_new ..), htype.symm⟩

/-- The new node has no effect of its own, like the one in whose place it is built. -/
theorem promises_reduce {type : Option NodeId} (hv : a.Keeps o v)
    (hfit : (promises o).Fits a v expr k) (hk : k.Rewritten (a.Covers v) k')
    (hacc : k.accessesObject = false)
    (hf : (a.append ⟨k', type, .empty, span⟩).derivedFlags ⟨k', type, .empty, span⟩ = .ok flags)
    (hev : a.Evolves (a.append ⟨k', type, flags, span⟩)) :
    ∃ w, (a.append ⟨k', type, flags, span⟩).Keeps o w ∧
      a.Continues v (a.append ⟨k', type, flags, span⟩) w ∧
      (a.append ⟨k', type, flags, span⟩).Covers w expr ⟨a.size⟩ := by
  obtain ⟨n, hn, ht, ha, hs⟩ := hfit
  obtain ⟨hacc', -, hown', -⟩ := hk.class_eq
  have hvol : a.accessesVolatile ⟨k', type, flags, span⟩ = .ok false :=
    accessesVolatile_eq_false (hacc'.trans hacc)
  have ha' : a.Anchored ⟨k', type, flags, span⟩ :=
    ⟨⟨false, hvol⟩, fun pointer hd => absurd hd (hk.ne_deref pointer)⟩
  have ht' : (a.append ⟨k', type, flags, span⟩).Typed ⟨k', type, flags, span⟩ := by
    refine ⟨fun pointer _ hd _ => absurd hd (hk.ne_deref pointer), fun operand hw => ?_⟩
    obtain ⟨hw, -⟩ := Node.wrapped?_eq_some_iff.1 hw
    exact absurd (flag_of_has_derivedFlags hf hw) (by decide)
  obtain ⟨hkeep, hcont⟩ := hv.append expr hev ht' ha' hf fun h es he => by
    obtain ⟨ops, ess, hops, hess, rfl⟩ := (hs h es he).rewritten hk fun _ _ h => h
    refine ⟨ops, ess, hops, hess, ?_⟩
    rw [ownEvents_eq_nil hown' hvol,
      ownEvents_eq_nil hown' (accessesVolatile_eq_false (hacc'.trans hacc))]
  have hsome : (a.find? expr).isSome = true := by rw [hn]; rfl
  exact ⟨_, hkeep, hcont, .new hsome (hev.isSome hsome)⟩

theorem promises_lawful (o : Oracle) : (promises o).Lawful where
  extends_refl := .refl
  extends_trans h h' := h.trans h'
  fits_mono := promises_fits_mono
  stands_mono := fun ⟨hev, hcont⟩ ⟨ht, hc⟩ => ⟨ht.mono hev, hc.mono hcont⟩
  same_mono := fun ⟨_, hcont⟩ hc => hc.mono hcont
  stands_refl a _ s := ⟨.refl a s, .inl rfl⟩
  stands_trans h h' := ⟨h.1.trans h'.1, h.2.trans h'.2⟩
  same_of_stands h := h.2
  same_trans h h' := h.trans h'
  fits_self := fun {a v id n} hv hn => by
    refine ⟨n, hn, hv.typed.node _ _ hn, hv.anchored _ _ hn, fun h es he => ?_⟩
    obtain ⟨m, k, hm, hk, hs⟩ := hv.supported he
    cases hn.symm.trans hm
    cases hk
    exact hs
  fits_rewritten := fun ⟨n, hn, ht, ha, hs⟩ hk _ =>
    ⟨n, hn, ht.rewritten hk fun _ _ h => h.1, ha.rewritten hk,
      fun h es he => (hs h es he).rewritten hk fun _ _ h => h.2⟩
  unwrap := promises_unwrap
  touch := fun {a v id n f} hv hn hk ht hf hb _ => by
    refine hv.change hn hb ((hv.typed.node _ _ hn).congr hk ht (hf _ (by decide)))
      ((hv.anchored _ _ hn).congr hk ht) fun h es he => ?_
    obtain ⟨m, j, hm, hj, hs⟩ := hv.supported he
    cases hn.symm.trans hm
    cases hj
    exact hs.congr hk ht
  rebuild := fun {a v id n k flags} hv hn ⟨m, hm, ht, ha, hs⟩ hk hf => by
    cases hn.symm.trans hm
    have hb := becomes_rebuilt hk hf
    exact hv.change hn hb (ht.congr rfl rfl hb.locationWrapper_eq)
      (ha.congr rfl rfl) fun h es he => (hs h es he).congr rfl rfl
  dereference hv hfit hs _ := promises_dereference hv hfit hs
  reference := fun _ hs hp hv => absurd (hs.1.referent?.symm.trans hv) hp
  access hv hn hk ht hvol := promises_access hv hn hk ht hvol
  reduce := promises_reduce
  nothing := fun {a v expr} hv he => by
    obtain ⟨n, hn, -⟩ := hasEffect_eq_ok_iff.1 he
    refine .inr ⟨by rw [hn]; rfl, fun h es hes => ?_⟩
    obtain ⟨_, k, -, rfl, -⟩ := hv.supported hes
    rw [hv.quiet he hes]
    exact hv.void k

end Reading

end ExprTree
