import ExprTree.Proofs.SettledUses

/-!
# Reduction of what is left

In well-formed arenas a reduction answers the expression itself exactly when it is settled.  Hence
what is left of an expression is left once more when it is settled; the call left of `**f()` is
not what is left at first.

* `Pass.voidByKind_stays` — a node is left by its kind when its operands are.
* `Pass.toVoid_eq_self_iff` — the expressions that are left as they are.
* `Pass.toVoid_toVoid` — a second reduction.
-/

namespace ExprTree

namespace Pass

open ExprTree.Action Reading

variable {x : NodeId → Prop} {cx t : Context} {n : Node} {expr r type : NodeId}
  {site : DiscardSite} {loc : Span}

/-- The answer of a reduction, if it is not the error node, is the expression exactly when that is
settled. -/
def Stays (cx : Context) (x : NodeId → Prop) (expr r : NodeId) : Prop :=
  r ≠ .error → (r = expr ↔ cx.arena.Bare expr ∧ x expr)

/-- What is left by kind, if there is anything, is the node exactly when no dereference gives way
to its pointer and all discarded operands settle. -/
def StaysByKind (cx : Context) (x : NodeId → Prop) (expr : NodeId) (n : Node) (o : Option NodeId) :
    Prop :=
  ∀ r, o = some r → (r = expr ↔
    (∀ pointer, n.kind = .unary .deref pointer → cx.arena.VolatileAccess n) ∧
      ∀ op ∈ n.kind.branches, x op)

section Kinds

variable {self : NodeId × DiscardSite → Pass NodeId}

theorem staysByKind_none : StaysByKind cx x expr n none := by
  rintro _ ⟨⟩

theorem staysByKind_self (hd : ∀ pointer, n.kind ≠ .unary .deref pointer)
    (hb : n.kind.branches = []) : StaysByKind cx x expr n (some expr) := by
  rintro _ ⟨⟩
  simp [hd, hb]

/-- A node that is built is another one. -/
theorem buildLike_stays {k : NodeKind} {other : NodeId} {span : Span}
    (hs : (t.arena.find? expr).isSome = true) (hnot : ¬ ∀ op ∈ n.kind.branches, x op) :
    wlp (some <$> edit (Arena.buildLike other k span))
      (fun o _ => StaysByKind cx x expr n o) t := by
  rw [wlp_map, wlp_edit]
  refine Arena.wlp_buildLike fun m _ => Arena.wlp_build fun flags _ => ?_
  rintro _ ⟨⟩
  exact ⟨fun h => absurd h.symm (Arena.ne_size_of_isSome hs), fun h => absurd h.2 hnot⟩

/-- A discarded operand is left as it is when it settles, also after other operands. -/
theorem stays_branch {y : NodeId → Prop} {op : NodeId}
    (hl : settling.Leads cx.arena x t.arena y) (hs : (cx.arena.find? op).isSome = true)
    (hb : cx.arena.Bare op) (hr : Stays t y op r) (hne : r ≠ .error) : r = op ↔ x op := by
  rw [hr hne, hl.2.2 op hs]
  exact and_iff_right (hb.mono hl.1 hs)

/-- So is an operand that may be missing. -/
theorem mapM_stays (hself : ∀ p t y, settling.Sound t.arena y →
      wlp (self p) (fun r u => settling.Reduces t y p.1 r u ∧ Stays t y p.1 r) t)
    (hx : settling.Sound cx.arena x) {o : Option NodeId}
    (hs : ∀ op ∈ o, (cx.arena.find? op).isSome = true) (hb : ∀ op ∈ o, cx.arena.Bare op) :
    wlp (o.mapM fun op => self (op, site)) (fun o' t =>
      (settling.Reaches cx.arena x t.arena fun _ => True) ∧
        (o' ≠ some .error → (o' = o ↔ ∀ op ∈ o, x op))) cx := by
  rw [wlp_mapM]
  cases o with
  | none => exact ⟨⟨x, hx, .refl settling_lawful _ x, trivial⟩, fun _ => by simp⟩
  | some op =>
    refine (hself _ cx x hx).mono fun r t ⟨⟨y, hy, hl, _⟩, hr⟩ =>
      ⟨⟨y, hy, hl, trivial⟩, fun hne => ?_⟩
    have hiff := stays_branch (.refl settling_lawful _ x) (hs op rfl) (hb op rfl) hr
      fun h => hne (h ▸ rfl)
    simpa using hiff

theorem voidCond_stays (hself : ∀ p t y, settling.Sound t.arena y →
      wlp (self p) (fun r u => settling.Reduces t y p.1 r u ∧ Stays t y p.1 r) t)
    (hx : settling.Sound cx.arena x) (hn : cx.arena.find? expr = some n)
    (hbare : cx.arena.BareBranches expr) {first third : NodeId} {second : Option NodeId}
    (hk : n.kind = .cond first second third) :
    wlp (voidCond self expr first second third loc site)
      (fun o _ => StaysByKind cx x expr n o) cx := by
  have hsecond : ∀ op ∈ second, op ∈ n.kind.branches := by
    rintro op ⟨⟩
    simp [hk, NodeKind.branches]
  have hthird : third ∈ n.kind.branches := by simp [hk, NodeKind.branches]
  have hrange := (hx.wellFormed.tidy expr n hn).inRange
  refine wlp_voidCond (fun place => mapM_stays hself hx (fun op hop => hrange op (hsecond op hop))
    fun op hop => hbare n hn op (hsecond op hop)) ?_
  rintro o t place ⟨⟨y, hy, hl, _⟩, ho⟩
  refine (hself _ t y hy).mono ?_
  rintro r u ⟨⟨z, hz, hl', _⟩, hr⟩
  -- the conditional stays exactly when both branches stay
  have hall : o ≠ some .error → r ≠ .error →
      ((o = second ∧ r = third) ↔ ∀ op ∈ n.kind.branches, x op) := by
    intro ho' hr'
    rw [ho ho', stays_branch hl (hrange third hthird) (hbare n hn third hthird) hr hr', hk]
    simp [NodeKind.branches, or_imp, forall_and]
  refine ⟨fun _ => staysByKind_none, fun ho' hr' h => ?_, fun ho' hr' h => ?_⟩
  · rintro _ ⟨⟩
    exact iff_of_true rfl ⟨fun _ hd => (by cases hk.symm.trans hd), (hall ho' hr').1 h⟩
  · have hs : (cx.arena.find? expr).isSome = true := by rw [hn]; rfl
    exact buildLike_stays ((hl.1.trans hl'.1).isSome hs) (mt (hall ho' hr').2 h)

theorem voidComma_stays (hself : ∀ p t y, settling.Sound t.arena y →
      wlp (self p) (fun r u => settling.Reduces t y p.1 r u ∧ Stays t y p.1 r) t)
    (hx : settling.Sound cx.arena x) (hn : cx.arena.find? expr = some n)
    (hbare : cx.arena.BareBranches expr) {lhs rhs : NodeId} (hk : n.kind = .comma lhs rhs) :
    wlp (voidComma self expr lhs rhs loc site) (fun o _ => StaysByKind cx x expr n o) cx := by
  have hmem : rhs ∈ n.kind.branches := by
    rw [hk]
    exact List.mem_singleton_self rhs
  refine wlp_voidComma fun place => (hself _ cx x hx).mono ?_
  rintro r t ⟨⟨y, hy, hl, _⟩, hr⟩
  have hall : r ≠ .error → (r = rhs ↔ ∀ op ∈ n.kind.branches, x op) := by
    intro hne
    rw [stays_branch (.refl settling_lawful _ x)
      ((hx.wellFormed.tidy expr n hn).inRange rhs hmem) (hbare n hn rhs hmem) hr hne, hk]
    simp [NodeKind.branches]
  refine ⟨fun _ => staysByKind_none, fun hne h => ?_, fun hne h => ?_⟩
  · rintro _ ⟨⟩
    exact iff_of_true rfl ⟨fun _ hd => (by cases hk.symm.trans hd), (hall hne).1 h⟩
  · have hs : (cx.arena.find? expr).isSome = true := by rw [hn]; rfl
    exact buildLike_stays (hl.1.isSome hs) (mt (hall hne).2 h)

/-- A dereference that is no volatile access gives way to its pointer, which is another node. -/
theorem voidDeref_stays (hx : settling.Sound cx.arena x) (hn : cx.arena.find? expr = some n)
    {pointer : NodeId} (hk : n.kind = .unary .deref pointer) (ht : n.type = some type) :
    wlp (voidDeref expr pointer type loc site) (fun r _ => StaysByKind cx x expr n (some r)) cx := by
  have hb : ∀ op ∈ n.kind.branches, x op := by
    rw [hk]
    exact nofun
  refine wlp_voidDeref (fun hv _ => ?_) fun hv _ => ?_
  · rintro _ ⟨⟩
    exact iff_of_true rfl ⟨fun _ _ => ⟨by rw [hk]; rfl, type, ht, hv⟩, hb⟩
  · rintro _ ⟨⟩
    refine iff_of_false ?_ fun h => ?_
    · rintro rfl
      exact (hx.wellFormed.tidy _ n hn).ne_self hk
    · obtain ⟨-, t, ht', hvol⟩ := h.1 pointer hk
      cases ht.symm.trans ht'
      cases hv.symm.trans hvol

theorem voidByKind_stays (hself : ∀ p t y, settling.Sound t.arena y →
      wlp (self p) (fun r u => settling.Reduces t y p.1 r u ∧ Stays t y p.1 r) t)
    (hx : settling.Sound cx.arena x) (hn : cx.arena.find? expr = some n)
    (hbare : cx.arena.BareBranches expr) (ht : n.type = some type) :
    wlp (voidByKind self expr type loc site) (fun o _ => StaysByKind cx x expr n o) cx := by
  refine wlp_voidByKind hn (fun _ _ _ hk => voidCond_stays hself hx hn hbare hk)
    (fun _ _ hk => voidComma_stays hself hx hn hbare hk)
    (fun _ hk => voidDeref_stays hx hn hk ht) fun hcond hcomma hderef _ => ?_
  exact staysByKind_self hderef (NodeKind.branches_eq_nil hcond hcomma)

end Kinds

/-! ### A reduced expression -/

/-- Whether an expression is settled shows at what is left without its location wrapper, whatever
happened to the arena since. -/
theorem settled_iff_stripped {y : NodeId → Prop} (hx : settling.Sound cx.arena x)
    (hs : cx.arena.stripWrapper expr = .ok r) (hl : settling.Leads cx.arena x t.arena y)
    (hy : settling.Sound t.arena y) (hn : t.arena.find? r = some n) :
    cx.arena.Bare expr ∧ x expr ↔ r = expr ∧ (r = .void ∨ t.arena.Valueless n ∨
      n.flags.has .effect = true ∧
        (∀ pointer, n.kind = .unary .deref pointer → t.arena.VolatileAccess n) ∧
        ∀ op ∈ n.kind.branches, y op) := by
  obtain ⟨hbare, hsome⟩ := hx.wellFormed.stripWrapper_bare hs
  rw [← hx.wellFormed.stripWrapper_eq_self_iff hs]
  refine and_congr_right ?_
  rintro rfl
  rw [hl.2.2 r hsome, hy.settles_iff r n hn,
    Arena.settlesBy_bare (hbare.mono hl.1 hsome n hn)]

/-- Below a location wrapper there is a declaration or a constant, of which nothing is discarded. -/
theorem eq_or_leaf_of_stripWrapper (ha : cx.arena.WellFormed)
    (hs : cx.arena.stripWrapper expr = .ok r) : r = expr ∨ cx.arena.Leaf r := by
  obtain ⟨n, hn, rfl⟩ := Arena.map_eq_ok_iff.1 hs
  rw [Arena.node_eq_ok_iff] at hn
  cases hw : n.wrapped? with
  | none => exact .inl rfl
  | some operand => exact .inr ((ha.tidy expr n hn).wraps operand hw)

theorem branches_of_leaf {k : NodeKind} (hk : (k.isDecl || k.isConstant) = true) :
    k.branches = [] ∧ ∀ pointer, k ≠ .unary .deref pointer := by
  constructor
  · cases k <;> first | rfl | cases hk
  · rintro pointer rfl
    cases hk

/-- A node that has a value collapses unless it has an effect, and then it is settled exactly when
its operands let it stay. -/
theorem collapse_stays {u : Context} {y z : NodeId → Prop} {e : NodeId}
    (hx : settling.Sound cx.arena x) (hs : cx.arena.stripWrapper expr = .ok r)
    (hl : settling.Leads cx.arena x t.arena y) (ht : settling.Sound t.arena y)
    (hn : t.arena.find? r = some n) (hless : ¬ t.arena.Valueless n)
    (hl' : settling.Leads t.arena y u.arena z) (hsame : u.arena.SameEffect r e)
    (he : StaysByKind t y r n (some e)) :
    wlp (collapse e) (fun r' _ => Stays cx x expr r') u := by
  unfold collapse
  rw [wlp_bind, wlp_query]
  intro effect heff
  have heffect : effect = n.flags.has .effect := by
    rw [hsame.hasEffect_eq,
      hl'.2.1 r _ (Arena.hasEffect_eq_ok_iff.2 ⟨n, hn, rfl⟩)] at heff
    exact (Except.ok.inj heff).symm
  refine wlp_pure.2 fun _ => ?_
  rw [settled_iff_stripped hx hs hl ht hn, ← heffect]
  cases effect with
  | true =>
    rw [if_pos rfl]
    have hvoid : r ≠ .void := by
      rintro rfl
      obtain ⟨m, hm, hf⟩ := Arena.hasEffect_eq_ok_iff.1 ht.wellFormed.flagged.hasEffect_void
      cases hn.symm.trans hm
      cases heffect.trans hf
    simp only [hvoid, hless, false_or, true_and]
    rw [← he e rfl]
    -- a wrapper is never answered, and what it wraps always stays
    rcases eq_or_leaf_of_stripWrapper hx.wellFormed hs with rfl | hleaf
    · exact (and_iff_right rfl).symm
    · obtain ⟨m, hm, hk⟩ := hleaf.mono hl.1
      cases hn.symm.trans hm
      obtain ⟨hnil, hderef⟩ := branches_of_leaf hk
      obtain rfl : e = r := (he e rfl).2
        ⟨fun pointer h => absurd h (hderef pointer), fun op hop => by rw [hnil] at hop; cases hop⟩
      exact (and_iff_left rfl).symm
  | false =>
    rw [if_neg Bool.false_ne_true]
    simp only [hless, Bool.false_eq_true, false_and, or_false]
    -- the void value is left, which is no location wrapper
    constructor
    · rintro rfl
      have hself := (hx.wellFormed.stripWrapper_eq_self_iff hs).2 hx.wellFormed.flagged.void_bare
      exact ⟨hself, hself⟩
    · rintro ⟨rfl, h⟩
      exact h.symm

theorem voidNode_stays {self : NodeId × DiscardSite → Pass NodeId} (cx : Context)
    (hself : ∀ p t y, settling.Sound t.arena y →
      wlp (self p) (fun r u => settling.Reduces t y p.1 r u ∧ Stays t y p.1 r) t)
    (hx : settling.Sound cx.arena x) :
    wlp (voidNode self expr loc site) (fun r _ => Stays cx x expr r) cx := by
  refine wlp_voidNode ((classifyDiscarded_places settling_lawful expr cx ⟨hx, trivial⟩).and
    (classifyDiscarded_strips hx)) (fun _ _ _ h => absurd rfl h)
    fun r t u ⟨⟨y, hy, hl, _⟩, hr⟩ hne hmark => ?_
  obtain ⟨hstrip, hbranches⟩ := hr hne
  obtain ⟨hu, hlu⟩ := keeps_of_marked settling_lawful hmark y hy
  have hlead := hl.trans settling_lawful hlu
  have hb : u.arena.BareBranches r :=
    hbranches.of_marked hlu.1 hmark fun n hn => (hy.wellFormed.tidy r n hn).inRange
  -- without a value nothing is reduced, else the kind of the node decides
  refine wlp_voidTyped (fun n hn hless _ => ?_) fun n type hn ht hvoid => ?_
  · rw [settled_iff_stripped hx hstrip hlead hu hn]
    exact (and_iff_left (.inr (.inl hless))).symm
  · have hless : ¬ u.arena.Valueless n := fun h => by cases hvoid.symm.trans (h type ht)
    refine ((voidByKind_offers settling_lawful (fun p t y hy => (hself p t y hy.sound).mono
      fun _ _ h => h.1) ⟨hu, trivial⟩ hn ht).and (voidByKind_stays hself hu hn hb ht)).mono
      fun o v ⟨⟨_, _, hl', ho⟩, hstays⟩ => ⟨fun e he => ?_, fun _ h => absurd rfl h⟩
    subst he
    exact collapse_stays hx hstrip hlead hu hn hless hl' (ho e rfl) hstays

theorem toVoidStep_stays {self : NodeId × DiscardSite → Pass NodeId} (cx : Context)
    (hself : ∀ p t y, settling.Sound t.arena y →
      wlp (self p) (fun r u => settling.Reduces t y p.1 r u ∧ Stays t y p.1 r) t)
    (hx : settling.Sound cx.arena x) :
    wlp (toVoidStep self (expr, site)) (fun r _ => Stays cx x expr r) cx :=
  wlp_toVoidStep (Q := fun r _ => Stays cx x expr r) (fun h => absurd rfl h)
    fun _ inner => voidNode_stays { cx with nesting := inner } hself hx

theorem toVoid_stays (hx : settling.Sound cx.arena x) :
    wlp (toVoid expr site) (fun r _ => Stays cx x expr r) cx :=
  (wlp_recursively_admits Prod.fst (P := fun cx x (p : NodeId × DiscardSite) r t =>
      settling.Reduces cx x p.1 r t ∧ Stays cx x p.1 r)
    (fun _ hself _ cx _ hx => (toVoidStep_reduces settling_lawful cx
      (fun p t y hy => (hself p t y hy).mono fun _ _ h => h.1) hx).and
        (toVoidStep_stays cx (fun p t y hy => hself p t y ⟨hy, trivial⟩) hx.sound))
    (expr, site) cx ⟨hx, trivial⟩).mono fun _ _ h => h.2

/-- A reduction answers the expression itself exactly when it is settled. -/
theorem toVoid_eq_self_iff (ha : cx.arena.WellFormed) (hrun : toVoid expr site cx = .ok r t)
    (hr : r ≠ .error) : r = expr ↔ cx.arena.Settled expr :=
  toVoid_stays ha.settling r t hrun hr

theorem toVoid_error : wlp (toVoid .error site) (fun r _ => r = .error) cx := by
  refine wlp_recursively_of_step fun self => ?_
  unfold toVoidStep
  rw [wlp_bind, wlp_query]
  rintro _ ⟨⟩
  exact wlp_pure.2 rfl

/-- What is left of an expression is left once more if and only if it is the error node, or is
settled and the second reduction does not fail. -/
theorem toVoid_toVoid {site' : DiscardSite} {r' : NodeId} {u : Context} (ha : cx.arena.WellFormed)
    (hrun : toVoid expr site cx = .ok r t) (hagain : toVoid r site' t = .ok r' u) :
    r' = r ↔ r = .error ∨ r' ≠ .error ∧ t.arena.Settled r := by
  obtain ⟨_, ht, -⟩ :=
    toVoid_reduces settling_lawful expr site cx ⟨ha.settling, trivial⟩ r t hrun
  by_cases hr : r = .error
  · subst hr
    exact iff_of_true (toVoid_error _ _ hagain) (.inl rfl)
  by_cases hr' : r' = .error
  · subst hr'
    simp [hr, Ne.symm hr]
  · rw [toVoid_eq_self_iff ht.wellFormed hagain hr']
    simp [hr, hr']

end Pass

/-- The arena of `**f()`, whose last node it is. -/
def Arena.nested : Arena :=
  { Arena.initial with
    nodes := Arena.initial.nodes ++ #[
      ⟨.pointerType .intType, none, .empty, .unknown⟩,
      ⟨.pointerType ⟨6⟩, none, .empty, .unknown⟩,
      ⟨.call none .empty, some ⟨7⟩, .single .effect, .unknown⟩,
      ⟨.unary .deref ⟨8⟩, some ⟨6⟩, .single .effect, .unknown⟩,
      ⟨.unary .deref ⟨9⟩, some .intType, .single .effect, .unknown⟩] }

namespace Pass

open ExprTree.Action

/-- Of `*f()` the call is left, which is left once more. -/
theorem toVoid_toVoid_call : Arena.nested.WellFormed ∧
    ∃ t u, toVoid ⟨9⟩ .cast (.ofArena .nested .standard) = .ok ⟨8⟩ t ∧
      toVoid ⟨8⟩ .cast t = .ok ⟨8⟩ u ∧ t.arena.Settled ⟨8⟩ := by
  have ha : Arena.nested.WellFormed := by decide +kernel
  obtain ⟨t, u, ht, hu⟩ : ∃ t u, toVoid ⟨9⟩ .cast (.ofArena .nested .standard) = .ok ⟨8⟩ t ∧
      toVoid ⟨8⟩ .cast t = .ok ⟨8⟩ u :=
    exists_runs (f := fun r => toVoid r .cast) (by decide +kernel) (by decide +kernel)
  exact ⟨ha, t, u, ht, hu, (((toVoid_toVoid ha ht hu).1 rfl).resolve_left (by decide)).2⟩

/-- Of `**f()` at first `*f()` is left, and then the call. -/
theorem toVoid_toVoid_nested : Arena.nested.WellFormed ∧
    ∃ t u, toVoid ⟨10⟩ .cast (.ofArena .nested .standard) = .ok ⟨9⟩ t ∧
      toVoid ⟨9⟩ .cast t = .ok ⟨8⟩ u :=
  ⟨by decide +kernel,
    exists_runs (f := fun r => toVoid r .cast) (by decide +kernel) (by decide +kernel)⟩

end Pass

end ExprTree
