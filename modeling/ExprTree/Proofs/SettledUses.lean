import ExprTree.Proofs.Settling

/-!
# Uses in well-formed arenas

Where location wrappers wrap declarations and constants only, the use of an expression is the
expression itself, and the use of an expression whose value is discarded is what is left of it
without its location wrapper.

* `Arena.Bare.mono`, `Arena.WellFormed.stripWrapper_bare` — expressions without location wrapper.
* `Pass.classifyUse_stays` — a classified use.
* `Pass.classifyDiscarded_strips` — the use of an expression whose value is discarded.
-/

namespace ExprTree

namespace Arena

variable {a b : Arena} {n : Node} {id op : NodeId}

theorem Bare.mono (hab : a.Evolves b) (hid : (a.find? id).isSome = true) (h : a.Bare id) :
    b.Bare id := by
  intro m hm
  obtain ⟨n, hn⟩ := Option.isSome_iff_exists.1 hid
  obtain ⟨m', hm', hnm⟩ := hab.node id n hn
  cases hm.symm.trans hm'
  have hn' := h n hn
  rw [← Option.not_isSome_iff_eq_none, Node.isSome_wrapped?_iff] at hn' ⊢
  rwa [hnm.locationWrapper_eq, hnm.skeleton_eq]

/-- No discarded operand of a node is a location wrapper. -/
def BareBranches (a : Arena) (id : NodeId) : Prop :=
  ∀ n, a.find? id = some n → ∀ op ∈ n.kind.branches, a.Bare op

/-- The operands of a node are the same after some nodes were marked. -/
theorem BareBranches.of_marked (hab : a.Evolves b) (hmark : a.Marked b)
    (hin : ∀ n, a.find? id = some n → ∀ op ∈ n.kind.branches, (a.find? op).isSome = true)
    (h : a.BareBranches id) : b.BareBranches id := by
  intro m hm op hop
  obtain ⟨n, hn, hmn⟩ := hmark.kind_eq hm
  rw [hmn] at hop
  exact (h n hn op hop).mono hab (hin n hn op hop)

/-- What is left without the location wrapper is none, and is there. -/
theorem WellFormed.stripWrapper_bare (h : a.WellFormed) (hs : a.stripWrapper id = .ok op) :
    a.Bare op ∧ (a.find? op).isSome = true := by
  obtain ⟨n, hn, rfl⟩ := map_eq_ok_iff.1 hs
  rw [node_eq_ok_iff] at hn
  cases hw : n.wrapped? with
  | none =>
    refine ⟨fun m hm => ?_, by rw [Option.getD_none, hn]; rfl⟩
    cases hn.symm.trans hm
    exact hw
  | some operand =>
    have hleaf := (h.tidy id n hn).wraps operand hw
    have hbare := hleaf.bare
    obtain ⟨m, hm, -⟩ := hleaf
    exact ⟨hbare, by rw [Option.getD_some, hm]; rfl⟩

theorem WellFormed.stripWrapper_eq_self_iff (h : a.WellFormed) (hs : a.stripWrapper id = .ok op) :
    op = id ↔ a.Bare id := by
  constructor
  · rintro rfl
    exact (h.stripWrapper_bare hs).1
  · intro hb
    obtain ⟨n, hn, rfl⟩ := map_eq_ok_iff.1 hs
    rw [hb n (node_eq_ok_iff.1 hn)]
    rfl

end Arena

namespace NodeKind

theorem length_branches_skeleton (k : NodeKind) :
    k.skeleton.branches.length = k.branches.length := by
  cases k with
  | unary op _ => cases op <;> rfl
  | cond first second third => cases second <;> rfl
  | _ => rfl

theorem branches_eq_nil_of_skeleton {k k' : NodeKind} (h : k'.skeleton = k.skeleton)
    (hk : k.branches = []) : k'.branches = [] := by
  rw [← List.length_eq_zero_iff, ← length_branches_skeleton, h, length_branches_skeleton, hk]
  rfl

end NodeKind

namespace Pass

open ExprTree.Action Reading

variable {x : NodeId → Prop} {cx t : Context} {n : Node} {expr r : NodeId} {mode : UseMode}

/-! ### Classified uses -/

section Use

variable {self : NodeId × UseMode → Pass NodeId}

theorem replaceKind_stays {k : NodeKind} :
    wlp (replaceKind expr k) (fun r _ => r = .error ∨ r = expr) cx := by
  exact wlp_replaceKind (fun _ => .inr rfl) fun _ _ _ _ => .inr rfl

/-- The answer of an operand does not matter. -/
theorem exchanged_stays {p : Pass NodeId} {f : NodeId → NodeKind} :
    wlp p (OrError (fun r => replaceKind expr (f r)) fun r _ => r = .error ∨ r = expr) cx :=
  fun _ _ _ => ⟨fun _ => .inl rfl, fun _ => replaceKind_stays⟩

theorem classifyWrapper_stays (hself : ∀ p t y, settling.Sound t.arena y →
      wlp (self p) (fun r u => settling.Places t y p.1 r u ∧ (r = .error ∨ r = p.1)) t)
    (hx : settling.Sound cx.arena x) {operand : NodeId} (hleaf : cx.arena.Leaf operand) :
    wlp (classifyWrapper self expr operand mode) (fun r _ => r = .error ∨ r = expr) cx := by
  refine wlp_classifyWrapper fun loc _ => (hself _ cx x hx).mono ?_
  rintro r t ⟨⟨_, _, hl, _⟩, hr⟩
  refine ⟨fun _ => .inl rfl, fun hne kind hkind => ⟨fun _ _ _ _ => .inr rfl, fun hk => ?_⟩⟩
  -- what is wrapped is a declaration or a constant
  obtain rfl : r = operand := hr.resolve_left hne
  obtain ⟨m, hm, rfl⟩ := Arena.kindOf_eq_ok_iff.1 hkind
  obtain ⟨m', hm', hleaf⟩ := hleaf.mono hl.1
  cases hm.symm.trans hm'
  simp_all

theorem classifyNode_stays (hself : ∀ p t y, settling.Sound t.arena y →
      wlp (self p) (fun r u => settling.Places t y p.1 r u ∧ (r = .error ∨ r = p.1)) t)
    (cx : Context) (hx : settling.Sound cx.arena x) :
    wlp (classifyNode self expr mode) (fun r _ => r = .error ∨ r = expr) cx := by
  refine wlp_classifyNode fun n hn => ?_
  refine
    { component := fun _ _ _ => exchanged_stays
      comma := fun _ _ _ _ => exchanged_stays
      cond := fun _ _ _ _ _ _ _ => ⟨fun _ => .inl rfl, fun _ => exchanged_stays⟩
      reference := fun reference _ _ => ?_
      wrapper := fun operand _ hw => ?_
      transparent := fun _ _ _ _ _ => exchanged_stays
      keep := fun _ _ => .inr rfl }
  · -- the use of a reference answers the reference, so that it is not dereferenced again
    refine wlp_classifyReference ((hself _ cx x hx).mono ?_)
    rintro value t ⟨-, hvalue⟩
    exact ⟨fun _ => .inl rfl, fun _ _ => .inr rfl,
      fun hne hother => absurd (hvalue.resolve_left hne) hother⟩
  · exact classifyWrapper_stays hself hx ((hx.wellFormed.tidy expr n hn).wraps _ hw)

theorem classifyUseStep_stays (hself : ∀ p t y, settling.Sound t.arena y →
      wlp (self p) (fun r u => settling.Places t y p.1 r u ∧ (r = .error ∨ r = p.1)) t)
    (hx : settling.Sound cx.arena x) :
    wlp (classifyUseStep self (expr, mode)) (fun r _ => r = .error ∨ r = expr) cx := by
  refine wlp_classifyUseStep (.inr rfl) ?_ fun t span ht => ?_
  · unfold rejectBuiltin Pass.error
    simp only [wlp_bind, wlp_query, wlp_location, wlp_modify, wlp_pure]
    exact fun _ _ _ _ _ _ => .inl trivial
  · refine wlp_nested (Q := fun r _ => r = NodeId.error ∨ r = expr) (fun inner => ?_) (.inl rfl)
    exact classifyNode_stays hself { t with nesting := inner }
      (keeps_of_marked settling_lawful ht x hx).1

end Use

/-- Where location wrappers wrap declarations and constants only, the use of an expression is the
expression. -/
theorem classifyUse_stays (hx : settling.Sound cx.arena x) :
    wlp (classifyUse expr mode) (fun r _ => r = .error ∨ r = expr) cx :=
  (wlp_recursively_admits Prod.fst (P := fun cx x (p : NodeId × UseMode) r t =>
      settling.Places cx x p.1 r t ∧ (r = .error ∨ r = p.1))
    (fun _ hself _ cx _ hx => (classifyUseStep_places settling_lawful cx
      (fun p t y hy => (hself p t y hy).mono fun _ _ h => h.1) hx).and
        (classifyUseStep_stays (fun p t y hy => hself p t y ⟨hy, trivial⟩) hx.sound))
    (expr, mode) cx ⟨hx, trivial⟩).mono fun _ _ h => h.2

/-! ### Discarded uses -/

/-- The use of an expression whose value is discarded is the expression without its location
wrapper, and so are the operands that are discarded with it. -/
def Strips (cx : Context) (expr r : NodeId) (t : Context) : Prop :=
  r ≠ .error → cx.arena.stripWrapper expr = .ok r ∧ t.arena.BareBranches r

/-- The same below the location wrapper. -/
def StripsBranches (expr r : NodeId) (t : Context) : Prop :=
  r ≠ .error → r = expr ∧ t.arena.BareBranches r

theorem Strips.bare (h : Strips cx expr r t) (ha : cx.arena.WellFormed)
    (hab : cx.arena.Evolves t.arena) (hne : r ≠ .error) :
    t.arena.Bare r ∧ (t.arena.find? r).isSome = true := by
  obtain ⟨hb, hs⟩ := ha.stripWrapper_bare (h hne).1
  exact ⟨hb.mono hab hs, hab.isSome hs⟩

theorem rebuild_strips {y : NodeId → Prop} {k : NodeKind} (hx : settling.Sound cx.arena x)
    (hn : cx.arena.find? expr = some n) (hl : settling.Leads cx.arena x t.arena y)
    (hy : settling.Sound t.arena y) (hk : n.kind.Rewritten (settling.Stands t.arena y) k)
    (hw : ∀ operand, k ≠ .unary .nonLvalue operand)
    (hb : ∀ op ∈ k.branches, t.arena.Bare op ∧ (t.arena.find? op).isSome = true) :
    wlp (rebuild expr k) (fun _ => StripsBranches expr expr) t := by
  obtain ⟨m, hm, hnm⟩ := hl.1.node expr n hn
  have hfit := settling_lawful.fits_mono hl (settling_lawful.fits_self hx hn)
  refine (rebuild_leads settling_lawful hy hm (settling_lawful.fits_rewritten hfit hk
      (Arena.rewraps_of_ne hw))
    (hk.skeleton_eq.trans hnm.skeleton_eq.symm)).mono ?_
  rintro _ u ⟨_, hl', m', hm', hk'⟩
  refine fun _ => ⟨rfl, fun m'' hm'' op hop => ?_⟩
  cases hm'.symm.trans hm''
  rw [hk'] at hop
  obtain ⟨hbare, hs⟩ := hb op hop
  exact hbare.mono hl'.1 hs

/-- Where no operand is discarded with a node, this stays so. -/
theorem discardedRvalueUse_strips (hx : settling.Sound cx.arena x)
    (hn : cx.arena.find? expr = some n) (hb : n.kind.branches = []) :
    wlp (discardedRvalueUse expr) (StripsBranches expr) cx := by
  unfold discardedRvalueUse
  rw [wlp_bind, wlp_get]
  refine ((classifyUse_places settling_lawful _ _ cx ⟨hx, trivial⟩).and
    (classifyUse_stays hx)).mono fun r t ⟨⟨_, _, hl, _⟩, hr⟩ hne => ?_
  obtain rfl := hr.resolve_left hne
  refine ⟨rfl, fun m hm op hop => ?_⟩
  obtain ⟨m', hm', hnm⟩ := hl.1.node _ n hn
  cases hm.symm.trans hm'
  rw [NodeKind.branches_eq_nil_of_skeleton hnm.skeleton_eq hb] at hop
  cases hop

section Discarded

variable {self : NodeId → Pass NodeId}

theorem mapM_strips {o : Option NodeId} (hx : settling.Sound cx.arena x)
    (hself : ∀ op t y, settling.Sound t.arena y →
      wlp (self op) (fun r u => settling.Places t y op r u ∧ Strips t op r u) t) :
    wlp (o.mapM self) (fun o' t => (settling.Reaches cx.arena x t.arena fun y =>
      o' ≠ some .error → Option.Rel (settling.Stands t.arena y) o o') ∧
      (o' ≠ some .error → ∀ r ∈ o', t.arena.Bare r ∧ (t.arena.find? r).isSome = true)) cx := by
  refine (mapM_reaches settling_lawful hx fun op _ =>
    (hself op cx x hx).mono fun _ _ h => h.1).and ?_
  rw [wlp_mapM]
  cases o with
  | none => exact fun _ => nofun
  | some op =>
    refine (hself op cx x hx).mono fun r t ⟨⟨_, _, hl, _⟩, hr⟩ hne => ?_
    rintro _ ⟨⟩
    exact hr.bare hx.wellFormed hl.1 fun h => hne (h ▸ rfl)

theorem classifyDiscardedNode_strips (cx : Context) (hself : ∀ op t y, settling.Sound t.arena y →
      wlp (self op) (fun r u => settling.Places t y op r u ∧ Strips t op r u) t)
    (hx : settling.Sound cx.arena x) :
    wlp (classifyDiscardedNode self expr) (StripsBranches expr) cx := by
  refine wlp_classifyDiscardedNode fun n hn => ?_
  refine
    { cond := fun first second third hk => ?_
      comma := fun lhs rhs hk => ?_
      use := fun hcond hcomma =>
        discardedRvalueUse_strips hx hn (NodeKind.branches_eq_nil hcond hcomma)
      keep := fun hcond hcomma _ => ⟨rfl, fun m hm op hop => ?_⟩ }
  · refine (hself third cx x hx).mono ?_
    rintro r t ⟨⟨y, hy, hl, hr⟩, hstrip⟩
    refine (mapM_strips hy hself).mono ?_
    rintro o u ⟨⟨z, hz, hl', ho⟩, hostrip⟩
    refine ⟨fun _ h => absurd rfl h, fun hne hne' => ?_⟩
    refine rebuild_strips hx hn (hl.trans settling_lawful hl') hz
      (hk ▸ .cond (ho hne') (settling_lawful.stands_mono hl' (hr hne))) (by simp) fun op hop => ?_
    rw [NodeKind.branches, List.mem_append, Option.mem_toList, List.mem_singleton] at hop
    rcases hop with hop | rfl
    · exact hostrip hne' op hop
    · -- the third operand comes first
      obtain ⟨hb, hs⟩ := hstrip.bare hx.wellFormed hl.1 hne
      exact ⟨hb.mono hl'.1 hs, hl'.1.isSome hs⟩
  · refine (hself rhs cx x hx).mono ?_
    rintro r t ⟨⟨y, hy, hl, hr⟩, hstrip⟩
    refine ⟨fun _ h => absurd rfl h, fun hne => ?_⟩
    refine rebuild_strips hx hn hl hy (hk ▸ .comma (hr hne)) (by simp) fun op hop => ?_
    rw [NodeKind.branches, List.mem_singleton] at hop
    subst hop
    exact hstrip.bare hx.wellFormed hl.1 hne
  · -- no operand of any other node is discarded with it
    cases hn.symm.trans hm
    rw [NodeKind.branches_eq_nil hcond hcomma] at hop
    cases hop

theorem classifyDiscardedStep_strips (hself : ∀ op t y, settling.Sound t.arena y →
      wlp (self op) (fun r u => settling.Places t y op r u ∧ Strips t op r u) t)
    (hx : settling.Sound cx.arena x) :
    wlp (classifyDiscardedStep self expr) (Strips cx expr) cx := by
  unfold classifyDiscardedStep
  simp only [wlp_bind, wlp_query]
  intro inner hinner span _
  refine (wlp_nested (Q := fun r b => r ≠ NodeId.error → r = inner ∧ b.BareBranches r)
    (fun nesting => ?_) fun h => absurd rfl h).mono fun r t hr hne => ?_
  · exact classifyDiscardedNode_strips { cx with nesting := nesting } hself hx
  · obtain ⟨rfl, hb⟩ := hr hne
    exact ⟨hinner, hb⟩

end Discarded

theorem classifyDiscarded_strips (hx : settling.Sound cx.arena x) :
    wlp (classifyDiscarded expr) (Strips cx expr) cx :=
  (wlp_recursively_admits id
    (P := fun cx x op r t => settling.Places cx x op r t ∧ Strips cx op r t)
    (fun _ hself _ cx _ hx => (classifyDiscardedStep_places settling_lawful cx
      (fun op t y hy => (hself op t y hy).mono fun _ _ h => h.1) hx).and
        (classifyDiscardedStep_strips (fun op t y hy => hself op t y ⟨hy, trivial⟩) hx.sound))
    expr cx ⟨hx, trivial⟩).mono fun _ _ h => h.2

end Pass

end ExprTree
