import ExprTree.Proofs.Reading
import ExprTree.Proofs.UseRules

/-!
# Classified uses keep readings

What classifying a use answers can stand in the place of the expression, and every reading of the
arena is kept.

* `Reading.Places` — an answer that can stand in the place of an expression.
* `Reading.classifyUse_places` — a classified use.
* `Reading.classifyDiscarded_places`, `classifyDiscarded_stripped` — the use of an expression whose
  value is discarded.
-/

namespace ExprTree

namespace Reading

variable {X : Type} {R : Reading X} {x y : X} {cx t : Context} {n : Node} {k : NodeKind}
  {expr r : NodeId}

/-- The answer of a pass stands in the place of an expression, if it is not the error node. -/
def Places (R : Reading X) (cx : Context) (x : X) (expr r : NodeId) (t : Context) : Prop :=
  R.Reaches cx.arena x t.arena fun y => r ≠ .error → R.Stands t.arena y expr r

theorem mapM_reaches (hR : R.Lawful) {P : Arena → X → NodeId → NodeId → Prop}
    {p : NodeId → Pass NodeId} {o : Option NodeId} (hx : R.Sound cx.arena x)
    (hp : ∀ op, o = some op → Action.wlp (p op)
      (fun r t => R.Reaches cx.arena x t.arena fun y => r ≠ .error → P t.arena y op r) cx) :
    Action.wlp (o.mapM p) (fun o' t => R.Reaches cx.arena x t.arena fun y =>
      o' ≠ some .error → Option.Rel (P t.arena y) o o') cx := by
  rw [Action.wlp_mapM]
  cases o with
  | none => exact ⟨x, hx, .refl hR _ x, fun _ => .none⟩
  | some op =>
    refine (hp op rfl).mono fun r t ⟨y, hy, hl, hr⟩ => ⟨y, hy, hl, fun hne => .some (hr ?_)⟩
    rintro rfl
    exact hne rfl

theorem rel_mono {P Q : NodeId → NodeId → Prop} (h : ∀ s r, P s r → Q s r) {o o' : Option NodeId}
    (ho : Option.Rel P o o') : Option.Rel Q o o' := by
  cases ho with
  | none => exact .none
  | some ho => exact .some (h _ _ ho)

theorem places_error (hl : R.Leads cx.arena x t.arena y) (hy : R.Sound t.arena y) :
    R.Places cx x expr .error t :=
  ⟨y, hy, hl, fun h => absurd rfl h⟩

theorem places_self (hR : R.Lawful) (hl : R.Leads cx.arena x t.arena y)
    (hy : R.Sound t.arena y) : R.Places cx x expr expr t :=
  ⟨y, hy, hl, fun _ => hR.stands_refl _ _ _⟩

/-- A node can be given every kind that it fits. -/
theorem rebuild_leads (hR : R.Lawful) (hy : R.Sound t.arena y) (hn : t.arena.find? expr = some n)
    (hfit : R.Fits t.arena y expr k) (hk : k.skeleton = n.kind.skeleton) :
    Action.wlp (Pass.rebuild expr k) (fun _ u => R.Sound u.arena y ∧
      R.Leads t.arena y u.arena y ∧ ∃ m, u.arena.find? expr = some m ∧ m.kind = k) t := by
  refine Pass.wlp_rebuild fun m flags hm hflags => ?_
  cases hn.symm.trans hm
  obtain ⟨hs, he⟩ := hR.rebuild hy hn hfit hk hflags
  refine ⟨hs, ⟨Arena.evolves_change hn (Arena.becomes_rebuilt hk hflags), he⟩, ?_⟩
  exact ⟨_, Arena.find?_change_self hn, rfl⟩

/-- A node can be given the kind it had with its operands exchanged, even where it has changed
since. -/
theorem rebuild_places (hR : R.Lawful) (hx : R.Sound cx.arena x)
    (hn : cx.arena.find? expr = some n) (hl : R.Leads cx.arena x t.arena y)
    (hy : R.Sound t.arena y) (hk : n.kind.Rewritten (R.Stands t.arena y) k)
    (hw : t.arena.Rewraps expr n.kind k) :
    Action.wlp (Pass.rebuild expr k) (fun _ u => R.Places cx x expr expr u) t := by
  have hfit : R.Fits t.arena y expr k :=
    hR.fits_rewritten (hR.fits_mono hl (hR.fits_self hx hn)) hk hw
  obtain ⟨m, hm, hnm⟩ := hl.1.node expr n hn
  refine (rebuild_leads hR hy hm hfit (hk.skeleton_eq.trans hnm.skeleton_eq.symm)).mono
    fun _ u ⟨hu, hlu, _⟩ => ?_
  exact places_self hR (hl.trans hR hlu) hu

theorem replaceKind_places (hR : R.Lawful) (hx : R.Sound cx.arena x)
    (hn : cx.arena.find? expr = some n) (hl : R.Leads cx.arena x t.arena y)
    (hy : R.Sound t.arena y) (hk : n.kind.Rewritten (R.Stands t.arena y) k)
    (hw : ∀ operand, k ≠ .unary .nonLvalue operand) :
    Action.wlp (Pass.replaceKind expr k) (fun r u => R.Places cx x expr r u) t := by
  exact Pass.wlp_replaceKind (fun _ => places_self hR hl hy) fun _ =>
    rebuild_places hR hx hn hl hy hk (Arena.rewraps_of_ne hw)

/-- An operand is exchanged for its use, unless that went wrong. -/
theorem exchanged_places (hR : R.Lawful) (hx : R.Sound cx.arena x)
    (hn : cx.arena.find? expr = some n) {op : NodeId} {f : NodeId → NodeKind}
    (hk : ∀ y, R.Stands t.arena y op r → n.kind.Rewritten (R.Stands t.arena y) (f r))
    (hw : ∀ operand, f r ≠ .unary .nonLvalue operand) (h : R.Places cx x op r t) :
    Pass.OrError (fun r => Pass.replaceKind expr (f r)) (R.Places cx x expr) r t := by
  obtain ⟨y, hy, hl, hr⟩ := h
  exact ⟨fun _ => places_error hl hy,
    fun hne => replaceKind_places hR hx hn hl hy (hk y (hr hne)) hw⟩

section Node

variable {self : NodeId × UseMode → Pass NodeId} {mode : UseMode}

theorem classifyWrapper_places (hR : R.Lawful)
    (hself : ∀ p t y, R.Admits t.arena y p.1 → Action.wlp (self p) (R.Places t y p.1) t)
    (hx : R.Admits cx.arena x expr) (hn : cx.arena.find? expr = some n) {operand : NodeId}
    (hk : n.kind = .unary .viewConvert operand) (hw : n.wrapped? = some operand) :
    Action.wlp (Pass.classifyWrapper self expr operand mode) (R.Places cx x expr) cx := by
  have hstand : R.Stands cx.arena x expr operand := hR.unwrap hx.sound hn hw
  refine Pass.wlp_classifyWrapper fun loc hloc => (hself _ cx x (hx.stands hR hstand)).mono ?_
  rintro r t ⟨y, hy, hl, hr⟩
  refine ⟨fun _ => places_error hl hy, fun hne kind _ => ⟨fun _ => ?_, fun _ => ?_⟩⟩
  · obtain ⟨m, hm, hnm⟩ := hl.1.node expr n hn
    have hflag := hnm.locationWrapper_eq
    exact rebuild_places hR hx.sound hn hl hy (hk ▸ .wrapper (hr hne) mode.rvalue)
      fun _ _ _ _ => ⟨m, hm, hflag.trans (Node.wrapped?_eq_some_iff.1 hw).1⟩
  · have hplace : R.Stands t.arena y expr r :=
      hR.stands_trans (hR.stands_mono hl hstand) (hr hne)
    have hout : ∀ u, R.Sound u.arena y ∧ R.Leads t.arena y u.arena y → R.Places cx x expr r u :=
      fun u ⟨hu, hlu⟩ => ⟨y, hu, hl.trans hR hlu, fun _ => hR.stands_mono hlu hplace⟩
    rw [Pass.wlp_when]
    split
    · -- the wrapper may be where it is, and so may what stands in its place
      obtain ⟨w, hw, rfl⟩ := Arena.map_eq_ok_iff.1 hloc
      have hat : R.At t.arena y r w.span :=
        hR.at_stands hplace (hR.at_mono hl (hR.at_self hx (Arena.node_eq_ok_iff.1 hw)))
      exact (wlp_setSpan hR hy hat).mono fun _ u hu => hout u hu
    · exact hout t ⟨hy, .refl hR _ y⟩

theorem classifyReference_places (hR : R.Lawful)
    (hself : ∀ p t y, R.Admits t.arena y p.1 → Action.wlp (self p) (R.Places t y p.1) t)
    (hx : R.Admits cx.arena x expr) (hn : cx.arena.find? expr = some n) {pointer : NodeId}
    (hk : n.kind = .unary .deref pointer) (href : cx.arena.isReference pointer = .ok true) :
    Action.wlp (Pass.classifyReference self expr pointer mode) (R.Places cx x expr) cx := by
  have hop : R.Admits cx.arena x pointer :=
    hx.operand hR hn (Node.mem_readOperands_unary hk rfl)
  refine Pass.wlp_classifyReference ((hself _ cx x hop).mono ?_)
  rintro value t ⟨y, hy, hl, hr⟩
  refine ⟨fun _ => places_error hl hy, fun _ _ => places_self hR hl hy, fun hne _ => ?_⟩
  have hstand : R.Stands t.arena y pointer value := hr hne
  have hvalue : R.Admits t.arena y value := (hop.mono hR hl hy).stands hR hstand
  have hfit : R.Fits t.arena y expr (.unary .deref pointer) :=
    hk ▸ hR.fits_mono hl (hR.fits_self hx.sound hn)
  have hpointer : t.arena.referent? pointer ≠ none := by
    obtain ⟨target, htarget⟩ := Arena.isReference_eq_true_iff.1 href
    rw [hl.1.referent? htarget]
    exact Option.some_ne_none _
  refine Pass.wlp_dereference (fun hnone => ?_) fun target htarget => ?_
  · exact ⟨y, hy, hl, fun _ => hR.reference hfit hstand hpointer hnone⟩
  · refine (recordRead_keeps hR value t).mono fun _ u hu span hspan => ?_
    obtain ⟨hy', hl'⟩ := hu y hy
    obtain ⟨v, hv, rfl⟩ := Arena.map_eq_ok_iff.1 hspan
    have hat : R.At u.arena y value v.span :=
      hR.at_self (hvalue.mono hR hl' hy') (Arena.node_eq_ok_iff.1 hv)
    have htarget' := hl'.1.referent? htarget
    refine Arena.wlp_build fun flags hflags => ?_
    have hev : u.arena.Evolves
        (u.arena.append ⟨.unary .deref value, some target, flags, v.span⟩) :=
      Arena.evolves_append_access hflags rfl
    obtain ⟨z, hz, he, hs⟩ := hR.dereference hy' (hR.fits_mono hl' hfit)
      (hR.stands_mono hl' hstand) hat htarget' hflags hev
    exact ⟨z, hz, (hl.trans hR hl').trans hR ⟨hev, he⟩, fun _ => hs⟩

theorem classifyNode_places (hR : R.Lawful) (cx : Context)
    (hself : ∀ p t y, R.Admits t.arena y p.1 → Action.wlp (self p) (R.Places t y p.1) t)
    (hx : R.Admits cx.arena x expr) :
    Action.wlp (Pass.classifyNode self expr mode) (R.Places cx x expr) cx := by
  refine Pass.wlp_classifyNode fun n hn => ?_
  have hop : ∀ op mode, op ∈ n.readOperands →
      Action.wlp (self (op, mode)) (R.Places cx x op) cx := fun op mode hop =>
    hself (op, mode) cx x (hx.operand hR hn hop)
  refine
    { component := fun object field hk => (hop _ _ (Node.mem_readOperands_component hk)).mono
        fun r t h => exchanged_places hR hx.sound hn (fun y hr => hk ▸ .component hr) nofun h
      comma := fun lhs rhs loc hk => (hop _ _ (Node.mem_readOperands_comma hk)).mono
        fun r t h => exchanged_places hR hx.sound hn (fun y hr => hk ▸ .comma hr) nofun h
      cond := fun first second third hk => ?_
      reference := fun pointer hk href => classifyReference_places hR hself hx hn hk href
      wrapper := fun operand hk hw => classifyWrapper_places hR hself hx hn hk hw
      transparent := fun op operand hk htransparent _ =>
        (hop _ _ (Node.mem_readOperands_unary hk
          (UnaryOp.readsOperand_of_isTransparent htransparent))).mono fun r t h =>
          exchanged_places hR hx.sound hn (fun y hr => hk ▸ .transparent htransparent hr)
            (fun _ hv => by cases hv; cases htransparent) h
      keep := fun _ _ => places_self hR (.refl hR _ x) hx.sound }
  refine (mapM_reaches hR hx.sound fun op ho =>
    hop op mode (Node.mem_readOperands_second hk ho)).mono ?_
  rintro o t ⟨y, hy, hl, ho⟩
  have hthird : R.Admits cx.arena x third :=
    hx.operand hR hn (Node.mem_readOperands_third hk)
  refine ⟨fun _ => places_error hl hy, fun hne => (hself _ t y (hthird.mono hR hl hy)).mono ?_⟩
  rintro r u ⟨z, hz, hl', hr⟩
  refine ⟨fun _ => places_error (hl.trans hR hl') hz, fun hne' => ?_⟩
  exact replaceKind_places hR hx.sound hn (hl.trans hR hl') hz
    (hk ▸ .cond (rel_mono (fun _ _ => hR.stands_mono hl') (ho hne)) (hr hne')) nofun

theorem Places.trans (hR : R.Lawful) {u : Context} (hl : R.Leads cx.arena x t.arena y)
    (h : R.Places t y expr r u) : R.Places cx x expr r u :=
  Reaches.trans hR hl h

theorem rejectBuiltin_places (hR : R.Lawful) (hx : R.Sound cx.arena x) (loc : Span) :
    Action.wlp (Pass.rejectBuiltin expr loc) (R.Places cx x expr) cx := by
  unfold Pass.rejectBuiltin Pass.error
  simp only [Action.wlp_bind, Pass.wlp_query, Pass.wlp_location, Action.wlp_modify,
    Action.wlp_pure]
  intro target _ name _ loc' _
  exact places_error (.refl hR _ x) hx

theorem classifyUseStep_places (hR : R.Lawful) (cx : Context)
    (hself : ∀ p t y, R.Admits t.arena y p.1 → Action.wlp (self p) (R.Places t y p.1) t)
    (hx : R.Admits cx.arena x expr) :
    Action.wlp (Pass.classifyUseStep self (expr, mode)) (R.Places cx x expr) cx := by
  refine Pass.wlp_classifyUseStep (places_self hR (.refl hR _ x) hx.sound)
    (rejectBuiltin_places hR hx.sound _) fun t span ht => ?_
  obtain ⟨hs, hl⟩ := keeps_of_marked hR ht x hx.sound
  have hx' : R.Admits t.arena x expr := hx.mono hR hl hs
  refine (Pass.wlp_nested (Q := fun r b => R.Reaches t.arena x b fun y =>
    r ≠ NodeId.error → R.Stands b y expr r) (fun inner => ?_) ?_).mono
    fun r u hu => Places.trans hR hl hu
  · exact classifyNode_places hR { t with nesting := inner } hself hx'
  · exact ⟨x, hs, .refl hR _ x, fun h => absurd rfl h⟩

end Node

theorem classifyUse_places (hR : R.Lawful) (expr : NodeId) (mode : UseMode) (cx : Context)
    (hx : R.Admits cx.arena x expr) :
    Action.wlp (Pass.classifyUse expr mode) (R.Places cx x expr) cx :=
  wlp_recursively_admits Prod.fst (P := fun cx x (p : NodeId × UseMode) => R.Places cx x p.1)
    (fun _ hself _ cx _ hx => classifyUseStep_places hR cx hself hx) (expr, mode) cx hx

/-! ### Discarded uses -/

section Discarded

variable {self : NodeId → Pass NodeId}

theorem discardedRvalueUse_places (hR : R.Lawful) (hx : R.Admits cx.arena x expr) :
    Action.wlp (Pass.discardedRvalueUse expr) (R.Places cx x expr) cx := by
  unfold Pass.discardedRvalueUse
  rw [Action.wlp_bind, Action.wlp_get]
  exact classifyUse_places hR _ _ cx hx

theorem classifyDiscardedNode_places (hR : R.Lawful) (cx : Context)
    (hself : ∀ op t y, R.Admits t.arena y op → Action.wlp (self op) (R.Places t y op) t)
    (hx : R.Admits cx.arena x expr) :
    Action.wlp (Pass.classifyDiscardedNode self expr) (R.Places cx x expr) cx := by
  refine Pass.wlp_classifyDiscardedNode fun n hn => ?_
  refine
    { cond := fun first second third hk => ?_
      comma := fun lhs rhs hk => ?_
      use := fun _ _ => discardedRvalueUse_places hR hx
      keep := fun _ _ => places_self hR (.refl hR _ x) hx.sound }
  · have hsecond : ∀ op ∈ second, R.Admits cx.arena x op := fun op ho =>
      hx.operand hR hn (Node.mem_readOperands_second hk ho)
    have hthird : R.Admits cx.arena x third :=
      hx.operand hR hn (Node.mem_readOperands_third hk)
    refine (hself third cx x hthird).mono ?_
    rintro r t ⟨y, hy, hl, hr⟩
    refine (mapM_reaches hR hy fun op ho =>
      hself op t y ((hsecond op ho).mono hR hl hy)).mono ?_
    rintro o u ⟨z, hz, hl', ho⟩
    refine ⟨fun _ => places_error (hl.trans hR hl') hz, fun hne hne' => ?_⟩
    exact rebuild_places hR hx.sound hn (hl.trans hR hl') hz
      (hk ▸ .cond (ho hne') (hR.stands_mono hl' (hr hne))) (Arena.rewraps_of_ne nofun)
  · refine (hself rhs cx x (hx.operand hR hn (Node.mem_readOperands_comma hk))).mono ?_
    rintro r t ⟨y, hy, hl, hr⟩
    refine ⟨fun _ => places_error hl hy, fun hne => ?_⟩
    exact rebuild_places hR hx.sound hn hl hy (hk ▸ .comma (hr hne)) (Arena.rewraps_of_ne nofun)

theorem stripWrapper_stands (hR : R.Lawful) (hx : R.Sound cx.arena x) {inner : NodeId}
    (h : cx.arena.stripWrapper expr = .ok inner) : R.Stands cx.arena x expr inner := by
  obtain ⟨n, hn, rfl⟩ := Arena.map_eq_ok_iff.1 h
  rw [Arena.node_eq_ok_iff] at hn
  cases hw : n.wrapped? with
  | none => exact hR.stands_refl _ _ _
  | some operand => exact hR.unwrap hx hn hw

/-- The answer of a pass stands in the place of an expression without its location wrapper, if it is
not the error node. -/
def PlacesStripped (R : Reading X) (cx : Context) (x : X) (expr r : NodeId) (t : Context) : Prop :=
  R.Reaches cx.arena x t.arena fun y => r ≠ .error →
    ∃ inner, cx.arena.stripWrapper expr = .ok inner ∧ R.Stands t.arena y inner r

theorem PlacesStripped.places (hR : R.Lawful) (hx : R.Sound cx.arena x)
    (h : R.PlacesStripped cx x expr r t) : R.Places cx x expr r t := by
  obtain ⟨y, hy, hl, hr⟩ := h
  refine ⟨y, hy, hl, fun hne => ?_⟩
  obtain ⟨inner, hinner, hstand⟩ := hr hne
  exact hR.stands_trans (hR.stands_mono hl (stripWrapper_stands hR hx hinner)) hstand

theorem classifyDiscardedStep_stripped (hR : R.Lawful) (cx : Context)
    (hself : ∀ op t y, R.Admits t.arena y op → Action.wlp (self op) (R.Places t y op) t)
    (hx : R.Admits cx.arena x expr) :
    Action.wlp (Pass.classifyDiscardedStep self expr) (R.PlacesStripped cx x expr) cx := by
  unfold Pass.classifyDiscardedStep
  simp only [Action.wlp_bind, Pass.wlp_query]
  intro inner hinner span _
  refine (Pass.wlp_nested (Q := fun r b => R.Reaches cx.arena x b fun y =>
    r ≠ .error → R.Stands b y inner r) (fun nesting => ?_) ?_).mono ?_
  · exact classifyDiscardedNode_places hR { cx with nesting := nesting } hself
      (hx.stands hR (stripWrapper_stands hR hx.sound hinner))
  · exact ⟨x, hx.sound, .refl hR _ x, fun h => absurd rfl h⟩
  · rintro r t ⟨y, hy, hl, hr⟩
    exact ⟨y, hy, hl, fun hne => ⟨inner, hinner, hr hne⟩⟩

theorem classifyDiscardedStep_places (hR : R.Lawful) (cx : Context)
    (hself : ∀ op t y, R.Admits t.arena y op → Action.wlp (self op) (R.Places t y op) t)
    (hx : R.Admits cx.arena x expr) :
    Action.wlp (Pass.classifyDiscardedStep self expr) (R.Places cx x expr) cx :=
  (classifyDiscardedStep_stripped hR cx hself hx).mono fun _ _ h => h.places hR hx.sound

end Discarded

theorem classifyDiscarded_stripped (hR : R.Lawful) (expr : NodeId) (cx : Context)
    (hx : R.Admits cx.arena x expr) :
    Action.wlp (Pass.classifyDiscarded expr) (R.PlacesStripped cx x expr) cx :=
  wlp_recursively_admits id (P := R.PlacesStripped)
    (fun _ hself _ cx _ hx => classifyDiscardedStep_stripped hR cx
      (fun op t y hy => (hself op t y hy).mono fun _ _ h => h.places hR hy.sound) hx) expr cx hx

theorem classifyDiscarded_places (hR : R.Lawful) (expr : NodeId) (cx : Context)
    (hx : R.Admits cx.arena x expr) :
    Action.wlp (Pass.classifyDiscarded expr) (R.Places cx x expr) cx :=
  (classifyDiscarded_stripped hR expr cx hx).mono fun _ _ h => h.places hR hx.sound

end Reading

end ExprTree
