import ExprTree.Proofs.Uses
import ExprTree.Proofs.Warnings

/-!
# Reduction keeps readings

What is left of an expression whose value is discarded has the effects of the expression, in every
reading that the elementary rewrites keep.

* `Pass.wlp_voidByKind`, from `Pass.wlp_voidCond` to `Pass.wlp_collapse` — one rule for each part.
* `Pass.wlp_voidTyped`, `Pass.wlp_voidNode`, `Pass.wlp_toVoidStep` — one level of a reduction.
* `Reading.Reduces`, `Reading.Offers` — an answer with the effects of an expression.
* `Reading.toVoid_reduces` — a reduced expression.
-/

namespace ExprTree

namespace Pass

open ExprTree.Action

variable {cx : Context} {expr : NodeId} {loc : Span} {site : DiscardSite}
  {self : NodeId × DiscardSite → Pass NodeId}

/-- The reduction of an expression without location wrapper, by its type. -/
def voidTyped (self : NodeId × DiscardSite → Pass NodeId) (expr : NodeId) (loc : Span)
    (site : DiscardSite) : Pass NodeId := do
  let some type ← query (·.typeOf expr) | return expr
  if ← query (·.isVoidType type) then return expr
  match ← voidByKind self expr type loc site with
  | some expr => collapse expr
  | none => return .error

theorem wlp_voidTyped {Q : NodeId → Context → Prop}
    (hless : ∀ n, cx.arena.find? expr = some n → cx.arena.Valueless n → Q expr cx)
    (hvalue : ∀ n type, cx.arena.find? expr = some n → n.type = some type →
      cx.arena.isVoidType type = .ok false →
      wlp (voidByKind self expr type loc site)
        (fun o t => (∀ e, o = some e → wlp (collapse e) Q t) ∧ (o = none → Q .error t)) cx) :
    wlp (voidTyped self expr loc site) Q cx := by
  unfold voidTyped
  simp only [wlp_bind, wlp_query, Arena.typeOf, Arena.map_eq_ok_iff, Arena.node_eq_ok_iff]
  rintro _ ⟨n, hn, rfl⟩
  split
  · rename_i type ht
    rw [wlp_bind, wlp_query]
    intro void hvoid
    cases void with
    | true =>
      refine wlp_pure.2 (hless n hn fun type' ht' => ?_)
      cases ht.symm.trans ht'
      exact hvoid
    | false =>
      rw [if_neg Bool.false_ne_true, wlp_bind]
      refine (hvalue n type hn ht hvoid).mono ?_
      rintro o t ⟨hsome, hnone⟩
      cases o with
      | some e => exact hsome e rfl
      | none => exact wlp_pure.2 (hnone rfl)
  · rename_i ht
    exact wlp_pure.2 (hless n hn fun type ht' => absurd ht' (ht type))

/-! ### One rule for each kind -/

/-- The branches are reduced one after the other; the conditional stays if both do, else a new one
takes its place. -/
theorem wlp_voidCond {first third : NodeId} {second : Option NodeId}
    {P Q : Option NodeId → Context → Prop}
    (hsecond : ∀ place, wlp (second.mapM fun op => self (op, place)) P cx)
    (hthird : ∀ o t place, P o t → wlp (self (third, place)) (fun r u =>
      (o = some .error ∨ r = .error → Q none u) ∧
      (o ≠ some .error → r ≠ .error → o = second ∧ r = third → Q (some expr) u) ∧
      (o ≠ some .error → r ≠ .error → ¬ (o = second ∧ r = third) →
        wlp (some <$> edit (Arena.buildLike r (.cond first o r) loc)) Q u)) t) :
    wlp (voidCond self expr first second third loc site) Q cx := by
  unfold voidCond
  rw [wlp_bind, wlp_query]
  intro effect _
  rw [wlp_bind]
  refine (hsecond _).mono fun o t ho => ?_
  rw [wlp_bind]
  refine (hthird o t _ ho).mono ?_
  rintro r u ⟨herror, hstay, hnew⟩
  split
  · rename_i h
    exact wlp_pure.2 (herror h)
  rename_i hne
  rw [not_or] at hne
  split
  · rename_i h
    exact wlp_pure.2 (hstay hne.1 hne.2 h)
  · rename_i h
    exact hnew hne.1 hne.2 h

/-- The right operand is reduced; the comma stays if it does, else a new one takes its place. -/
theorem wlp_voidComma {lhs rhs : NodeId} {Q : Option NodeId → Context → Prop}
    (hrhs : ∀ place, wlp (self (rhs, place)) (fun r t => (r = .error → Q none t) ∧
      (r ≠ .error → r = rhs → Q (some expr) t) ∧
      (r ≠ .error → r ≠ rhs → wlp (some <$> edit (Arena.buildComma lhs r loc)) Q t)) cx) :
    wlp (voidComma self expr lhs rhs loc site) Q cx := by
  unfold voidComma
  rw [wlp_bind, wlp_query]
  intro suppressed _
  rw [wlp_bind]
  refine (hrhs _).mono ?_
  rintro r t ⟨herror, hstay, hnew⟩
  split
  · rename_i h
    exact wlp_pure.2 (herror h)
  rename_i hne
  split
  · rename_i h
    exact wlp_pure.2 (hstay hne h)
  · rename_i h
    exact hnew hne h

/-- A dereference gives way to its pointer, unless the access is volatile. -/
theorem wlp_voidDeref {pointer type : NodeId} {Q : NodeId → Context → Prop}
    (hstay : cx.arena.isVolatile type = .ok true → ∀ queue, Q expr { cx with queue })
    (hpointer : cx.arena.isVolatile type = .ok false → ∀ queue, Q pointer { cx with queue }) :
    wlp (voidDeref expr pointer type loc site) Q cx := by
  unfold voidDeref
  rw [wlp_bind, wlp_query]
  intro reference _
  rw [wlp_bind, wlp_query]
  intro volatile hvolatile
  cases volatile with
  | true =>
    rw [if_pos rfl, wlp_bind]
    exact quiet_warnVolatile.wlp fun _ queue => wlp_pure.2 (hstay hvolatile queue)
  | false =>
    rw [if_neg Bool.false_ne_true, wlp_bind]
    refine quiet_warnUnusedValue.wlp fun _ queue => ?_
    rw [wlp_bind, wlp_query]
    intro kind _
    rw [wlp_bind]
    exact quiet_warnIgnored.when.wlp fun _ queue => wlp_pure.2 (hpointer hvolatile queue)

/-- Nodes of other kinds stay. -/
theorem wlp_voidByKind {n : Node} {type : NodeId} {Q : Option NodeId → Context → Prop}
    (hn : cx.arena.find? expr = some n)
    (hcond : ∀ first second third, n.kind = .cond first second third →
      wlp (voidCond self expr first second third loc site) Q cx)
    (hcomma : ∀ lhs rhs, n.kind = .comma lhs rhs →
      wlp (voidComma self expr lhs rhs loc site) Q cx)
    (hderef : ∀ pointer, n.kind = .unary .deref pointer →
      wlp (voidDeref expr pointer type loc site) (fun r => Q (some r)) cx)
    (hother : (∀ first second third, n.kind ≠ .cond first second third) →
      (∀ lhs rhs, n.kind ≠ .comma lhs rhs) → (∀ pointer, n.kind ≠ .unary .deref pointer) →
      ∀ queue, Q (some expr) { cx with queue }) :
    wlp (voidByKind self expr type loc site) Q cx := by
  unfold voidByKind
  rw [wlp_bind, wlp_query]
  intro kind hkind
  obtain ⟨m, hm, rfl⟩ := Arena.kindOf_eq_ok_iff.1 hkind
  cases hn.symm.trans hm
  split
  · rename_i hk
    exact hcond _ _ _ hk
  · rename_i hk
    exact hcomma _ _ hk
  · rename_i hk
    rw [wlp_map]
    exact hderef _ hk
  case h_4 | h_5 =>
    rename_i hk
    rw [wlp_bind]
    refine quiet_warnIgnored.wlp fun _ queue => wlp_pure.2 (hother ?_ ?_ ?_ queue) <;>
      rw [hk] <;> exact nofun
  case h_6 =>
    rename_i hk
    rw [wlp_bind]
    refine quiet_warnVariable.wlp fun _ queue => wlp_pure.2 (hother ?_ ?_ ?_ queue) <;>
      rw [hk] <;> exact nofun
  rename_i hcond hcomma hderef _ _ _
  exact wlp_pure.2 (hother hcond hcomma hderef cx.queue)

theorem wlp_collapse {Q : NodeId → Context → Prop}
    (heffect : cx.arena.hasEffect expr = .ok true → Q expr cx)
    (hnone : cx.arena.hasEffect expr = .ok false → Q .void cx) : wlp (collapse expr) Q cx := by
  unfold collapse
  rw [wlp_bind, wlp_query]
  intro effect heff
  cases effect with
  | true => exact wlp_pure.2 (heffect heff)
  | false => exact wlp_pure.2 (hnone heff)

/-! ### One level -/

/-- The value of an expression is discarded first; where what stands in its place is not erroneous,
its variables may be marked as read. -/
theorem wlp_voidNode_of_not_erroneous {P Q : NodeId → Context → Prop}
    (hdiscard : wlp (classifyDiscarded expr) P cx) (herror : ∀ r t, P r t → Q .error t)
    (hrest : ∀ (r : NodeId) (t u : Context), P r t → t.arena.isErroneous r = .ok false →
      t.arena.Marked u.arena → wlp (voidTyped self r loc site) Q u) :
    wlp (voidNode self expr loc site) Q cx := by
  unfold voidNode
  rw [wlp_bind]
  refine hdiscard.mono fun r t hr => ?_
  rw [wlp_bind, wlp_query]
  intro erroneous herr
  cases erroneous with
  | true => exact wlp_pure.2 (herror r t hr)
  | false =>
    rw [if_neg Bool.false_ne_true, wlp_bind]
    exact wlp_read.mono fun _ u hu => hrest r t u hr herr hu

/-- The same where it is enough that what stands in its place is not the error node. -/
theorem wlp_voidNode {P Q : NodeId → Context → Prop} (hdiscard : wlp (classifyDiscarded expr) P cx)
    (herror : ∀ r t, P r t → Q .error t)
    (hrest : ∀ (r : NodeId) (t u : Context), P r t → r ≠ .error → t.arena.Marked u.arena →
      wlp (voidTyped self r loc site) Q u) :
    wlp (voidNode self expr loc site) Q cx := by
  refine wlp_voidNode_of_not_erroneous hdiscard herror fun r t u hr herr hu => ?_
  refine hrest r t u hr ?_ hu
  rintro rfl
  cases herr

theorem wlp_toVoidStep {Q : NodeId → Arena → Prop} (herror : Q .error cx.arena)
    (hnode : ∀ loc inner, wlp (voidNode self expr loc site) (fun r t => Q r t.arena)
      { cx with nesting := inner }) :
    wlp (toVoidStep self (expr, site)) (fun r t => Q r t.arena) cx := by
  unfold toVoidStep
  rw [wlp_bind, wlp_query]
  intro erroneous _
  split
  · exact wlp_pure.2 herror
  rw [wlp_bind, wlp_location]
  exact fun loc _ => wlp_nested (hnode loc) herror

end Pass

namespace Reading

variable {X : Type} {R : Reading X} {x y : X} {cx t : Context} {n : Node} {k : NodeKind}
  {expr r : NodeId}

/-- The answer of a reduction has the effects of an expression, if it is not the error node. -/
def Reduces (R : Reading X) (cx : Context) (x : X) (expr r : NodeId) (t : Context) : Prop :=
  R.Reaches cx.arena x t.arena fun y => r ≠ .error → R.Same t.arena y expr r

/-- The same for a reduction that may have no answer. -/
def Offers (R : Reading X) (cx : Context) (x : X) (expr : NodeId) (o : Option NodeId)
    (t : Context) : Prop :=
  R.Reaches cx.arena x t.arena fun y => ∀ r, o = some r → R.Same t.arena y expr r

theorem offers_none (hl : R.Leads cx.arena x t.arena y) (hy : R.Sound t.arena y) :
    R.Offers cx x expr none t :=
  ⟨y, hy, hl, nofun⟩

theorem offers_self (hR : R.Lawful) (hl : R.Leads cx.arena x t.arena y)
    (hy : R.Sound t.arena y) : R.Offers cx x expr (some expr) t := by
  refine ⟨y, hy, hl, ?_⟩
  rintro _ ⟨⟩
  exact hR.same_of_stands (hR.stands_refl _ _ _)

/-- A node built in the place of another, with the type of a part of it. -/
theorem buildLike_offers (hR : R.Lawful) (hx : R.Sound cx.arena x)
    (hn : cx.arena.find? expr = some n) (hl : R.Leads cx.arena x t.arena y)
    (hy : R.Sound t.arena y) (hk : n.kind.Rewritten (R.Same t.arena y) k)
    (hacc : n.kind.accessesObject = false) (other : NodeId) (span : Span) :
    Action.wlp (some <$> Pass.edit (Arena.buildLike other k span)) (R.Offers cx x expr) t := by
  rw [Action.wlp_map, Pass.wlp_edit]
  refine Arena.wlp_buildLike fun m hm => Arena.wlp_build fun flags hflags => ?_
  have hev : t.arena.Evolves (t.arena.append ⟨k, m.type, flags, span⟩) :=
    Arena.evolves_append hk.isType_eq fun _ hty => .inr ⟨other, m, hm, hty⟩
  obtain ⟨z, hz, he, hs⟩ :=
    hR.reduce hy (hR.fits_mono hl (hR.fits_self hx hn)) hk hacc hflags hev
  refine ⟨z, hz, hl.trans hR ⟨hev, he⟩, ?_⟩
  rintro _ ⟨⟩
  exact hs

section Void

variable {self : NodeId × DiscardSite → Pass NodeId} {site : DiscardSite} {loc : Span}

theorem voidCond_offers (hR : R.Lawful)
    (hself : ∀ p t y, R.Admits t.arena y p.1 → Action.wlp (self p) (R.Reduces t y p.1) t)
    (hx : R.Admits cx.arena x expr) (hn : cx.arena.find? expr = some n) {first third : NodeId}
    {second : Option NodeId} (hk : n.kind = .cond first second third) :
    Action.wlp (Pass.voidCond self expr first second third loc site) (R.Offers cx x expr) cx := by
  have hsecond : ∀ op ∈ second, R.Admits cx.arena x op := fun op ho =>
    hx.operand hR hn (Node.mem_readOperands_second hk ho)
  have hthird : R.Admits cx.arena x third := hx.operand hR hn (Node.mem_readOperands_third hk)
  refine Pass.wlp_voidCond (fun place => mapM_reaches hR hx.sound fun op ho =>
      hself (op, place) cx x (hsecond op ho))
    fun o t place ⟨y, hy, hl, ho⟩ =>
      (hself (third, place) t y (hthird.mono hR hl hy)).mono ?_
  rintro r u ⟨z, hz, hl', hr⟩
  have hlead := hl.trans hR hl'
  refine ⟨fun _ => offers_none hlead hz, fun _ _ _ => offers_self hR hlead hz, fun ho' hr' _ => ?_⟩
  exact buildLike_offers hR hx.sound hn hlead hz
    (hk ▸ .cond (rel_mono (fun _ _ => hR.same_mono hl') (ho ho')) (hr hr')) (by rw [hk]; rfl) _ _

theorem voidComma_offers (hR : R.Lawful)
    (hself : ∀ p t y, R.Admits t.arena y p.1 → Action.wlp (self p) (R.Reduces t y p.1) t)
    (hx : R.Admits cx.arena x expr) (hn : cx.arena.find? expr = some n) {lhs rhs : NodeId}
    (hk : n.kind = .comma lhs rhs) :
    Action.wlp (Pass.voidComma self expr lhs rhs loc site) (R.Offers cx x expr) cx := by
  have hop : R.Admits cx.arena x rhs := hx.operand hR hn (Node.mem_readOperands_comma hk)
  refine Pass.wlp_voidComma fun place => (hself (rhs, place) cx x hop).mono ?_
  rintro r t ⟨y, hy, hl, hr⟩
  refine ⟨fun _ => offers_none hl hy, fun _ _ => offers_self hR hl hy, fun hne _ => ?_⟩
  exact buildLike_offers hR hx.sound hn hl hy (hk ▸ .comma (hr hne)) (by rw [hk]; rfl) _ _

theorem voidDeref_offers (hR : R.Lawful) (hx : R.Sound cx.arena x)
    (hn : cx.arena.find? expr = some n) {pointer type : NodeId}
    (hk : n.kind = .unary .deref pointer) (ht : n.type = some type) :
    Action.wlp (Pass.voidDeref expr pointer type loc site)
      (fun r => R.Offers cx x expr (some r)) cx := by
  refine Pass.wlp_voidDeref (fun _ _ => offers_self hR (.refl hR _ x) hx) fun hv queue => ?_
  refine ⟨x, hx, .refl hR _ x, ?_⟩
  rintro _ ⟨⟩
  exact hR.access hx hn hk ht hv

theorem voidByKind_offers (hR : R.Lawful)
    (hself : ∀ p t y, R.Admits t.arena y p.1 → Action.wlp (self p) (R.Reduces t y p.1) t)
    (hx : R.Admits cx.arena x expr) (hn : cx.arena.find? expr = some n) {type : NodeId}
    (ht : n.type = some type) :
    Action.wlp (Pass.voidByKind self expr type loc site) (R.Offers cx x expr) cx := by
  refine Pass.wlp_voidByKind hn (fun _ _ _ hk => voidCond_offers hR hself hx hn hk)
    (fun _ _ hk => voidComma_offers hR hself hx hn hk)
    (fun _ hk => voidDeref_offers hR hx.sound hn hk ht) fun _ _ _ _ => ?_
  exact offers_self hR (.refl hR _ x) hx.sound

/-- Collapsing keeps the effects, since a node without an effect does nothing. -/
theorem collapse_reduces (hR : R.Lawful) (hl : R.Leads cx.arena x t.arena y)
    (hy : R.Sound t.arena y) (hs : R.Same t.arena y expr r) :
    Action.wlp (Pass.collapse r) (R.Reduces cx x expr) t := by
  -- the void value has the effects of any node that has none
  exact Pass.wlp_collapse (fun _ => ⟨y, hy, hl, fun _ => hs⟩)
    fun heff => ⟨y, hy, hl, fun _ => hR.same_trans hs (hR.nothing hy heff)⟩

theorem voidNode_reduces (hR : R.Lawful) (cx : Context)
    (hself : ∀ p t y, R.Admits t.arena y p.1 → Action.wlp (self p) (R.Reduces t y p.1) t)
    (hx : R.Admits cx.arena x expr) :
    Action.wlp (Pass.voidNode self expr loc site) (R.Reduces cx x expr) cx := by
  refine Pass.wlp_voidNode (classifyDiscarded_places hR expr cx hx)
    (fun r t ⟨y, hy, hl, _⟩ => ⟨y, hy, hl, fun h => absurd rfl h⟩)
    fun r t u ⟨y, hy, hl, hr⟩ hne hmark => ?_
  obtain ⟨hu, hlu⟩ := keeps_of_marked hR hmark y hy
  have hlead := hl.trans hR hlu
  have hstand : R.Stands u.arena y expr r := hR.stands_mono hlu (hr hne)
  have hsame : R.Same u.arena y expr r := hR.same_of_stands hstand
  have hleft : R.Admits u.arena y r := (hx.mono hR hlead hu).stands hR hstand
  refine Pass.wlp_voidTyped (fun _ _ _ => ⟨y, hu, hlead, fun _ => hsame⟩) fun n type hn ht _ => ?_
  refine (voidByKind_offers hR hself hleft hn ht).mono fun o v ⟨z, hz, hl', ho⟩ => ⟨fun e he => ?_,
    fun _ => ⟨z, hz, hlead.trans hR hl', fun h => absurd rfl h⟩⟩
  exact collapse_reduces hR (hlead.trans hR hl') hz
    (hR.same_trans (hR.same_mono hl' hsame) (ho e he))

theorem toVoidStep_reduces (hR : R.Lawful) (cx : Context)
    (hself : ∀ p t y, R.Admits t.arena y p.1 → Action.wlp (self p) (R.Reduces t y p.1) t)
    (hx : R.Admits cx.arena x expr) :
    Action.wlp (Pass.toVoidStep self (expr, site)) (R.Reduces cx x expr) cx :=
  Pass.wlp_toVoidStep (Q := fun r b => R.Reaches cx.arena x b fun y =>
      r ≠ NodeId.error → R.Same b y expr r) ⟨x, hx.sound, .refl hR _ x, fun h => absurd rfl h⟩
    fun _ inner => voidNode_reduces hR { cx with nesting := inner } hself hx

end Void

/-- What is left of an expression has the effects of the expression. -/
theorem toVoid_reduces (hR : R.Lawful) (expr : NodeId) (site : DiscardSite) (cx : Context)
    (hx : R.Admits cx.arena x expr) :
    Action.wlp (Pass.toVoid expr site) (R.Reduces cx x expr) cx :=
  wlp_recursively_admits Prod.fst (P := fun cx x (p : NodeId × DiscardSite) => R.Reduces cx x p.1)
    (fun _ hself _ cx _ hx => toVoidStep_reduces hR cx hself hx) (expr, site) cx hx

end Reading

end ExprTree
