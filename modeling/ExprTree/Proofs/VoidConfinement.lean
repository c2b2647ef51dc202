import ExprTree.Proofs.Confinement
import ExprTree.Proofs.Intact
import ExprTree.Proofs.Runs
import ExprTree.Proofs.VoidEffects

/-!
# Passes change nothing outside the footprint

Classifying a use, discarding a value and reducing an expression change only nodes that are read
along with the expression, in the arena before the pass.

Reduction moreover builds nodes upon the void value, which need not be read along with the
expression.  No pass is run on these nodes, unless they take the place of a dangling handle.

* `Arena.Usable`, `Arena.Buildable` — nodes on which passes may be run, or nodes may be built.
* `Pass.Follows`, `Pass.Remains` — an arena that has changed only in a set, and what is left.
* `Pass.toVoid_remains` — reductions.
* `Pass.confined_readAlong` — conditions, left operands, arguments and indices stay as they are.
* `Pass.not_confined_dangling` — what may happen to a handle that dangles.
-/

namespace ExprTree

namespace Arena

variable {a b : Arena} {F S : NodeId → Prop} {id op : NodeId} {n m : Node}

/-- Passes may be run on the node: they stay in the set, now and when nodes have been built.  What
is built may be read along with the void value, if that is in the set; else no handle dangles that
could lead to it. -/
def Usable (b : Arena) (F : NodeId → Prop) (id : NodeId) : Prop :=
  b.Enclosed F id ∧ (F .void ∨ b.Intact id)

/-- Nodes may be built upon the node. -/
def Buildable (b : Arena) (F : NodeId → Prop) (id : NodeId) : Prop :=
  F .void → b.Enclosed F id

/-- The nodes on which passes may be run, and what is no node yet. -/
def Region (b : Arena) (F : NodeId → Prop) (id : NodeId) : Prop :=
  b.Usable F id ∨ b.find? id = none

theorem Usable.buildable (h : b.Usable F id) : b.Buildable F id := fun _ => h.1

theorem Usable.operand (h : b.Usable F id) (hn : b.find? id = some n)
    (hop : op ∈ n.readOperands) : b.Usable F op :=
  ⟨h.1.operand hn hop, h.2.imp_right fun hid => hid.operand hn hop⟩

/-- Nothing that is there leads to a new node, where no handle dangles. -/
theorem Intact.readAlong_of_append (h : b.Intact id) (hx : (b.append m).ReadAlong id op) :
    b.ReadAlong id op := by
  induction hx with
  | refl => exact .refl
  | tail _ hstep ih =>
    obtain ⟨n, hn, hop⟩ := hstep
    obtain ⟨old, hold⟩ := Option.isSome_iff_exists.1 (h _ ih)
    cases hn.symm.trans (find?_append_of_some hold)
    exact ih.tail ⟨_, hold, hop⟩

theorem Usable.append (h : b.Usable F id) (hvoid : ¬ F .void) : (b.append m).Usable F id := by
  have hid := h.2.resolve_left hvoid
  exact ⟨fun x hx => h.1 x (hid.readAlong_of_append hx),
    .inr fun x hx => find?_isSome_append (hid x (hid.readAlong_of_append hx))⟩

/-- Where only nodes have changed on which passes may be run, passes may be run again. -/
theorem within_region (hnode : ∀ id n, a.find? id = some n →
      ∃ m, b.find? id = some m ∧ n.Reworked m ∧ (m = n ∨ b.Usable F id))
    (hlists : b.lists = a.lists) (hnames : b.names = a.names)
    (hattributes : b.attributes = a.attributes) : a.Within (b.Region F) b where
  node id n hn := by
    obtain ⟨m, hm, hnm, hsame⟩ := hnode id n hn
    exact ⟨m, hm, hnm, hsame.imp_right .inl⟩
  reads id m hm hid op hop := by
    rcases hid with hid | hid
    · exact .inl (hid.operand hm hop)
    · cases hid.symm.trans hm
  fresh _ hid := .inr hid
  lists_eq := hlists
  names_eq := hnames
  attributes_eq := hattributes

theorem Within.region (h : a.Within S b)
    (hS : ∀ id n, a.find? id = some n → S id → b.Usable F id) : a.Within (b.Region F) b := by
  refine within_region (fun id n hn => ?_) h.lists_eq h.names_eq h.attributes_eq
  obtain ⟨m, hm, hnm, hsame⟩ := h.node id n hn
  exact ⟨m, hm, hnm, hsame.imp_right (hS id n hn)⟩

/-- What is no node now was none before. -/
theorem Within.mem_of_region (h : a.Within (b.Region F) b) (hF : ∀ x, a.find? x = none → F x)
    (hid : b.Region F id) : F id := by
  rcases hid with hid | hid
  · exact hid.1.mem
  · exact hF id (h.find?_eq_none hid)

theorem Within.region_append (h : a.Within (b.Region F) b) (hvoid : ¬ F .void) :
    a.Within ((b.append m).Region F) (b.append m) := by
  refine within_region (fun id n hn => ?_) h.lists_eq h.names_eq h.attributes_eq
  obtain ⟨m', hm', hnm, hsame⟩ := h.node id n hn
  refine ⟨m', find?_append_of_some hm', hnm, hsame.imp_right fun hid => ?_⟩
  rcases hid with hid | hid
  · exact hid.append hvoid
  · cases hid.symm.trans hm'

end Arena

namespace Pass

open ExprTree.Action

/-- Only nodes of a set have changed since a first arena, and since a second one nodes on which
passes may be run have stayed so. -/
structure Follows (a : Arena) (F : NodeId → Prop) (b c : Arena) : Prop where
  within : a.Within (c.Region F) c
  usable : ∀ id, b.Usable F id → c.Usable F id

variable {a b c d : Arena} {F : NodeId → Prop} {cx t : Context} {expr id : NodeId} {n m : Node}
  {kind : NodeKind}

namespace Follows

protected theorem refl (h : a.Within (b.Region F) b) : Follows a F b b := ⟨h, fun _ hid => hid⟩

theorem trans (h : Follows a F b c) (h' : Follows a F c d) : Follows a F b d :=
  ⟨h'.within, fun id hid => h'.usable id (h.usable id hid)⟩

theorem buildable (h : Follows a F b c) (hid : b.Buildable F id) : c.Buildable F id :=
  fun hv => (h.usable id ⟨hid hv, .inl hv⟩).1

/-- A pass has been run. -/
theorem of_within (hF : ∀ x, a.find? x = none → F x) (hb : a.Within (b.Region F) b)
    (h : a.Within (b.Region F) c) (hintact : F .void ∨ ∀ id, b.Intact id → c.Intact id) :
    Follows a F b c := by
  have husable : ∀ id, b.Usable F id → c.Usable F id := fun id hid =>
    ⟨h.enclosed (fun _ => hb.mem_of_region hF) (.inl hid),
      hid.2.elim .inl fun hi => hintact.imp_right fun hc => hc id hi⟩
  refine ⟨h.region fun id n hn hid => husable id (hid.resolve_right fun hnone => ?_), husable⟩
  cases (hb.find?_eq_none hnone).symm.trans hn

/-- A node has been built. -/
theorem append (hF : ∀ x, a.find? x = none → F x) (h : a.Within (b.Region F) b)
    (hops : ∀ op ∈ m.readOperands, b.Buildable F op) : Follows a F b (b.append m) := by
  -- where the void value is in the set, so is the new node; else no usable node leads to it
  by_cases hv : F .void
  · exact of_within hF h (h.append fun op hop => .inl ⟨hops op hop hv, .inl hv⟩) (.inl hv)
  · exact ⟨h.region_append hv, fun _ hid => hid.append hv⟩

end Follows

/-- The answer of a reduction, upon which nodes may be built. -/
def Remains (a : Arena) (F : NodeId → Prop) (cx : Context) (r : NodeId) (t : Context) : Prop :=
  Follows a F cx.arena t.arena ∧ (r ≠ .error → t.arena.Buildable F r)

/-- The same for a reduction that may have no answer. -/
def Offers (a : Arena) (F : NodeId → Prop) (cx : Context) (o : Option NodeId) (t : Context) :
    Prop :=
  Follows a F cx.arena t.arena ∧ ∀ r, o = some r → t.arena.Buildable F r

/-- Where a pass may start at a node. -/
structure Starts (a : Arena) (F : NodeId → Prop) (b : Arena) (expr : NodeId) : Prop where
  within : a.Within (b.Region F) b
  usable : b.Usable F expr
  void : b.Buildable F .void

/-- Calls that reduce such nodes. -/
def Reduces (a : Arena) (F : NodeId → Prop) (p : NodeId → Pass NodeId) : Prop :=
  ∀ op cx, Starts a F cx.arena op → wlp (p op) (Remains a F cx) cx

theorem Starts.after (h : Starts a F b expr) (hc : Follows a F b c) (hid : b.Usable F id) :
    Starts a F c id := ⟨hc.within, hc.usable id hid, hc.buildable h.void⟩

theorem remains_error (h : Follows a F cx.arena t.arena) : Remains a F cx .error t :=
  ⟨h, fun hne => absurd rfl hne⟩

theorem offers_none (h : Follows a F cx.arena t.arena) : Offers a F cx none t := ⟨h, nofun⟩

theorem offers_some (h : Follows a F cx.arena t.arena) (hr : t.arena.Buildable F id) :
    Offers a F cx (some id) t := ⟨h, fun _ hr' => Option.some.inj hr' ▸ hr⟩

/-! ### Uses -/

section Passes

variable (hF : ∀ x, a.find? x = none → F x)
include hF

theorem follows_classifyDiscarded (h : Starts a F cx.arena expr) :
    wlp (classifyDiscarded expr) (fun r t => Follows a F cx.arena t.arena ∧
      (r ≠ .error → t.arena.Usable F r)) cx := by
  refine ((classifyDiscarded_within h.within (.inl h.usable)).and intact_classifyDiscarded).mono
    fun r t ⟨⟨ht, hr⟩, hintact, hri⟩ =>
      ⟨.of_within hF h.within ht (.inr hintact), fun hne => ⟨?_, ?_⟩⟩
  · exact ht.enclosed (fun _ => h.within.mem_of_region hF) (hr hne)
  · exact h.usable.2.imp_right (hri hne)

theorem follows_read {asked : Bool} (h : Starts a F cx.arena expr) :
    wlp (when asked (recordRead expr)) (fun _ t => Follows a F cx.arena t.arena) cx := by
  rw [wlp_when]
  split
  · exact ((recordRead_within h.within (.inl h.usable)).and intact_recordRead).mono
      fun _ t ⟨ht, hintact⟩ => .of_within hF h.within ht (.inr hintact)
  · exact .refl h.within

end Passes

/-! ### Reduction -/

section Void

variable {self : NodeId × DiscardSite → Pass NodeId} {site : DiscardSite} {loc : Span}
  {type : NodeId}

/-- The reduction of an operand that may be missing. -/
theorem mapM_remains {o : Option NodeId} {p : NodeId → Pass NodeId} (hp : Reduces a F p)
    (h : Starts a F cx.arena expr) (ho : ∀ op, o = some op → cx.arena.Usable F op) :
    wlp (o.mapM p) (fun o' t => Follows a F cx.arena t.arena ∧
      (o' ≠ some .error → Option.Rel (fun _ r => t.arena.Buildable F r) o o')) cx := by
  rw [wlp_mapM]
  cases o with
  | none => exact ⟨.refl h.within, fun _ => .none⟩
  | some op =>
    refine (hp op cx (h.after (.refl h.within) (ho op rfl))).mono
      fun r t ⟨ht, hr⟩ => ⟨ht, fun hne => .some (hr ?_)⟩
    simpa using hne

theorem voidDeref_offers (h : Starts a F cx.arena expr) (hn : cx.arena.find? expr = some n)
    {pointer : NodeId} (hk : n.kind = .unary .deref pointer) :
    wlp (voidDeref expr pointer type loc site) (fun r => Offers a F cx (some r)) cx := by
  have hpointer : cx.arena.Usable F pointer :=
    h.usable.operand hn (Node.mem_readOperands_unary hk rfl)
  have hfollows : Follows a F cx.arena cx.arena := .refl h.within
  exact wlp_voidDeref (fun _ _ => offers_some hfollows h.usable.buildable)
    fun _ _ => offers_some hfollows hpointer.buildable

section Kinds

variable (hF : ∀ x, a.find? x = none → F x) (hself : ∀ site, Reduces a F fun op => self (op, site))
  (h : Starts a F cx.arena expr)

include hF

/-- A conditional or a comma is built upon what is left of its operands. -/
theorem buildLike_offers {k : NodeKind} {other : NodeId} {span : Span}
    (ht : Follows a F cx.arena t.arena)
    (hk : k.Rewritten (fun _ r => t.arena.Buildable F r) kind) :
    wlp (some <$> edit (Arena.buildLike other kind span)) (Offers a F cx) t := by
  rw [wlp_map, wlp_edit]
  refine Arena.wlp_buildLike fun m _ => Arena.wlp_build fun flags _ => ?_
  have hstep : Follows a F t.arena (t.arena.append ⟨kind, m.type, flags, span⟩) :=
    .append hF ht.within fun op hop =>
      (Node.mem_readOperands_rewritten hk hop).elim fun _ hr => hr.2
  have hnone : t.arena.find? ⟨t.arena.size⟩ = none := Arena.find?_eq_none_iff.2 (Nat.le_refl _)
  refine offers_some (ht.trans hstep) (hstep.buildable fun _ => Arena.enclosed_of_none hnone ?_)
  exact hF _ (ht.within.find?_eq_none hnone)

include hself h

theorem voidCond_offers (hn : cx.arena.find? expr = some n) {first third : NodeId}
    {second : Option NodeId} (hk : n.kind = .cond first second third) :
    wlp (voidCond self expr first second third loc site) (Offers a F cx) cx := by
  have hsecond : ∀ op ∈ second, cx.arena.Usable F op := fun op ho =>
    h.usable.operand hn (Node.mem_readOperands_second hk ho)
  have hthird : cx.arena.Usable F third :=
    h.usable.operand hn (Node.mem_readOperands_third hk)
  refine wlp_voidCond (fun place => mapM_remains (hself place) h hsecond) ?_
  rintro o t place ⟨ht, ho⟩
  refine (hself place third t (h.after ht hthird)).mono ?_
  rintro r u ⟨hu, hr⟩
  have hrun := ht.trans hu
  refine ⟨fun _ => offers_none hrun,
    fun _ _ _ => offers_some hrun (hrun.buildable h.usable.buildable), fun ho' hr' _ => ?_⟩
  refine buildLike_offers (k := .cond first second third) hF hrun (.cond ?_ (hr hr'))
  exact Reading.rel_mono (fun _ _ => hu.buildable) (ho ho')

theorem voidComma_offers (hn : cx.arena.find? expr = some n) {lhs rhs : NodeId}
    (hk : n.kind = .comma lhs rhs) :
    wlp (voidComma self expr lhs rhs loc site) (Offers a F cx) cx := by
  have hrhs : cx.arena.Usable F rhs := h.usable.operand hn (Node.mem_readOperands_comma hk)
  refine wlp_voidComma fun place => (hself place rhs cx (h.after (.refl h.within) hrhs)).mono ?_
  rintro r t ⟨ht, hr⟩
  exact ⟨fun _ => offers_none ht, fun _ _ => offers_some ht (ht.buildable h.usable.buildable),
    fun hne _ => buildLike_offers (k := .comma lhs rhs) hF ht (.comma (hr hne))⟩

theorem voidByKind_offers (hn : cx.arena.find? expr = some n) :
    wlp (voidByKind self expr type loc site) (Offers a F cx) cx :=
  wlp_voidByKind hn (fun _ _ _ hk => voidCond_offers hF hself h hn hk)
    (fun _ _ hk => voidComma_offers hF hself h hn hk) (fun _ hk => voidDeref_offers h hn hk)
    fun _ _ _ _ => offers_some (.refl h.within) h.usable.buildable

end Kinds

theorem voidNode_remains (hF : ∀ x, a.find? x = none → F x)
    (hself : ∀ site, Reduces a F fun op => self (op, site)) (cx : Context)
    (h : Starts a F cx.arena expr) :
    wlp (voidNode self expr loc site) (Remains a F cx) cx := by
  unfold voidNode
  rw [wlp_bind]
  refine (follows_classifyDiscarded hF h).mono fun r t ⟨ht, hr⟩ => ?_
  rw [wlp_bind, wlp_query]
  intro erroneous herr
  split
  · exact wlp_pure.2 (remains_error ht)
  rename_i hne
  have hr : t.arena.Usable F r := hr (by
    rintro rfl
    cases herr
    exact hne rfl)
  have hstart : Starts a F t.arena r := ⟨ht.within, hr, ht.buildable h.void⟩
  rw [wlp_bind]
  refine (follows_read hF hstart).mono fun _ u hu => ?_
  have hrun := ht.trans hu
  have hleft : Starts a F u.arena r := hstart.after hu hr
  have hkeep : Remains a F cx r u := ⟨hrun, fun _ => hleft.usable.buildable⟩
  refine wlp_voidTyped (fun _ _ _ => hkeep) fun _ type hn _ _ => ?_
  refine (voidByKind_offers hF hself hleft hn).mono fun o v ⟨hv, ho⟩ =>
    ⟨fun e he => ?_, fun _ => remains_error (hrun.trans hv)⟩
  exact wlp_collapse (fun _ => ⟨hrun.trans hv, fun _ => ho e he⟩)
    fun _ => ⟨hrun.trans hv, fun _ => hv.buildable hleft.void⟩

end Void

theorem toVoid_remains {site : DiscardSite} (hF : ∀ x, a.find? x = none → F x)
    (h : Starts a F cx.arena expr) : wlp (toVoid expr site) (Remains a F cx) cx :=
  wlp_recursively_of (P := fun cx (p : NodeId × DiscardSite) => Starts a F cx.arena p.1)
    (Q := fun cx _ => Remains a F cx)
    (fun _ hself _ cx hp => wlp_toVoidStep
      (Q := fun r b => Follows a F cx.arena b ∧ (r ≠ .error → b.Buildable F r))
      ⟨.refl hp.within, fun hne => absurd rfl hne⟩
      fun _ inner => voidNode_remains hF (fun site op => hself (op, site))
        { cx with nesting := inner } hp) h

/-! ### The footprint -/

/-- The reduction of an expression starts in its footprint. -/
theorem starts_footprint (h : a.Footprint expr .void ∨ a.Intact expr) :
    Starts a (a.Footprint expr) a expr := by
  have hfoot := Arena.within_footprint a expr
  have hmem : ∀ id, a.Footprint expr id → a.Enclosed (a.Footprint expr) id :=
    fun _ => hfoot.enclosed fun _ h => h
  refine ⟨hfoot.region fun id n hn hid => ⟨hmem id hid, h.imp_right fun hexpr => ?_⟩,
    ⟨hmem expr (.inl .refl), h⟩, hmem .void⟩
  rcases hid with hid | hid
  · exact fun x hx => hexpr x (hid.trans hx)
  · exact Arena.intact_of_not_isExpression hn (hid n hn).1

/-- Whatever is returned by the use of an expression, by the use of an expression whose value is
discarded, or by the reduction of an expression: among the nodes that were there before, only those
that are read along with the expression have changed, and these only in the operands that carry the
value or the storage, in their spans and by added flags.  For a reduction either the void value,
with which it answers, must be read along with the expression or be no expression or variable, or
no handle that is read along with the expression may dangle. -/
theorem confined_readAlong {cx t : Context} {expr r : NodeId}
    (hrun : (∃ mode, classifyUse expr mode cx = .ok r t) ∨ classifyDiscarded expr cx = .ok r t ∨
      (cx.arena.Footprint expr .void ∨ cx.arena.Intact expr) ∧
        ∃ site, toVoid expr site cx = .ok r t) :
    cx.arena.Confined (cx.arena.ReadAlong expr) t.arena := by
  have hfoot := Arena.within_footprint cx.arena expr
  have hexpr : cx.arena.Footprint expr expr := .inl .refl
  rcases hrun with ⟨mode, hrun⟩ | hrun | ⟨hvoid, site, hrun⟩
  · exact (classifyUse_within hfoot hexpr r t hrun).1.confined fun _ h => h
  · exact (classifyDiscarded_within hfoot hexpr r t hrun).1.confined fun _ h => h
  · have hend := (toVoid_remains hfoot.fresh (starts_footprint hvoid) r t hrun).1.within
    exact hend.confined fun _ => hend.mem_of_region hfoot.fresh

/-- The condition of `c ? *f() : x` is not changed by its reduction. -/
theorem confined_readAlong_conditional :
    Arena.conditional.Footprint ⟨11⟩ .void ∧
    ∃ t, toVoid ⟨11⟩ .cast (.ofArena .conditional .standard) = .ok ⟨12⟩ t ∧
      ¬ Arena.conditional.ReadAlong ⟨11⟩ ⟨7⟩ ∧
      t.arena.find? ⟨7⟩ = Arena.conditional.find? ⟨7⟩ := by
  have hvoid : Arena.conditional.Footprint ⟨11⟩ .void := by
    right
    rintro n ⟨⟩
    exact ⟨rfl, rfl⟩
  have hanswer : (toVoid ⟨11⟩ .cast).answer? (.ofArena .conditional .standard) = some ⟨12⟩ := by
    decide +kernel
  obtain ⟨t, ht⟩ := answer?_eq_some_iff.1 hanswer
  have hread : Arena.conditional.Enclosed (· ∈ [⟨8⟩, ⟨9⟩, ⟨10⟩, ⟨11⟩]) ⟨11⟩ :=
    Arena.enclosed_of_reads (by decide +kernel) (by decide)
  have hcond : ¬ Arena.conditional.ReadAlong ⟨11⟩ ⟨7⟩ := fun h => absurd (hread _ h) (by decide)
  exact ⟨hvoid, t, ht, hcond,
    (confined_readAlong (.inr (.inr ⟨.inl hvoid, _, ht⟩))).outside ⟨7⟩ _ rfl hcond⟩

end Pass

namespace Arena

/-- The arena of the conditional `c ? (f(), 0) : x`, whose last node it is.  The conversion `x`
leads to the node that is built next, and the void value has been made a variable. -/
def dangling : Arena :=
  { Arena.initial with
    nodes := (Arena.initial.nodes.set! 1
        ⟨.decl .var (.named ⟨1⟩), some .voidType, .empty, .unknown⟩) ++ #[
      ⟨.call none .empty, some .intType, .single .effect, .unknown⟩,
      ⟨.intConst 0, some .intType, .empty, .unknown⟩,
      ⟨.comma ⟨6⟩ ⟨7⟩, some .intType, .single .effect, .unknown⟩,
      ⟨.unary .nop ⟨12⟩, some .intType, .empty, .unknown⟩,
      ⟨.decl .var (.named ⟨1⟩), some .boolType, .empty, .unknown⟩,
      ⟨.cond ⟨10⟩ (some ⟨8⟩) ⟨9⟩, some .intType, .single .effect, .unknown⟩] }

end Arena

namespace Pass

open ExprTree.Action

/-- The void value is marked as read as the last operand of the comma that is left of `(f(), 0)`, to
which the last operand of the conditional then leads. -/
theorem not_confined_dangling :
    ∃ t, toVoid ⟨11⟩ .statement (.ofArena .dangling .standard) = .ok ⟨13⟩ t ∧
      ¬ Arena.dangling.Confined (Arena.dangling.ReadAlong ⟨11⟩) t.arena := by
  have hanswer : (toVoid ⟨11⟩ .statement).answer? (.ofArena .dangling .standard) = some ⟨13⟩ := by
    decide +kernel
  have hmarked : ((toVoid ⟨11⟩ .statement).last (.ofArena .dangling .standard)).arena.find? .void ≠
      Arena.dangling.find? .void := by
    decide +kernel
  obtain ⟨t, ht⟩ := answer?_eq_some_iff.1 hanswer
  have hread : Arena.dangling.Enclosed (· ∈ [⟨7⟩, ⟨8⟩, ⟨9⟩, ⟨11⟩, ⟨12⟩]) ⟨11⟩ :=
    Arena.enclosed_of_reads (by decide +kernel) (by decide)
  refine ⟨t, ht, fun h => hmarked ?_⟩
  simp only [Action.last, ht]
  exact h.outside .void _ rfl fun hvoid => absurd (hread _ hvoid) (by decide)

end Pass

end ExprTree
