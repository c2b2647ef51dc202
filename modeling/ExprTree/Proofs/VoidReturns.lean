import ExprTree.Proofs.Chains
import ExprTree.Proofs.Returning

/-!
# Reductions return

Where no handle dangles, every text ends and every chain of conversions leads down, no reduction of
a node ends in a fault, and it leaves such an arena.

* `Pass.faultless_voidByKind`, from `Pass.faultless_voidCond` to `Pass.faultless_voidDeref` — a
  reduction by kind.
* `Pass.faultless_toVoid` — the reduction of a node returns.
* `Pass.toVoid_sound` — the same for sound arenas.
-/

namespace ExprTree

namespace Pass

open ExprTree.Action

variable {cx t : Context} {expr : NodeId} {n : Node} {kind : NodeKind}

section Void

variable {self : NodeId × DiscardSite → Pass NodeId} {site : DiscardSite} {loc : Span}
  {type : NodeId}

/-- A pass that only reports is followed by an answer. -/
theorem Reports.faultless {α : Type} {a : Arena} {p : Pass Unit} {r : α} (hp : Reports p a)
    (ha : cx.arena = a) : Faultless (do p; return r) cx :=
  returns_bind (hp.returns ha fun _ _ => returns_pure trivial)

theorem calls_of_reduces {level : Nesting} {p : NodeId → Pass NodeId}
    (hp : ∀ op t, t.nesting = level → t.arena.Chained → (t.arena.find? op).isSome = true →
      Returns (p op) (fun r u => u.nesting = t.nesting ∧
        ∀ x, Reading.chained.Sound t.arena x → Reading.chained.Reduces t x op r u) t) :
    Calls Arena.Chained level p := by
  intro op t ht h hop
  obtain ⟨x, hx⟩ := h
  exact (hp op t ht ⟨x, hx⟩ hop).mono fun r u ⟨hu, hr⟩ => arrives_of_reaches hu hop (hr x hx)

/-- A conditional or a comma is built from what is left of its operands. -/
theorem faultless_replaced {other : NodeId} {span : Span} (hcx : cx.arena.Closed)
    (hn : cx.arena.find? expr = some n) (ht : Proceeds Arena.Chained cx t)
    (hk : n.kind.Rewritten (fun _ r => (t.arena.find? r).isSome = true) kind)
    (hother : (t.arena.find? other).isSome = true) :
    Faultless (some <$> edit (Arena.buildLike other kind span)) t :=
  returns_map (returns_edit ((Arena.faultless_buildLike ht.keeps.spellable.closed
    (ht.holds hcx hn hk) hother).mono fun _ _ _ => trivial))

theorem faultless_voidCond
    (hself : ∀ site, Calls Arena.Chained cx.nesting fun op => self (op, site))
    (h : cx.arena.Chained) (hn : cx.arena.find? expr = some n) {first third : NodeId}
    {second : Option NodeId} (hk : n.kind = .cond first second third) :
    Faultless (voidCond self expr first second third loc site) cx := by
  have hcx := h.spellable.closed
  have hreads : ∀ op ∈ second.toList ++ [third], (cx.arena.find? op).isSome = true :=
    fun op hop => (hcx.holds expr n hn).nodes op
      (Node.mem_nodes_of_readOperands (by simpa only [Node.readOperands, hk] using hop))
  obtain ⟨effect, heffect⟩ := Arena.anyM_isOk (p := cx.arena.hasEffect)
    fun op hop => Arena.hasFlag_isOk (hreads op hop)
  refine returns_bind (returns_query heffect (returns_bind (((hself _).mapM (.refl h)
    fun op ho => hreads op (by simp [ho])).mono ?_)))
  rintro o t ⟨ht, ho⟩
  refine returns_bind (((hself _).after ht (hreads third (by simp))).mono ?_)
  rintro r u ⟨hu, hr⟩
  split
  · exact returns_pure trivial
  rename_i hne
  rw [not_or] at hne
  split
  · exact returns_pure trivial
  · exact faultless_replaced hcx hn (ht.trans hu)
      (hk ▸ .cond (rel_isSome hu.evolves (ho hne.1)) (hr hne.2)) (hr hne.2)

theorem faultless_voidComma
    (hself : ∀ site, Calls Arena.Chained cx.nesting fun op => self (op, site))
    (h : cx.arena.Chained) (hn : cx.arena.find? expr = some n) {lhs rhs : NodeId}
    (hk : n.kind = .comma lhs rhs) :
    Faultless (voidComma self expr lhs rhs loc site) cx := by
  have hcx := h.spellable.closed
  have hrhs : (cx.arena.find? rhs).isSome = true := (hcx.holds expr n hn).nodes rhs
    (Node.mem_nodes_of_readOperands (Node.mem_readOperands_comma hk))
  have hflags : cx.arena.suppressesAny expr = .ok _ :=
    Arena.map_eq_ok_iff.2 ⟨_, Arena.map_node_of_find? hn, rfl⟩
  refine returns_bind (returns_query hflags
    (returns_bind (((hself _).after (.refl h) hrhs).mono ?_)))
  rintro r t ⟨ht, hr⟩
  split
  · exact returns_pure trivial
  rename_i hne
  split
  · exact returns_pure trivial
  · exact faultless_replaced hcx hn ht (hk ▸ .comma (hr hne)) (hr hne)

theorem faultless_voidDeref (h : cx.arena.Chained) (hn : cx.arena.find? expr = some n)
    {pointer : NodeId} (hk : n.kind = .unary .deref pointer)
    (htype : (cx.arena.find? type).isSome = true) :
    Faultless (voidDeref expr pointer type loc site) cx := by
  have hcx := h.spellable.closed
  have hpointer : (cx.arena.find? pointer).isSome = true :=
    (hcx.holds expr n hn).nodes pointer (by rw [hk]; exact List.mem_singleton_self _)
  obtain ⟨reference, hreference⟩ := hcx.isReference hpointer
  obtain ⟨m, hm⟩ := Option.isSome_iff_exists.1 htype
  obtain ⟨p, hp⟩ := Option.isSome_iff_exists.1 hpointer
  refine returns_bind (returns_query hreference (returns_field hm ?_))
  split
  · exact (reports_warnVolatile h.spellable htype).faultless rfl
  · refine returns_bind ((reports_warnUnusedValue (Option.isSome_of_mem hn)).returns rfl
      fun _ queue => returns_field hp ?_)
    exact (reports_warnIgnored h.spellable h.strippable hpointer).when.faultless rfl

theorem faultless_voidByKind
    (hself : ∀ site, Calls Arena.Chained cx.nesting fun op => self (op, site))
    (h : cx.arena.Chained) (hexpr : (cx.arena.find? expr).isSome = true)
    (htype : (cx.arena.find? type).isSome = true) :
    Faultless (voidByKind self expr type loc site) cx := by
  obtain ⟨n, hn⟩ := Option.isSome_iff_exists.1 hexpr
  refine returns_field hn ?_
  split
  · rename_i hk
    exact faultless_voidCond hself h hn hk
  · rename_i hk
    exact faultless_voidComma hself h hn hk
  · rename_i hk
    exact returns_map (faultless_voidDeref h hn hk htype)
  · exact (reports_warnIgnored h.spellable h.strippable hexpr).faultless rfl
  · exact (reports_warnIgnored h.spellable h.strippable hexpr).faultless rfl
  · exact (reports_warnVariable h.spellable htype).faultless rfl
  · exact returns_pure trivial

theorem faultless_voidTyped
    (hself : ∀ site, Calls Arena.Chained cx.nesting fun op => self (op, site))
    (hwlp : ∀ p t x, Reading.chained.Sound t.arena x →
      wlp (self p) (Reading.chained.Reduces t x p.1) t)
    (h : cx.arena.Chained) (hexpr : (cx.arena.find? expr).isSome = true) :
    Faultless (voidTyped self expr loc site) cx := by
  obtain ⟨n, hn⟩ := Option.isSome_iff_exists.1 hexpr
  refine returns_field hn ?_
  cases ht : n.type with
  | none => exact returns_pure trivial
  | some type =>
    have htype := h.spellable.closed.type expr n hn type ht
    obtain ⟨m, hm⟩ := Option.isSome_iff_exists.1 htype
    have hvoid : cx.arena.isVoidType type = .ok (m.kind == .voidType) :=
      Arena.map_kindOf_of_find? hm
    refine returns_bind (returns_query hvoid ?_)
    split
    · exact returns_pure trivial
    obtain ⟨x, hx⟩ := h
    have hoffers : wlp (voidByKind self expr type loc site)
        (Reading.chained.Offers cx x expr) cx :=
      Reading.voidByKind_offers Reading.chained_lawful (fun p t y hy => hwlp p t y hy.sound)
        ⟨hx, trivial⟩ hn ht
    refine returns_bind (((faultless_voidByKind hself ⟨x, hx⟩ hexpr htype).of_wlp hoffers).mono ?_)
    rintro o t ⟨y, hy, hl, ho⟩
    cases o with
    | none => exact returns_pure trivial
    | some e =>
      obtain ⟨l, hl⟩ := Option.isSome_iff_exists.1 ((ho e rfl).isSome (hl.1.isSome hexpr))
      exact returns_field hl (returns_pure trivial)

theorem faultless_voidNode (cx : Context)
    (hself : ∀ site, Calls Arena.Chained cx.nesting fun op => self (op, site))
    (hwlp : ∀ p t x, Reading.chained.Sound t.arena x →
      wlp (self p) (Reading.chained.Reduces t x p.1) t)
    (h : cx.arena.Chained) (hexpr : (cx.arena.find? expr).isSome = true) :
    Faultless (voidNode self expr loc site) cx := by
  obtain ⟨x, hx⟩ := h
  have hplaces := Reading.classifyDiscarded_places Reading.chained_lawful expr cx ⟨hx, trivial⟩
  have hbalanced := (balanced_law.classifyDiscarded expr).restores cx
  have hspellable : cx.arena.Spellable := Arena.Chained.spellable ⟨x, hx⟩
  refine returns_bind (((faultless_classifyDiscarded hspellable hexpr).of_wlp
    (hplaces.and hbalanced)).mono ?_)
  rintro r t ⟨⟨y, hy, hl, hr⟩, hdepth⟩
  have ht : Proceeds Arena.Chained cx t := ⟨hl.1, ⟨y, hy⟩, hdepth.nesting_eq⟩
  have hsome : r ≠ .error → (t.arena.find? r).isSome = true := fun hne =>
    (hr hne).present.isSome (hl.1.isSome hexpr)
  -- what is used is there, unless the use went wrong
  obtain ⟨erroneous, herroneous⟩ := Arena.isErroneous_isOk (or_iff_not_imp_left.2 hsome)
  refine returns_bind (returns_query herroneous ?_)
  split
  · exact returns_pure trivial
  rename_i hne
  have hleft : (t.arena.find? r).isSome = true := hsome (by
    rintro rfl
    cases herroneous
    exact hne rfl)
  refine returns_bind ((returns_read Arena.Chained.marked ht.keeps.spellable.closed ht.keeps
    hleft).mono fun _ u hu => ?_)
  have hrun := ht.trans hu
  exact faultless_voidTyped (fun site => hrun.nesting_eq.symm ▸ hself site) hwlp hu.keeps
    (hu.evolves.isSome hleft)

theorem faultless_toVoidStep (hbalanced : ∀ p, Balanced (self p))
    (hself : ∀ inner, cx.nesting.enter = .ok inner →
      ∀ site, Calls Arena.Chained inner fun op => self (op, site))
    (hwlp : ∀ p t x, Reading.chained.Sound t.arena x →
      wlp (self p) (Reading.chained.Reduces t x p.1) t)
    (h : cx.arena.Chained) (hexpr : (cx.arena.find? expr).isSome = true) :
    Faultless (toVoidStep self (expr, site)) cx := by
  obtain ⟨erroneous, herroneous⟩ := Arena.isErroneous_isOk (.inr hexpr)
  refine returns_bind (returns_query herroneous ?_)
  split
  · exact returns_pure trivial
  · exact returns_location hexpr fun loc => faultless_nested
      (balanced_law.voidNode hbalanced expr loc site) fun inner hinner =>
        faultless_voidNode { cx with nesting := inner } (hself inner hinner) hwlp h hexpr

end Void

/-- The reduction of a node returns. -/
theorem faultless_toVoid {site : DiscardSite} (h : cx.arena.Chained)
    (hexpr : (cx.arena.find? expr).isSome = true) : Faultless (toVoid expr site) cx :=
  faultless_recursively
    (P := fun cx (p : NodeId × DiscardSite) =>
      cx.arena.Chained ∧ (cx.arena.find? p.1).isSome = true)
    (Q := fun cx p r t => ∀ x, Reading.chained.Sound cx.arena x →
      Reading.chained.Reduces cx x p.1 r t)
    (fun _ => balanced_law.toVoidStep)
    (fun _ hself _ cx => wlp_forall.2 fun _ hx => Reading.toVoidStep_reduces
      Reading.chained_lawful cx (fun p t y hy => wlp_forall.1 (hself p t) y hy.sound) ⟨hx, trivial⟩)
    (fun _ hself hwlp _ _ hp hcalls => faultless_toVoidStep hself
      (fun inner hinner site => calls_of_reduces fun op t ht h hop =>
        hcalls inner hinner (op, site) t ht ⟨h, hop⟩)
      (fun p t => wlp_forall.1 (hwlp p t)) hp.1 hp.2) ⟨h, hexpr⟩

/-- In a sound arena the reduction of a node returns, and leaves a closed arena. -/
theorem toVoid_sound (site : DiscardSite) (h : cx.arena.Sound)
    (hexpr : (cx.arena.find? expr).isSome = true) :
    ∃ r t, toVoid expr site cx = .ok r t ∧ t.arena.Closed := by
  have hreturns : Faultless (toVoid expr site) cx := faultless_toVoid h.chained hexpr
  obtain ⟨r, t, hrun, -⟩ := hreturns
  exact ⟨r, t, hrun, (closed_toVoid h.closed r t hrun).2.1⟩

end Pass

end ExprTree
