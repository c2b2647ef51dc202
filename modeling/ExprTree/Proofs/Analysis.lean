import ExprTree.Proofs.Builders

/-!
# Whole analyses

An analysis builds nodes and runs passes in any order.  Every arena on the way is consistent, and
so every effect flag says what it should, even where a pass gives up half way.

* `Context.Step`, `Context.Reachable` — the steps of an analysis, and the contexts it can reach.
* `Context.Step.consistent` — a step keeps the arena consistent.
* `Context.Reachable.consistent` — the arena of a reachable context is consistent.
* `Context.Reachable.effect_iff` — a node of a reachable context has an effect for one of three
  reasons.
-/

namespace ExprTree

/-! ### Passes -/

/-- Passes give new nodes types that are there, and give types to no old node. -/
theorem Arena.Consistent.of_evolves {a b : Arena} (h : a.Consistent) (hb : b.WellFlagged)
    (hev : a.Evolves b) : b.Consistent where
  flagged := hb
  type_mem id m hm t hmem := by
    cases ha : a.find? id with
    | some n =>
      obtain ⟨m', hm', hnm⟩ := hev.node id n ha
      cases hm.symm.trans hm'
      refine hev.isSome (h.type_mem id n ha t (NodeKind.mem_namedTypes.2 ?_))
      refine (NodeKind.mem_namedTypes.1 hmem).imp (fun ht => hnm.type_eq ▸ ht) fun hk => ?_
      rw [← hk]
      exact NodeKind.eq_of_skeleton hnm.skeleton_eq.symm (by rw [hk]; rfl)
    | none =>
      rcases NodeKind.mem_namedTypes.1 hmem with ht | hk
      · rcases hev.fresh id m t hm ha ht with hsome | ⟨old, n, hn, htype⟩
        · exact hsome
        · exact hev.isSome (h.type_mem old n hn t (NodeKind.mem_namedTypes.2 (.inl htype)))
      · have := hev.fresh_isType id m hm ha
        rw [hk] at this
        cases this
  sizeType := hev.isSome h.sizeType

namespace Context

/-- One step of an analysis: a builder, a pass that returns, or anything that leaves the arena as
it is. -/
inductive Step (cx : Context) : Context → Prop
  | build {a : Arena} (h : Arena.Built cx.arena a) : Step cx { cx with arena := a }
  | use {expr r : NodeId} {mode : UseMode} {t : Context}
    (hrun : Pass.classifyUse expr mode cx = .ok r t) : Step cx t
  | rvalueUse {expr r : NodeId} {t : Context} (hrun : Pass.rvalueUse expr cx = .ok r t) : Step cx t
  | rvalueUseAt {expr r : NodeId} {loc : Span} {rejectBuiltin : Bool} {t : Context}
    (hrun : Pass.rvalueUseAt expr loc rejectBuiltin cx = .ok r t) : Step cx t
  | lvalueUse {expr r : NodeId} {read : Bool} {t : Context}
    (hrun : Pass.lvalueUse expr read cx = .ok r t) : Step cx t
  | discardedUse {expr r : NodeId} {t : Context}
    (hrun : Pass.classifyDiscarded expr cx = .ok r t) : Step cx t
  | read {expr : NodeId} {t : Context} (hrun : Pass.recordRead expr cx = .ok () t) : Step cx t
  | dereference {value r : NodeId} {t : Context} (hrun : Pass.dereference value cx = .ok r t) :
    Step cx t
  | toVoid {expr r : NodeId} {site : DiscardSite} {t : Context}
    (hrun : Pass.toVoid expr site cx = .ok r t) : Step cx t
  | warnIgnored {expr : NodeId} {site : DiscardSite} {t : Context}
    (hrun : Pass.warnIgnored expr site cx = .ok () t) : Step cx t
  | other {t : Context} (h : t.arena = cx.arena) : Step cx t

/-- A context that an analysis of a new arena can reach. -/
inductive Reachable (config : Config) : Context → Prop
  | initial : Reachable config (initial config)
  | step {cx t : Context} (h : Reachable config cx) (hstep : Step cx t) : Reachable config t

variable {cx t : Context}

theorem consistent_of_places {expr r : NodeId} (h : cx.arena.Consistent)
    (hr : Reading.effects.Places cx () expr r t) : t.arena.Consistent := by
  obtain ⟨_, ht, hl, -⟩ := hr
  exact h.of_evolves ht hl.1

theorem dereference_consistent {value r : NodeId} (h : cx.arena.Consistent)
    (hrun : Pass.dereference value cx = .ok r t) : t.arena.Consistent := by
  refine Pass.wlp_dereference (Q := fun _ t => t.arena.Consistent) (fun _ => h)
    (fun target htarget => ?_) r t hrun
  refine (Reading.recordRead_keeps Reading.effects_lawful value cx).mono fun _ u hu span _ => ?_
  obtain ⟨hs, hl⟩ := hu () h.flagged
  have hcons : u.arena.Consistent := h.of_evolves hs hl.1
  have htarget' := hl.1.referent? htarget
  obtain ⟨n, type, m, hn, htype, hm, hk⟩ := Arena.referent?_eq_some_iff.1 htarget'
  have hmem : (u.arena.find? target).isSome = true :=
    hcons.type_mem type m hm target (NodeKind.mem_namedTypes.2 (.inr hk))
  refine (Arena.build_builds hcons ⟨?_, NodeKind.forall_namedTypes_some (by nofun) hmem, ?_⟩).mono
    fun _ _ hb => hb.consistent
  · exact Arena.inRange_of_operands rfl (by simp [hn])
  · rintro pointer target' ⟨⟩ hr
    rw [← hr, htarget']

/-- A step keeps the arena consistent. -/
theorem Step.consistent (h : cx.arena.Consistent) (hstep : Step cx t) : t.arena.Consistent := by
  have hR := Reading.effects_lawful
  have hx : ∀ id, Reading.effects.Admits cx.arena () id := fun _ => ⟨h.flagged, trivial⟩
  cases hstep with
  | build hb => exact hb.consistent h
  | use hrun =>
    exact consistent_of_places h (Reading.classifyUse_places hR _ _ cx (hx _) _ t hrun)
  | rvalueUse hrun | rvalueUseAt hrun =>
    exact consistent_of_places h (Reading.classifyUse_places hR _ _ cx (hx _) _ t hrun)
  | lvalueUse hrun =>
    exact consistent_of_places h (Reading.classifyUse_places hR _ _ cx (hx _) _ t hrun)
  | discardedUse hrun =>
    exact consistent_of_places h (Reading.classifyDiscarded_places hR _ cx (hx _) _ t hrun)
  | read hrun =>
    obtain ⟨hs, hl⟩ := Reading.recordRead_keeps hR _ cx () t hrun () h.flagged
    exact h.of_evolves hs hl.1
  | dereference hrun => exact dereference_consistent h hrun
  | toVoid hrun =>
    obtain ⟨_, ht, hl, -⟩ :=
      Reading.toVoid_reduces hR _ _ cx (x := ()) ⟨h.flagged, trivial⟩ _ t hrun
    exact h.of_evolves ht hl.1
  | warnIgnored hrun =>
    rw [Pass.quiet_warnIgnored cx _ t hrun]
    exact h
  | other ht => exact ht ▸ h

/-- The arena of a reachable context is consistent. -/
theorem Reachable.consistent {config : Config} (h : Reachable config cx) :
    cx.arena.Consistent := by
  induction h with
  | initial => exact Arena.initial_consistent
  | step _ hstep ih => exact hstep.consistent ih

/-- A node of a reachable context has an effect exactly if its kind has one, if it accesses a
volatile object, or if an operand that is evaluated has an effect. -/
theorem Reachable.effect_iff {config : Config} (h : Reachable config cx) {id : NodeId} {n : Node}
    (hn : cx.arena.find? id = some n) : ∃ ops, cx.arena.operands id = .ok ops ∧
      (n.flags.has .effect = true ↔ n.kind.hasOwnEffect = true ∨ cx.arena.VolatileAccess n ∨
        n.kind.isUnevaluated = false ∧ ∃ op ∈ ops, cx.arena.hasEffect op = .ok true) := by
  obtain ⟨f, hf, he⟩ := h.consistent.flagged.exact id n hn
  obtain ⟨ops, hops⟩ := Arena.handles_isOk hf
  refine ⟨ops, ?_, ?_⟩
  · exact Arena.bind_eq_ok_iff.2 ⟨n.kind, Arena.kindOf_eq_ok_iff.2 ⟨n, hn, rfl⟩, hops⟩
  · rw [← he, Arena.has_effect_derivedFlags hf, Arena.InheritsEffect, hops]
    simp

/-- The arena of `f(), *f()` with one node for both calls. -/
def callTwice : Arena :=
  { Arena.initial with
    nodes := Arena.initial.nodes ++ #[
      ⟨.pointerType .intType, none, .empty, .unknown⟩,
      ⟨.call none .empty, some ⟨6⟩, .single .effect, .unknown⟩,
      ⟨.unary .deref ⟨7⟩, some .intType, .single .effect, .unknown⟩,
      ⟨.comma ⟨7⟩ ⟨8⟩, some .intType, .single .effect, .unknown⟩] }

/-- That arena when only so many of its nodes had been built. -/
def callTwiceUpTo (size : Nat) : Arena :=
  { callTwice with nodes := callTwice.nodes.extract 0 size }

theorem reachable_callTwice : Reachable .standard (ofArena callTwice .standard) := by
  have hcall : Arena.buildCall none [] (some ⟨6⟩) .unknown (callTwiceUpTo 7) =
      .ok ⟨7⟩ (callTwiceUpTo 8) := by rfl
  have hderef : Arena.build (.unary .deref ⟨7⟩) (some .intType) .unknown (callTwiceUpTo 8) =
      .ok ⟨8⟩ (callTwiceUpTo 9) := by rfl
  have hcomma : Arena.buildComma ⟨7⟩ ⟨8⟩ .unknown (callTwiceUpTo 9) = .ok ⟨9⟩ callTwice := by rfl
  have hadmits : (callTwiceUpTo 8).Admits (.unary .deref ⟨7⟩) (some .intType) :=
    { inRange := Arena.inRange_of_operands rfl (by decide +kernel)
      type_mem := NodeKind.forall_namedTypes_some nofun (by decide +kernel)
      deref := by
        rintro pointer target ⟨⟩ h
        cases (show (callTwiceUpTo 8).referent? ⟨7⟩ = none by decide +kernel).symm.trans h }
  have htype : Reachable .standard (ofArena (callTwiceUpTo 7) .standard) :=
    Reachable.initial.step (.build (@Arena.Built.type _ (.pointerType .intType) rfl nofun))
  exact ((htype.step (.build (.call (by nofun) (by decide +kernel) hcall))).step
    (.build (.build hadmits hderef))).step (.build (.comma (by decide +kernel) hcomma))

/-- Reduction of the comma builds one of the two calls, whose effect follows from its operands. -/
theorem effect_iff_callTwice : ∃ t n, Reachable .standard t ∧
    Pass.toVoid ⟨9⟩ .cast (ofArena callTwice .standard) = .ok ⟨10⟩ t ∧
    t.arena.find? ⟨10⟩ = some n ∧ ∃ ops, t.arena.operands ⟨10⟩ = .ok ops ∧
      (n.flags.has .effect = true ↔ n.kind.hasOwnEffect = true ∨ t.arena.VolatileAccess n ∨
        n.kind.isUnevaluated = false ∧ ∃ op ∈ ops, t.arena.hasEffect op = .ok true) := by
  have hanswer : (do
      let r ← Pass.toVoid ⟨9⟩ .cast
      Pass.query fun a => (a.node r).map (r, ·)).answer? (ofArena callTwice .standard) =
      some (⟨10⟩, ⟨.comma ⟨7⟩ ⟨7⟩, some ⟨6⟩, .single .effect, .unknown⟩) := by
    decide +kernel
  obtain ⟨u, hu⟩ := Action.answer?_eq_some_iff.1 hanswer
  obtain ⟨r, t, ht, hq⟩ := Action.bind_eq_ok_iff.1 hu
  have hnode : Action.wlp (Pass.query fun a => (a.node r).map (r, ·))
      (fun p _ => (t.arena.node r).map (r, ·) = .ok p) t := Pass.wlp_query.2 fun _ hp => hp
  obtain ⟨n, hn, hp⟩ := Arena.map_eq_ok_iff.1 (hnode _ u hq)
  cases hp
  rw [Arena.node_eq_ok_iff] at hn
  have hreach : Reachable .standard t := reachable_callTwice.step (.toVoid ht)
  exact ⟨t, _, hreach, ht, hn, hreach.effect_iff hn⟩

end Context

end ExprTree
