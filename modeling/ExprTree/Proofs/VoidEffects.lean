import ExprTree.Proofs.ExactEffects

/-!
# What reduction leaves of an effect

Where effect flags are exact, what is left of an expression whose value is discarded has an effect
if and only if the expression has one.  Of an expression whose type is not void the void value is
left exactly when there was no effect.

* `Pass.toVoid_collapses` — what is left of an expression whose type is not void.
* `Pass.effect_toVoid` — what is left has the effect of the expression.
-/

namespace ExprTree

namespace Arena

/-- The arena of the conditional `c ? *f() : x`, whose last node it is. -/
def conditional : Arena :=
  { Arena.initial with
    nodes := Arena.initial.nodes ++ #[
      ⟨.pointerType .intType, none, .empty, .unknown⟩,
      ⟨.decl .var (.named ⟨1⟩), some .boolType, .empty, .unknown⟩,
      ⟨.call none .empty, some ⟨6⟩, .single .effect, .unknown⟩,
      ⟨.unary .deref ⟨8⟩, some .intType, .single .effect, .unknown⟩,
      ⟨.decl .var (.named ⟨2⟩), some .intType, .empty, .unknown⟩,
      ⟨.cond ⟨7⟩ (some ⟨9⟩) ⟨10⟩, some .intType, .single .effect, .unknown⟩] }

end Arena

namespace Pass

open ExprTree.Action

variable {cx : Context} {expr type : NodeId} {site : DiscardSite}

/-- The error node, the void value, or a node with an effect. -/
def Collapsed (r : NodeId) (t : Context) : Prop :=
  r = .error ∨ r = .void ∨ t.arena.hasEffect r = .ok true

theorem collapse_collapses : wlp (collapse expr) Collapsed cx :=
  wlp_collapse (fun heff => .inr (.inr heff)) fun _ => .inr (.inl rfl)

theorem voidNode_collapses {self : NodeId × DiscardSite → Pass NodeId} {loc : Span}
    (cx : Context) (h : cx.arena.WellFlagged) (ht : cx.arena.typeOf expr = .ok (some type))
    (hv : cx.arena.isVoidType type = .ok false) :
    wlp (voidNode self expr loc site) Collapsed cx := by
  refine wlp_voidNode (Reading.classifyDiscarded_places Reading.effects_lawful expr cx (x := ())
      ⟨h, trivial⟩)
    (fun _ _ _ => .inl rfl) fun r t u ⟨_, ht', hl, hr⟩ hne hmark => ?_
  -- the type of what is left is not void, before reads are marked and after
  obtain ⟨-, hlu⟩ := Reading.keeps_of_marked Reading.effects_lawful hmark () ht'
  have htype : u.arena.typeOf r = .ok (some type) :=
    hlu.1.typeOf ((hr hne).1.typeOf (hl.1.typeOf ht))
  have hvoid : u.arena.isVoidType type = .ok false := hlu.1.isVoidType (hl.1.isVoidType hv)
  refine wlp_voidTyped (fun n hn hless => ?_) fun _ _ _ _ _ _ _ _ =>
    ⟨fun _ _ => collapse_collapses, fun _ => .inl rfl⟩
  obtain ⟨m, hm, hmt⟩ := Arena.map_eq_ok_iff.1 htype
  cases hn.symm.trans (Arena.node_eq_ok_iff.1 hm)
  cases hvoid.symm.trans (hless type hmt)

/-- What is left of an expression whose type is not void has an effect or is the void value. -/
theorem toVoid_collapses (h : cx.arena.WellFlagged)
    (ht : cx.arena.typeOf expr = .ok (some type)) (hv : cx.arena.isVoidType type = .ok false) :
    wlp (toVoid expr site) Collapsed cx :=
  wlp_recursively_of_step fun _ => wlp_toVoidStep
    (Q := fun r b => r = NodeId.error ∨ r = .void ∨ b.hasEffect r = .ok true) (.inl rfl)
    fun _ inner => voidNode_collapses { cx with nesting := inner } h ht hv

/-- What is left of an expression has an effect if and only if the expression had one, and of an
expression whose type is not void the void value is left exactly when it had none. -/
theorem effect_toVoid {effect : Bool} {r : NodeId} {t : Context} (h : cx.arena.WellFlagged)
    (heff : cx.arena.hasEffect expr = .ok effect) (hrun : toVoid expr site cx = .ok r t)
    (hr : r ≠ .error) :
    t.arena.hasEffect r = .ok effect ∧
      ∀ type, cx.arena.typeOf expr = .ok (some type) → cx.arena.isVoidType type = .ok false →
        (r = .void ↔ effect = false) := by
  obtain ⟨_, ht, hl, hsame⟩ :=
    Reading.toVoid_reduces Reading.effects_lawful expr site cx (x := ()) ⟨h, trivial⟩ r t hrun
  have heff' : t.arena.hasEffect r = .ok effect :=
    (hsame hr).hasEffect_eq.trans (hl.2 expr effect heff)
  refine ⟨heff', fun type htype hvoid => ⟨?_, ?_⟩⟩
  · rintro rfl
    cases heff'.symm.trans ht.hasEffect_void
    rfl
  · rintro rfl
    rcases toVoid_collapses h htype hvoid r t hrun with he | hv | he
    · exact absurd he hr
    · exact hv
    · cases heff'.symm.trans he

/-- Of `c ? *f() : x` the call is left under its condition. -/
theorem effect_toVoid_conditional : Arena.conditional.WellFlagged ∧
    ∃ t, toVoid ⟨11⟩ .cast (.ofArena .conditional .standard) = .ok ⟨12⟩ t ∧
      t.arena.hasEffect ⟨12⟩ = .ok true := by
  have hflags : Arena.conditional.WellFlagged := by decide +kernel
  have hanswer : (toVoid ⟨11⟩ .cast).answer? (.ofArena .conditional .standard) = some ⟨12⟩ := by
    decide +kernel
  obtain ⟨t, ht⟩ := answer?_eq_some_iff.1 hanswer
  exact ⟨hflags, t, ht, (effect_toVoid hflags (by decide +kernel) ht (by decide)).1⟩

end Pass

end ExprTree
