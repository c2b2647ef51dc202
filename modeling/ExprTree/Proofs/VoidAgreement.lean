import ExprTree.Proofs.TwinLaws
import ExprTree.Proofs.VoidEffects
import ExprTree.Proofs.VoidReturns

/-!
# What reduction depends on

What is left of an expression whose value is discarded, and the arena in which it is left, depend on
the arena, the input location and the room for levels alone.  The place of the expression, earlier
diagnostics and unevaluated operands around it decide about warnings and marks of reads.

* `Pass.coupled_twinsAt` — passes in contexts that agree.
* `Pass.coupled_toVoid` — reductions at two places.
* `Pass.toVoid_agree` — the answers and the arenas of two reductions.
* `Pass.not_toVoid_agree_danglingNop` — where only one of two reductions returns.
-/

namespace ExprTree

namespace Pass

open ExprTree.Action

/-- What agreeing contexts are asked, how they are changed and which levels are entered in them is
the same in both, whatever is reported and read. -/
theorem coupled_twins : Twins (Coupled Context.Agrees Eq) where
  ask := coupled_ask
  bind := Coupled.bind_eq
  edit hc := coupled_edit hc.coupled
  nested := coupled_nested coupled_enter coupled_leave rfl

/-- A warning that only one of the places leads to changes nothing else, and neither does a read. -/
theorem coupled_twinsAt : TwinsAt (fun _ _ => True) (Coupled Context.Agrees Eq) where
  toTwins := coupled_twins
  part _ _ _ := trivial
  read _ _ := passive_recordRead.when.coupled passive_recordRead.when
  warnVolatile _ _ _ _ := quiet_warnVolatile.passive.coupled quiet_warnVolatile.passive
  warnUnusedValue _ _ _ _ :=
    quiet_warnUnusedValue.passive.coupled quiet_warnUnusedValue.passive
  warnVariable _ _ _ _ := quiet_warnVariable.passive.coupled quiet_warnVariable.passive
  warnIgnored _ _ := quiet_warnIgnored.passive.coupled quiet_warnIgnored.passive

/-- Reductions of an expression at two places. -/
theorem coupled_toVoid {expr : NodeId} {site site' : DiscardSite} :
    Coupled Context.Agrees Eq (toVoid expr site) (toVoid expr site') :=
  coupled_twinsAt.toVoid trivial expr

/-- Two reductions of an expression in the same arena, with the same input location and room for
levels, return the same answer and leave arenas that are the same but for marks of reads: neither
earlier diagnostics, nor unevaluated operands around the expression, nor its places matter.  In a
sound arena both return. -/
theorem toVoid_agree (cx cx' : Context) (expr : NodeId) (site site' : DiscardSite)
    (harena : cx.arena = cx'.arena) (hloc : cx.inputLocation = cx'.inputLocation)
    (hnesting : cx.nesting = cx'.nesting) :
    (∀ r t r' t', toVoid expr site cx = .ok r t → toVoid expr site' cx' = .ok r' t' →
      r = r' ∧ t.arena.SameButReads t'.arena) ∧
    (cx.arena.Sound → (cx.arena.find? expr).isSome = true →
      ∃ r t t', toVoid expr site cx = .ok r t ∧ toVoid expr site' cx' = .ok r t' ∧
        t.arena.SameButReads t'.arena) := by
  have hstart : cx.Agrees cx' := ⟨congrArg Arena.unread harena, hloc, hnesting⟩
  have hagree : ∀ r t r' t', toVoid expr site cx = .ok r t → toVoid expr site' cx' = .ok r' t' →
      r = r' ∧ t.arena.SameButReads t'.arena := fun r t r' t' hrun hrun' => by
    obtain ⟨hr, hend⟩ := coupled_toVoid hstart hrun hrun'
    exact ⟨hr, hend.arena⟩
  refine ⟨hagree, fun hsound hexpr => ?_⟩
  have hsound' : cx'.arena.Sound := harena ▸ hsound
  obtain ⟨r, t, hrun, -⟩ := toVoid_sound site hsound hexpr
  obtain ⟨r', t', hrun', -⟩ := toVoid_sound site' hsound' (harena ▸ hexpr)
  obtain ⟨rfl, hsame⟩ := hagree r t r' t' hrun hrun'
  exact ⟨r, t, t', hrun, hrun', hsame⟩

/-- As a statement inside an unevaluated operand, `c ? *f() : x` leaves what its cast leaves. -/
theorem toVoid_agree_conditional : Arena.conditional.Sound ∧
    ∃ r t t', toVoid ⟨11⟩ .cast (.ofArena .conditional .standard) = .ok r t ∧
      toVoid ⟨11⟩ .statement { Context.ofArena .conditional .standard with
        queue := .fresh .unlimited, unevaluatedDepth := 1 } = .ok r t' ∧
      t.arena.SameButReads t'.arena := by
  have hclosed : Arena.conditional.Closed := by decide +kernel
  have hsound : Arena.conditional.Sound := hclosed.sound (by decide +kernel)
  exact ⟨hsound, (toVoid_agree (.ofArena .conditional .standard)
    { Context.ofArena .conditional .standard with
      queue := .fresh .unlimited, unevaluatedDepth := 1 }
    ⟨11⟩ .cast .statement rfl rfl rfl).2 hsound (by decide)⟩

end Pass

/-- The arena of a conversion, its last node, whose operand leads to no node. -/
def Arena.danglingNop : Arena :=
  { Arena.initial with
    nodes := Arena.initial.nodes ++ #[⟨.unary .nop ⟨7⟩, some .intType, .empty, .unknown⟩] }

namespace Pass

/-- A conversion with a dangling operand has no effect, so a statement drops it; its cast is a read,
which follows the operand. -/
theorem not_toVoid_agree_danglingNop :
    (toVoid ⟨6⟩ .statement).answer? (.ofArena .danglingNop .standard) = some .void ∧
      (toVoid ⟨6⟩ .cast).answer? (.ofArena .danglingNop .standard) = none := by
  constructor <;> decide +kernel

end Pass

end ExprTree
