import ExprTree.Proofs.Promises
import ExprTree.Proofs.VoidEffects

/-!
# Reduction keeps traces

Where every effect is flagged, an expression whose value is discarded leaves what has its trace,
and all nodes that were there before have the traces that they had, also after an error.

* `Arena.Flagged`, `Arena.Traceable` — arenas in which every effect is flagged.
* `Arena.Traceable.keeps` — an arena keeps the traces of its nodes as promises.
* `Pass.trace_toVoid` — what is left of an expression has its trace.
-/

namespace ExprTree

namespace Arena

variable {a : Arena} {o : Oracle} {n : Node} {id : NodeId} {h : Nat} {es : List Event}

/-- A node whose kind, type and operands give it an effect has the effect flag. -/
def Flagged (a : Arena) (n : Node) : Prop :=
  ∃ f, a.derivedFlags n = .ok f ∧ (f.has .effect = true → n.flags.has .effect = true)

/-- Every node has a trace, and the effect flag if it has an effect. -/
structure Traceable (a : Arena) : Prop where
  typed : a.WellTyped
  flagged : ∀ id n, a.find? id = some n → a.Flagged n
  inRange : ∀ id n, a.find? id = some n → n.kind.isUnevaluated = false → a.InRange n.kind
  acyclic : a.Acyclic

theorem Exact.flagged (h : a.Exact n) : a.Flagged n := by
  obtain ⟨f, hf, hfe⟩ := h
  exact ⟨f, hf, fun he => hfe ▸ he⟩

/-- A node without the effect flag does nothing. -/
theorem trace?_eq_nil (hfl : ∀ id n, a.find? id = some n → a.Flagged n)
    (he : a.hasEffect id = .ok false) (ht : a.trace? o h id = some es) : es = [] := by
  induction h generalizing id es with
  | zero => cases ht
  | succ h ih =>
    obtain ⟨n, hn, hs⟩ := trace?_succ_eq_some_iff.1 ht
    obtain ⟨m, hm, hflag⟩ := hasEffect_eq_ok_iff.1 he
    cases hn.symm.trans hm
    obtain ⟨f, hf, hfe⟩ := hfl id n hn
    have hfalse : f.has .effect = false := Bool.eq_false_iff.2 fun htrue => by
      rw [hfe htrue] at hflag
      cases hflag
    have hagree : a.EffectsAgree a := ⟨fun _ _ h => h, fun _ _ h => h, fun _ _ h => h⟩
    refine hs.eq_nil hagree hf hfalse (.of_derivedFlags hf) fun op es hop => ?_
    obtain ⟨m, hm⟩ := Option.isSome_iff_exists.1 (isSome_of_trace? hop)
    have heff := hasEffect_eq_ok_iff.2 ⟨m, hm, rfl⟩
    exact ⟨_, heff, fun hfalse => ih (hfalse ▸ heff) hop⟩

/-- An arena keeps the traces of its nodes as promises. -/
theorem Traceable.keeps (ha : a.Traceable) (o : Oracle) :
    a.Keeps o fun id h es => a.trace? o h id = some es where
  typed := ha.typed
  anchored id n hn := by
    obtain ⟨f, hf, -⟩ := ha.flagged id n hn
    exact .of_derivedFlags hf
  mono hk ht := trace?_mono hk ht
  supported := fun {id h es} ht => by
    cases h with
    | zero => cases ht
    | succ h =>
      obtain ⟨n, hn, hs⟩ := trace?_succ_eq_some_iff.1 ht
      exact ⟨n, h, hn, rfl, hs⟩
  quiet he ht := trace?_eq_nil ha.flagged he ht
  void h := by
    obtain ⟨n, hn, hk⟩ := ha.typed.void
    have hops : a.evaluated? o n = some [] := by
      unfold evaluated?
      rw [hk]
      exact congrArg Except.toOption (a.handles_empty [])
    have hvol : a.accessesVolatile n = .ok false := accessesVolatile_eq_false (by rw [hk]; rfl)
    refine trace?_succ_eq_some_iff.2 ⟨n, hn, [], [], hops, .nil, ?_⟩
    exact ownEvents_eq_nil (by rw [hk]; rfl) hvol

end Arena

namespace Pass

open ExprTree.Action

variable {cx t : Context} {expr r : NodeId} {site : DiscardSite}

/-- Only nodes are reduced. -/
theorem isSome_of_toVoid (hrun : toVoid expr site cx = .ok r t) (hr : r ≠ .error) :
    (cx.arena.find? expr).isSome = true := by
  refine (wlp_recursively_of_step fun self => ?_ : wlp (toVoid expr site)
    (fun r _ => r ≠ .error → (cx.arena.find? expr).isSome = true) cx) r t hrun hr
  unfold toVoidStep
  rw [wlp_bind, wlp_query]
  intro erroneous herr
  split
  · exact wlp_pure.2 fun h => absurd rfl h
  rename_i hne
  intro _ _ _ _
  unfold Arena.isErroneous at herr
  split at herr
  · cases herr
    exact absurd rfl hne
  · simp only [Arena.typeOf, Arena.map_eq_ok_iff, Arena.node_eq_ok_iff] at herr
    obtain ⟨_, ⟨n, hn, -⟩, -⟩ := herr
    rw [hn]
    rfl

/-- Reduction keeps the trace of every node, whatever its answer, and what is left of an
expression has the trace of the expression. -/
theorem trace_toVoid (ha : cx.arena.Traceable) (hrun : toVoid expr site cx = .ok r t)
    (o : Oracle) :
    (∀ id, (cx.arena.find? id).isSome = true →
      ∃ es, cx.arena.HasTrace o id es ∧ t.arena.HasTrace o id es) ∧
    (r ≠ .error → ∃ es, cx.arena.HasTrace o expr es ∧ t.arena.HasTrace o r es) := by
  obtain ⟨w, hw, hl, hsame⟩ :=
    Reading.toVoid_reduces (Reading.promises_lawful o) expr site cx ⟨ha.keeps o, trivial⟩ r t hrun
  refine ⟨fun id hid => ?_, fun hr => ?_⟩
  · obtain ⟨es, h, ht⟩ := Arena.exists_hasTrace (o := o) ha.acyclic ha.inRange hid
    exact ⟨es, ⟨h, ht⟩, h, hw.trace?_eq (hl.2.keep ht)⟩
  · obtain ⟨es, h, ht⟩ :=
      Arena.exists_hasTrace (o := o) ha.acyclic ha.inRange (isSome_of_toVoid hrun hr)
    exact ⟨es, ⟨h, ht⟩, h, hw.trace?_eq ((hsame hr).apply (hl.2.keep ht))⟩

/-- Where the condition holds, `c ? *f() : x` calls `f`, and so does what is left of it. -/
theorem trace_toVoid_conditional : Arena.conditional.Traceable ∧
    ∃ t, toVoid ⟨11⟩ .cast (.ofArena .conditional .standard) = .ok ⟨12⟩ t ∧
      t.arena.HasTrace (fun _ => true) ⟨12⟩ [.perform ⟨8⟩] := by
  have hflags : Arena.conditional.WellFlagged := by decide +kernel
  have hrange : ∀ n ∈ Arena.conditional.nodes.toList, n.kind.isUnevaluated = false →
      Arena.conditional.InRange n.kind := by decide +kernel
  have ha : Arena.conditional.Traceable :=
    ⟨hflags.typed, fun id n hn => (hflags.exact id n hn).flagged,
      Arena.forall_find?_iff.2 hrange, Arena.Ordered.acyclic (by decide +kernel)⟩
  have hanswer : (toVoid ⟨11⟩ .cast).answer? (.ofArena .conditional .standard) = some ⟨12⟩ := by
    decide +kernel
  obtain ⟨t, hrun⟩ := answer?_eq_some_iff.1 hanswer
  obtain ⟨es, hes, ht⟩ := (trace_toVoid ha hrun fun _ => true).2 (by decide)
  have hcall : Arena.conditional.HasTrace (fun _ => true) ⟨11⟩ [.perform ⟨8⟩] :=
    ⟨3, by decide +kernel⟩
  exact ⟨ha, t, hrun, hes.unique hcall ▸ ht⟩

end Pass

end ExprTree
