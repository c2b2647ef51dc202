import ExprTree.Proofs.TwinLaws
import ExprTree.Proofs.WalkLaws

/-!
# Balance of scopes

Every level of recursion that a pass or a walk enters it leaves again, and so every operand that is
never evaluated, on each way to return.  And since a level is entered only where there is room for
it, the depth never exceeds the limit on the way.

* `HasContext` — the states in which passes are run.
* `Action.Throughout` — at no moment of a run the depth of nesting exceeds the limit.
* `Action.Balanced` — runs that return restore the depths, and keep within the limit throughout.
* `Action.balanced_law` — all passes are balanced.
* `Walk.balanced_walks` — walks are balanced, when their visitors are.
* `Walk.balanced_operations` — all operations on trees.
-/

namespace ExprTree

/-- A state in which passes are run. -/
class HasContext (σ : Type) [MonadLiftT Pass (Action σ)] where
  context : σ → Context
  setContext : σ → Context → σ
  context_setContext : ∀ s cx, context (setContext s cx) = cx
  setContext_context : ∀ s, setContext s (context s) = s
  liftM_eq : ∀ {α : Type} (p : Pass α) (s : σ),
    (liftM p : Action σ α) s = Action.mapState (setContext s) (p (context s))

instance : HasContext Context where
  context cx := cx
  setContext _ cx := cx
  context_setContext _ _ := rfl
  setContext_context _ := rfl
  liftM_eq p cx := by
    show p cx = _
    cases p cx <;> rfl

/-- The state of a visitor beside its context. -/
instance {σ : Type} : HasContext (σ × Context) where
  context s := s.2
  setContext s cx := (s.1, cx)
  context_setContext _ _ := rfl
  setContext_context _ := rfl
  liftM_eq p s := by
    show (match p s.2 with | .ok r cx => _ | .error e cx => _) = _
    cases p s.2 <;> rfl

instance {σ : Type} : HasContext (WalkState σ) where
  context := WalkState.context
  setContext s cx := { s with context := cx }
  context_setContext _ _ := rfl
  setContext_context _ := rfl
  liftM_eq p s := by
    show (monadLift p : Walk σ _) s = _
    simp only [monadLift, MonadLift.monadLift]
    cases p s.context <;> rfl

namespace Context

/-- The depth of nesting does not exceed the limit. -/
def InLimit (cx : Context) : Prop := cx.nesting.depth ≤ cx.nesting.limit

/-- Two contexts are equally deep. -/
structure SameDepth (cx cx' : Context) : Prop where
  nesting_eq : cx'.nesting = cx.nesting
  depth_eq : cx'.unevaluatedDepth = cx.unevaluatedDepth

theorem SameDepth.refl (cx : Context) : cx.SameDepth cx := ⟨rfl, rfl⟩

theorem SameDepth.trans {cx cx' cx'' : Context} (h : cx.SameDepth cx') (h' : cx'.SameDepth cx'') :
    cx.SameDepth cx'' := ⟨h'.1.trans h.1, h'.2.trans h.2⟩

theorem InLimit.congr {cx cx' : Context} (h : cx.InLimit) (hcx : cx'.nesting = cx.nesting) :
    cx'.InLimit := by
  unfold InLimit
  rwa [hcx]

end Context

namespace Action

open HasContext

section Runs

variable {σ τ α β : Type} {s : σ} {t : τ}

/-- Run an action on a part of the state. -/
def on (part : σ → τ) (put : σ → τ → σ) (p : Action τ α) : Action σ α := fun s =>
  mapState (put s) (p (part s))

theorem last_on {part : σ → τ} {put : σ → τ → σ} {p : Action τ α} :
    (on part put p).last s = put s (p.last (part s)) := by
  unfold last on
  cases p (part s) <;> rfl

theorem wlp_on {part : σ → τ} {put : σ → τ → σ} {p : Action τ α} {Q : α → σ → Prop} :
    wlp (on part put p) Q s ↔ wlp p (fun r t => Q r (put s t)) (part s) := by
  unfold wlp on
  cases p (part s) with
  | ok r t => simp [mapState]
  | error e t => simp [mapState]

end Runs

variable {σ τ α β : Type} [MonadLiftT Pass (Action σ)] [HasContext σ] [MonadLiftT Pass (Action τ)]
  [HasContext τ]

/-- The same state under another nesting. -/
def withNesting (s : σ) (n : Nesting) : σ := setContext s { context s with nesting := n }

/-- An action that does the same under every nesting, and leaves the nesting alone. -/
def Blind (p : Action σ α) : Prop :=
  ∀ s n, p (withNesting s n) = mapState (withNesting · n) (p s)

/-- At no moment of the run of `p` from `s` the depth exceeds the limit: not before and not after
each of the steps that the run consists of, which are blind to the nesting, or ask about the state,
or enter or leave a level. -/
inductive Throughout : {σ α : Type} → [MonadLiftT Pass (Action σ)] → [HasContext σ] →
    Action σ α → σ → Prop
  | ask {σ α : Type} [MonadLiftT Pass (Action σ)] [HasContext σ] {question : σ → Except Fault α}
    {s : σ} (hs : (context s).InLimit) : Throughout (ask question) s
  | blind {σ α : Type} [MonadLiftT Pass (Action σ)] [HasContext σ] {p : Action σ α} {s : σ}
    (hp : Blind p) (hs : (context s).InLimit) (hend : (context (p.last s)).InLimit) :
    Throughout p s
  | enter {span : Span} {cx : Context} (hs : cx.InLimit)
    (hend : ((Pass.enter span).last cx).InLimit) : Throughout (Pass.enter span) cx
  | leave {cx : Context} (hs : cx.InLimit) (hend : (Pass.leave.last cx).InLimit) :
    Throughout Pass.leave cx
  | bind {σ α β : Type} [MonadLiftT Pass (Action σ)] [HasContext σ] {p : Action σ α}
    {f : α → Action σ β} {s : σ} (hp : Throughout p s)
    (hf : ∀ r t, p s = .ok r t → Throughout (f r) t) : Throughout (p >>= f) s
  | tryFinally {σ α : Type} [MonadLiftT Pass (Action σ)] [HasContext σ] {p : Action σ α}
    {q : Action σ Unit} {s : σ} (hp : Throughout p s) (hq : Throughout q (p.last s)) :
    Throughout (tryFinally p q) s
  /-- The part of a state on which an action is run has the nesting of the whole. -/
  | on {σ τ α : Type} [MonadLiftT Pass (Action σ)] [HasContext σ] [MonadLiftT Pass (Action τ)]
    [HasContext τ] {part : σ → τ} {put : σ → τ → σ} {p : Action τ α} {s : σ}
    (hpart : (context (part s)).nesting = (context s).nesting)
    (hput : ∀ t, (context (put s t)).nesting = (context t).nesting) (hp : Throughout p (part s)) :
    Throughout (on part put p) s

/-- Runs that return restore the depths, and at no moment the depth of nesting exceeds the limit. -/
structure Balanced (p : Action σ α) : Prop where
  restores : ∀ s, wlp p (fun _ t => (context s).SameDepth (context t)) s
  throughout : ∀ s, (context s).InLimit → Throughout p s

variable {p : Action σ α} {f : α → Action σ β} {s : σ}

/-- The depth exceeds the limit neither where a run starts nor where it ends, in a fault or not. -/
theorem Throughout.inLimit (h : Throughout p s) :
    (context s).InLimit ∧ (context (p.last s)).InLimit := by
  induction h with
  | ask hs => exact ⟨hs, by rwa [last_ask]⟩
  | blind _ hs hend => exact ⟨hs, hend⟩
  | enter hs hend => exact ⟨hs, hend⟩
  | leave hs hend => exact ⟨hs, hend⟩
  | bind hp hf ihp ihf =>
    refine ⟨ihp.1, ?_⟩
    rw [last_bind]
    split
    · rename_i hrun
      exact (ihf _ _ hrun).2
    · rename_i hrun
      exact last_eq_of_error hrun ▸ ihp.2
  | tryFinally hp hq ihp ihq => exact ⟨ihp.1, by rw [last_tryFinally]; exact ihq.2⟩
  | on hpart hput hp ih =>
    refine ⟨ih.1.congr hpart.symm, ?_⟩
    rw [last_on]
    exact ih.2.congr (hput _)

/-! ### Putting balanced actions together -/

theorem balanced_ask (question : σ → Except Fault α) : Balanced (ask question) where
  restores s := wlp_ask.2 fun _ _ => .refl (context s)
  throughout _ hs := .ask hs

theorem balanced_pure (r : α) : Balanced (pure r : Action σ α) :=
  balanced_ask fun _ => .ok r

theorem Blind.nesting_last (hp : Blind p) (s : σ) :
    (context (p.last s)).nesting = (context s).nesting := by
  have hself : withNesting s (context s).nesting = s := setContext_context s
  have hrun := hp s (context s).nesting
  rw [hself] at hrun
  rw [last_eq_of_mapState hrun, withNesting, context_setContext]

theorem Blind.throughout (hp : Blind p) (hs : (context s).InLimit) : Throughout p s :=
  .blind hp hs (hs.congr (hp.nesting_last s))

theorem Blind.balanced (hp : Blind p) (hdepth : ∀ s,
    (context (p.last s)).unevaluatedDepth = (context s).unevaluatedDepth) : Balanced p where
  restores s r t h := by
    rw [← last_eq_of_ok h]
    exact ⟨hp.nesting_last s, hdepth s⟩
  throughout _ hs := hp.throughout hs

theorem Balanced.bind (hp : Balanced p) (hf : ∀ r, Balanced (f r)) : Balanced (p >>= f) where
  restores s := by
    rw [wlp_bind]
    exact (hp.restores s).mono fun r t ht => ((hf r).restores t).mono fun _ _ hu => ht.trans hu
  throughout s hs := .bind (hp.throughout s hs) fun r t hr =>
    (hf r).throughout t (hs.congr (hp.restores s r t hr).nesting_eq)

theorem Balanced.map (hp : Balanced p) (f : α → β) : Balanced (f <$> p) := by
  rw [map_eq_pure_bind]
  exact hp.bind fun r => balanced_pure (f r)

/-- What is balanced on a part of a state is balanced on the whole. -/
theorem Balanced.on {part : σ → τ} {put : σ → τ → σ} {p : Action τ α} (hp : Balanced p)
    (hpart : ∀ s, context (part s) = context s) (hput : ∀ s t, context (put s t) = context t) :
    Balanced (on part put p) where
  restores s := by
    refine wlp_on.2 ((hp.restores (part s)).mono fun r t ht => ?_)
    rwa [hput, ← hpart]
  throughout s hs := by
    refine .on (by rw [hpart]) (fun t => by rw [hput]) (hp.throughout _ ?_)
    rwa [hpart]

/-- A pass in the course of a larger action. -/
theorem lift_eq_on (p : Pass α) : (liftM p : Action σ α) = on context setContext p :=
  funext fun s => liftM_eq p s

theorem wlp_lift {p : Pass α} {Q : α → σ → Prop} :
    wlp (liftM p) Q s ↔ wlp p (fun r cx => Q r (setContext s cx)) (context s) := by
  rw [lift_eq_on]
  exact wlp_on

theorem returns_liftM {p : Pass α} {Q : α → σ → Prop}
    (h : Returns p (fun r cx => Q r (setContext s cx)) (context s)) :
    Returns (liftM p : Action σ α) Q s := by
  obtain ⟨r, cx, hrun, hQ⟩ := h
  exact ⟨r, setContext s cx, by rw [lift_eq_on, on, hrun]; rfl, hQ⟩

theorem Throughout.lift {p : Pass α} (hp : Throughout p (context s)) :
    Throughout (liftM p : Action σ α) s := by
  rw [lift_eq_on]
  exact .on rfl (fun cx => by rw [context_setContext]; rfl) hp

theorem Balanced.lift {p : Pass α} (hp : Balanced p) : Balanced (liftM p : Action σ α) := by
  rw [lift_eq_on]
  exact hp.on (fun _ => rfl) context_setContext

/-! ### Scopes -/

theorem throughout_enter {span : Span} {cx : Context} (hcx : cx.InLimit) :
    Throughout (Pass.enter span) cx := by
  refine .enter hcx ?_
  unfold last Pass.enter Nesting.enter
  by_cases hroom : cx.nesting.depth < cx.nesting.limit
  · rw [if_pos hroom]
    exact hroom
  · rw [if_neg hroom]
    exact hcx

theorem throughout_leave {cx : Context} (hcx : cx.InLimit) : Throughout Pass.leave cx := by
  refine .leave hcx ?_
  unfold last Pass.leave Nesting.leave
  by_cases hdepth : 0 < cx.nesting.depth
  · rw [if_pos hdepth]
    exact Nat.le_trans (Nat.sub_le ..) hcx
  · rw [if_neg hdepth]
    exact hcx

/-- A level is entered where there is room for it, and a level that was entered is left. -/
theorem Balanced.nested {span : Span} {overflow : α} {body : Action σ α} (hbody : Balanced body) :
    Balanced (Pass.nested span overflow body) where
  restores s := by
    show wlp (liftM (Pass.enter span) >>= _) _ s
    rw [wlp_bind, wlp_lift, Pass.wlp_enter]
    refine ⟨fun inner hinner => ?_, fun e _ => ?_⟩
    · rw [if_pos rfl, wlp_bind]
      refine (hbody.restores _).mono fun r t ht => ?_
      rw [context_setContext] at ht
      rw [wlp_bind, wlp_lift, Pass.wlp_leave]
      intro outer houter
      rw [ht.nesting_eq, Nesting.leave_of_enter hinner] at houter
      cases houter
      refine wlp_pure.2 ?_
      rw [context_setContext]
      exact ⟨rfl, ht.depth_eq⟩
    · refine wlp_pure.2 ?_
      rw [context_setContext]
      exact ⟨rfl, rfl⟩
  throughout s hs := by
    have henter : Throughout (liftM (Pass.enter span) : Action σ Bool) s :=
      .lift (throughout_enter hs)
    refine .bind henter fun entered t ht => ?_
    have ht : (context t).InLimit := last_eq_of_ok ht ▸ henter.inLimit.2
    split
    · refine .bind (hbody.throughout t ht) fun r u hu => ?_
      have hu : (context u).InLimit := ht.congr (hbody.restores t r u hu).nesting_eq
      have hleave : Throughout (liftM Pass.leave : Action σ Unit) u := .lift (throughout_leave hu)
      refine .bind hleave fun _ w hw => ?_
      exact (balanced_pure r).throughout w (last_eq_of_ok hw ▸ hleave.inLimit.2)
    · exact (balanced_pure _).throughout t ht

theorem blind_enterUnevaluated : Blind Pass.enterUnevaluated := fun _ _ => rfl

theorem blind_leaveUnevaluated : Blind Pass.leaveUnevaluated := by
  intro cx n
  show Pass.leaveUnevaluated { cx with nesting := n } = _
  unfold Pass.leaveUnevaluated
  split <;> rfl

/-- An operand that was entered is left, on each way. -/
theorem Balanced.unevaluated {body : Action σ α} (hbody : Balanced body) :
    Balanced (Pass.unevaluated body) where
  restores s := by
    show wlp (liftM Pass.enterUnevaluated >>= fun _ =>
      tryFinally body (liftM Pass.leaveUnevaluated)) _ s
    rw [wlp_bind, wlp_lift]
    refine wlp_modify.2 (wlp_tryFinally ((hbody.restores _).mono fun r t ht => ?_))
    rw [context_setContext] at ht
    rw [wlp_lift, Pass.wlp_leaveUnevaluated, context_setContext, ht.depth_eq]
    exact fun _ => ⟨ht.nesting_eq, rfl⟩
  throughout s hs := by
    have henter : Throughout (liftM Pass.enterUnevaluated : Action σ Unit) s :=
      .lift (blind_enterUnevaluated.throughout hs)
    refine .bind henter fun _ t ht => ?_
    have hbody := hbody.throughout t (last_eq_of_ok ht ▸ henter.inLimit.2)
    exact .tryFinally hbody (.lift (blind_leaveUnevaluated.throughout hbody.inLimit.2))

/-! ### Passes -/

theorem edit_eq_mapState (change : Action Arena α) (cx : Context) : Pass.edit change cx =
    mapState (fun a => { cx with arena := a }) (change cx.arena) := by
  obtain ⟨arena, queue, inputLocation, depth, nesting⟩ := cx
  simp only [Pass.edit]
  cases change arena <;> rfl

theorem balanced_edit (change : Action Arena α) : Balanced (Pass.edit change) := by
  refine Blind.balanced (fun cx n => ?_) fun cx => ?_
  · rw [edit_eq_mapState, edit_eq_mapState]
    show mapState _ (change cx.arena) = _
    cases change cx.arena <;> rfl
  · rw [last_eq_of_mapState (edit_eq_mapState change cx)]
    rfl

theorem balanced_error (d : Diagnostic) : Balanced (Pass.error d) :=
  Blind.balanced (fun _ _ => rfl) fun _ => rfl

theorem balanced_explains :
    Pass.Explains (fun _ => True) fun {α} (p _ : Pass α) => Balanced p where
  ask _ := balanced_ask _
  bind := Balanced.bind
  warn _ _ _ _ := Blind.balanced (fun _ _ => rfl) fun _ => rfl
  note _ _ := Blind.balanced (fun _ _ => rfl) fun _ => rfl

/-- All passes are balanced. -/
theorem balanced_law : Pass.Law Balanced where
  toWarns := balanced_explains.toWarns
  edit := balanced_edit
  error _ _ := balanced_error _
  warnIgnored expr site :=
    balanced_explains.warnIgnored trivial (Iff.refl (site = .cast)) expr
  nested := Balanced.nested

end Action

/-- The arena of a comma that contains itself. -/
def Arena.selfComma : Arena :=
  { Arena.initial with
    nodes := Arena.initial.nodes ++ #[⟨.comma ⟨6⟩ ⟨6⟩, some .intType, .empty, .unknown⟩] }

namespace Walk

open ExprTree.Action

variable {σ α : Type}

theorem balanced_visit {v : Visitor σ} (hv : ∀ id, Balanced (v id)) (id : NodeId) :
    Balanced (visit v id) := by
  have hvisit : visit v id = on (fun s => (s.user, s.context))
      (fun s t => { s with user := t.1, context := t.2 }) (v id) := funext (visit_eq v id)
  rw [hvisit]
  exact (hv id).on (fun _ => rfl) fun _ _ => rfl

theorem balanced_arrive (id : NodeId) : Balanced (arrive id : Walk σ Bool) := by
  refine Blind.balanced (fun s n => ?_) fun s => ?_
  · obtain ⟨arrived, visited', h⟩ := arrive_runs id s.user s.visited
    rw [show arrive id s = _ from h s.context]
    exact h { s.context with nesting := n }
  · obtain ⟨arrived, visited', h⟩ := arrive_runs id s.user s.visited
    rw [last_eq_of_ok (h s.context)]
    rfl

/-- Walks are balanced when their visitors are. -/
theorem balanced_walks {v : Visitor σ} (hv : ∀ id, Balanced (v id)) : Law v Balanced where
  ask := balanced_ask
  bind := Balanced.bind
  nested := Balanced.nested
  unevaluated := Balanced.unevaluated
  arrive := balanced_arrive
  visit := balanced_visit hv

theorem balanced_walkTree {v : Visitor σ} (hv : ∀ id, Balanced (v id)) (id : NodeId) :
    Balanced (walkTree v id) := (balanced_walks hv).walkTree id

theorem balanced_walkLanguage {v : Visitor σ} (hv : ∀ id, Balanced (v id)) (id : NodeId)
    (descend : Bool) : Balanced (walkLanguage v id descend) :=
  (balanced_walks hv).walkLanguage id descend

/-- Every operation on trees is balanced: when it returns, the number of levels and the number of
unevaluated operands around the current node are as before, and at no moment the number of levels
exceeds the limit unless it does so before.  A walk is balanced with every visitor whose calls are,
and a visitor may walk and convert in its calls. -/
theorem balanced_operations :
    (∀ (expr : NodeId) (mode : UseMode), Balanced (Pass.classifyUse expr mode)) ∧
    (∀ (expr : NodeId) (loc : Span) (reject : Bool), Balanced (Pass.rvalueUseAt expr loc reject)) ∧
    (∀ expr : NodeId, Balanced (Pass.rvalueUse expr)) ∧
    (∀ (expr : NodeId) (read : Bool), Balanced (Pass.lvalueUse expr read)) ∧
    (∀ expr : NodeId, Balanced (Pass.classifyDiscarded expr)) ∧
    (∀ expr : NodeId, Balanced (Pass.recordRead expr)) ∧
    (∀ value : NodeId, Balanced (Pass.dereference value)) ∧
    (∀ (expr : NodeId) (site : DiscardSite), Balanced (Pass.toVoid expr site)) ∧
    ∀ {σ : Type} {v : Visitor σ}, (∀ id, Balanced (v id)) → ∀ id,
      Balanced (walkTree v id) ∧ ∀ descend, Balanced (walkLanguage v id descend) :=
  ⟨balanced_law.classifyUse, balanced_law.rvalueUseAt, balanced_law.rvalueUse,
    balanced_law.lvalueUse, balanced_law.classifyDiscarded, balanced_law.recordRead,
    balanced_law.dereference, balanced_law.toVoid, fun hv id =>
      ⟨balanced_walkTree hv id, balanced_walkLanguage hv id⟩⟩

/-- A visitor that walks the tree below the node once more, knowing where it has been, and converts
the node to `void`. -/
def again : Visitor Unit := fun id => do
  let found ← on (fun s => ⟨s.1, some [], s.2⟩) (fun _ t => (t.user, t.context))
    (walkTree (fun _ => pure ⟨none, true⟩ : Visitor Unit) id)
  discard (liftM (Pass.toVoid id .cast))
  return ⟨found, true⟩

/-- A comma that contains itself has no room for the walk of a walk at the second level, and all
levels are left. -/
theorem balanced_operations_selfComma :
    ∃ t, walkTree again ⟨6⟩ ⟨(), none, .ofArena .selfComma ⟨3, .standard⟩⟩ = .ok (some .error) t ∧
      t.context.nesting = ⟨0, 3⟩ ∧ t.context.unevaluatedDepth = 0 := by
  obtain ⟨-, -, -, -, -, -, -, htoVoid, hwalk⟩ := balanced_operations
  have hagain : ∀ id, Balanced (again id) := fun id => by
    refine Balanced.bind ?_ fun found => ((htoVoid id .cast).lift.map _).bind fun _ =>
      balanced_pure _
    exact (hwalk (fun _ => balanced_pure _) id).1.on (fun _ => rfl) fun _ _ => rfl
  obtain ⟨t, ht⟩ := answer?_eq_some_iff.1 (show (walkTree again ⟨6⟩).answer?
    ⟨(), none, .ofArena .selfComma ⟨3, .standard⟩⟩ = some (some .error) by decide +kernel)
  have hdepth := (hwalk hagain ⟨6⟩).1.restores _ _ t ht
  exact ⟨t, ht, hdepth.nesting_eq, hdepth.depth_eq⟩

end Walk

end ExprTree
