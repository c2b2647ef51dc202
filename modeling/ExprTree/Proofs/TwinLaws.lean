import ExprTree.Proofs.Coupling

/-!
# Laws of passes side by side

All passes are put together from a few elementary ones.  A relation between passes that holds of
each elementary one and itself, and that parts hand on to what is put together from them, holds of
every pass and itself.  If it also holds of what warns about a discarded value at one place and at
another, then it holds of the two reductions.  A property of passes is such a relation, too.

* `Pass.Twins` — relations that hold of questions, changes and levels, and that parts hand on.
* `Pass.Twins.classifyUse`, `Pass.Twins.classifyDiscarded` — uses of expressions.
* `Pass.TwinsAt` — the same with warnings about discarded values at two places.
* `Pass.TwinsAt.toVoid` — reductions at the two places.
* `Pass.Law` — properties of all passes, from `Pass.Law.recordRead` to `Pass.Law.toVoid`.
-/

namespace ExprTree

namespace Pass

open ExprTree.Action

/-- A relation that holds of every question whose answer agreeing contexts share, of every change
that leaves arenas the same but for reads, and that parts hand on. -/
structure Twins (J : ∀ {α : Type}, Pass α → Pass α → Prop) : Prop where
  ask : ∀ {α : Type} {q : Context → Except Fault α},
    (∀ cx cx' : Context, cx.Agrees cx' → q cx = q cx') → J (Action.ask q) (Action.ask q)
  bind : ∀ {α β : Type} {p p' : Pass α} {f f' : α → Pass β}, J p p' → (∀ r, J (f r) (f' r)) →
    J (p >>= f) (p' >>= f')
  edit : ∀ {α : Type} {c : Action Arena α}, Parallel Arena.SameButReads c c → J (edit c) (edit c)
  nested : ∀ {α : Type} {span : Span} {overflow : α} {p p' : Pass α}, J p p' →
    J (nested span overflow p) (nested span overflow p')

/-- The same for what is done where a value is discarded, at two places that are related by `S`. -/
structure TwinsAt (S : DiscardSite → DiscardSite → Prop)
    (J : ∀ {α : Type}, Pass α → Pass α → Prop) : Prop extends Twins J where
  /-- The places of a part are related, whether they are named or not. -/
  part : ∀ {s s'}, S s s' → ∀ (named : Bool) (place : DiscardSite),
    S (if (s ≠ .cast && named) = true then place else .cast)
      (if (s' ≠ .cast && named) = true then place else .cast)
  read : ∀ {s s'}, S s s' → ∀ expr,
    J (Pass.when (s == .cast) (recordRead expr)) (Pass.when (s' == .cast) (recordRead expr))
  warnVolatile : ∀ {s s'}, S s s' → ∀ loc reference type,
    J (warnVolatile s loc reference type) (warnVolatile s' loc reference type)
  warnUnusedValue : ∀ {s s'}, S s s' → ∀ loc reference expr,
    J (warnUnusedValue s loc reference expr) (warnUnusedValue s' loc reference expr)
  warnVariable : ∀ {s s'}, S s s' → ∀ name type loc,
    J (warnVariable name type loc s) (warnVariable name type loc s')
  warnIgnored : ∀ {s s'}, S s s' → ∀ expr, J (warnIgnored expr s) (warnIgnored expr s')

variable {J : ∀ {α : Type}, Pass α → Pass α → Prop} {α β : Type}

namespace Twins

variable (h : Twins J)
include h

/-! ### Putting passes together -/

protected theorem pure (r : α) : J (pure r) (pure r) :=
  h.ask (q := fun _ => .ok r) fun _ _ _ => rfl

protected theorem throw (e : Fault) : J (throw e : Pass α) (throw e) :=
  h.ask (q := fun _ => .error e) fun _ _ _ => rfl

/-- A question that reads do not change. -/
protected theorem query {q : Arena → Except Fault α} (hq : ∀ a : Arena, q a.unread = q a) :
    J (query q) (query q) :=
  h.ask fun _ _ hcx => hcx.arena.eq hq

protected theorem location (expr : NodeId) : J (location expr) (location expr) := by
  refine h.ask fun cx cx' hcx => ?_
  rw [hcx.inputLocation]
  exact hcx.arena.eq (q := (·.locationOf expr cx'.inputLocation)) (·.locationOf_unread expr _)

/-- A node is asked for what its mark of a read does not change. -/
protected theorem node {expr : NodeId} {f f' : Node → Pass β} (hf : ∀ n, f n.unread = f n)
    (hf' : ∀ n, f' n.unread = f' n) (hff' : ∀ n, J (f n) (f' n)) :
    J (query (·.node expr) >>= f) (query (·.node expr) >>= f') := by
  -- `Arena.node` itself is no question of `Twins.query`, but the node without its mark is
  have hunread : ∀ g : Node → Pass β, (∀ n, g n.unread = g n) →
      query (·.node expr) >>= g = query (·.unread.node expr) >>= g := by
    intro g hg
    funext cx
    simp only [bind_eq_resume, query, Action.ask, Arena.node_unread]
    cases cx.arena.node expr with
    | ok n => exact congrFun (hg n).symm cx
    | error e => rfl
  rw [hunread f hf, hunread f' hf']
  refine h.bind (h.query fun a => ?_) hff'
  rw [Arena.node_unread, Arena.node_unread]
  cases a.node expr with
  | ok n => exact congrArg Except.ok n.unread_unread
  | error e => rfl

protected theorem inputLocation (f : Span → Pass β) (hf : ∀ loc, J (f loc) (f loc)) :
    J (get >>= fun cx => f cx.inputLocation) (get >>= fun cx => f cx.inputLocation) := by
  have hask : (get >>= fun cx => f cx.inputLocation : Pass β) =
      Action.ask (fun cx => .ok cx.inputLocation) >>= f := rfl
  rw [hask]
  exact h.bind (h.ask fun _ _ hcx => congrArg Except.ok hcx.inputLocation) hf

protected theorem map {p p' : Pass α} (hp : J p p') (f : α → β) : J (f <$> p) (f <$> p') := by
  rw [map_eq_pure_bind, map_eq_pure_bind]
  exact h.bind hp fun r => h.pure (f r)

protected theorem when {p p' : Pass Unit} (hp : J p p') (asked : Bool) :
    J (Pass.when asked p) (Pass.when asked p') := by
  unfold Pass.when
  split
  · exact hp
  · exact h.pure ()

protected theorem mapM {f f' : α → Pass β} (hf : ∀ x, J (f x) (f' x)) (o : Option α) :
    J (o.mapM f) (o.mapM f') := by
  cases o with
  | none => exact h.pure none
  | some x => exact h.map (hf x) some

protected theorem forM {f f' : α → Pass PUnit} (hf : ∀ x, J (f x) (f' x)) (xs : List α) :
    J (xs.forM f) (xs.forM f') := by
  induction xs with
  | nil => exact h.pure _
  | cons x xs ih => exact h.bind (hf x) fun _ => ih

/-- Recursive passes are related when one of their levels is wherever the calls are. -/
protected theorem recursively {step step' : (α → Pass β) → α → Pass β} {S : α → α → Prop}
    (hstep : ∀ self self', (∀ x y, S x y → J (self x) (self' y)) →
      ∀ x y, S x y → J (step self x) (step' self' y)) {x y : α} (hxy : S x y) :
    J (recursively step x) (recursively step' y) := by
  -- both passes have the same room, so they can be followed level by level
  have level : ∀ room x y, S x y → J (unroll step room x) (unroll step' room y) := by
    intro room
    induction room with
    | zero => exact hstep _ _ fun _ _ _ => h.throw _
    | succ room ih => exact hstep _ _ ih
  exact h.bind (h.ask (q := fun cx => .ok cx.nesting.room) fun _ _ hcx =>
    congrArg (fun n => Except.ok n.room) hcx.nesting) fun room => level room x y hxy

/-- An operand is followed, and its error is the error of the whole. -/
theorem unlessError {p p' : Pass NodeId} {f f' : NodeId → Pass NodeId} (hp : J p p')
    (hf : ∀ r, J (f r) (f' r)) :
    J (p >>= fun r => if r = .error then Pure.pure .error else f r)
      (p' >>= fun r => if r = .error then Pure.pure .error else f' r) := by
  refine h.bind hp fun r => ?_
  split
  · exact h.pure _
  · exact hf r

/-! ### Uses -/

protected theorem recordReadStep {self self' : NodeId → Pass Unit}
    (hself : ∀ op, J (self op) (self' op)) (expr : NodeId) :
    J (recordReadStep self expr) (recordReadStep self' expr) := by
  refine h.bind (h.query (·.spanOf_unread expr)) fun span => h.nested (h.node ?_ ?_ fun n => ?_)
  · intro n
    rw [n.readOperands_unread]
    rfl
  · intro n
    rw [n.readOperands_unread]
    rfl
  · split
    · exact h.edit Arena.parallel_insertFlags
    · exact h.forM hself _

protected theorem recordRead (expr : NodeId) : J (recordRead expr) (recordRead expr) := by
  refine h.recursively (S := Eq) (fun self self' hself x _ hx => ?_) rfl
  subst hx
  exact h.recordReadStep (fun op => hself op op rfl) x

protected theorem dereference (value : NodeId) : J (dereference value) (dereference value) := by
  refine h.bind (h.query (·.typeOf_unread value)) fun type => ?_
  cases type with
  | none => exact h.pure _
  | some type =>
    refine h.bind (h.query (·.kindOf_unread type)) fun kind => ?_
    split
    · exact h.bind (h.recordRead value) fun _ => h.bind (h.query (·.spanOf_unread value)) fun _ =>
        h.edit Arena.parallel_build
    · exact h.pure _

protected theorem rebuild (expr : NodeId) (kind : NodeKind) :
    J (rebuild expr kind) (rebuild expr kind) :=
  h.bind (h.edit Arena.parallel_setKind) fun _ => h.edit Arena.parallel_deriveFlags

protected theorem replaceKind (expr : NodeId) (kind : NodeKind) :
    J (replaceKind expr kind) (replaceKind expr kind) := by
  refine h.bind (h.query (·.kindOf_unread expr)) fun old => ?_
  split
  · exact h.bind (h.rebuild expr kind) fun _ => h.pure _
  · exact h.pure _

section Uses

variable {self self' : NodeId × UseMode → Pass NodeId} {expr : NodeId} {mode : UseMode}

protected theorem classifyWrapper
    (hself : ∀ op loc, J (self (op, { mode with loc })) (self' (op, { mode with loc })))
    (wrapper operand : NodeId) :
    J (classifyWrapper self wrapper operand mode) (classifyWrapper self' wrapper operand mode) := by
  refine h.bind (h.query (·.spanOf_unread wrapper)) fun loc =>
    h.unlessError (hself operand loc) fun r => ?_
  refine h.bind (h.query (·.kindOf_unread r)) fun kind => ?_
  split
  · exact h.bind (h.rebuild wrapper _) fun _ => h.pure _
  · exact h.bind (h.when (h.edit Arena.parallel_setSpan) _) fun _ => h.pure _

protected theorem classifyReference {reference : NodeId}
    (hself : J (self (reference, { mode with rvalue := true, read := true }))
      (self' (reference, { mode with rvalue := true, read := true }))) :
    J (classifyReference self expr reference mode)
      (classifyReference self' expr reference mode) := by
  refine h.unlessError hself fun value => ?_
  split
  · exact h.pure _
  · exact h.dereference value

protected theorem classifyNode
    (hself : ∀ op (mode' : UseMode), mode'.rejectBuiltin = mode.rejectBuiltin →
      J (self (op, mode')) (self' (op, mode'))) :
    J (classifyNode self expr mode) (classifyNode self' expr mode) := by
  refine h.node (fun n => ?_) (fun n => ?_) fun n => ?_
  · rw [n.isWrapper_unread]
    rfl
  · rw [n.isWrapper_unread]
    rfl
  cases n.kind with
  | componentRef object field => exact h.unlessError (hself _ _ rfl) fun _ => h.replaceKind expr _
  | comma lhs rhs =>
    exact h.bind (h.query (·.locationOf_unread expr _)) fun _ =>
      h.unlessError (hself _ _ rfl) fun _ => h.replaceKind expr _
  | cond first second third =>
    refine h.bind (h.mapM (fun op => hself op mode rfl) _) fun second => ?_
    split
    · exact h.pure _
    · exact h.unlessError (hself _ _ rfl) fun _ => h.replaceKind expr _
  | unary op operand =>
    cases op with
    | deref =>
      refine h.bind (h.query (·.isReference_unread operand)) fun reference => ?_
      split
      · exact h.classifyReference (hself _ _ rfl)
      · exact h.pure _
    | _ =>
      dsimp only
      split
      · exact h.classifyWrapper (fun op loc => hself op _ rfl) expr operand
      split
      · exact h.unlessError (hself _ _ rfl) fun _ => h.replaceKind expr _
      · exact h.pure _
  | _ => exact h.pure _

/-- One level of a use in which no function is refused, or in which refusals are related. -/
protected theorem classifyUseStep
    (hself : ∀ op (mode' : UseMode), mode'.rejectBuiltin = mode.rejectBuiltin →
      J (self (op, mode')) (self' (op, mode')))
    (hreject : mode.rejectBuiltin = true →
      ∀ expr loc, J (rejectBuiltin expr loc) (rejectBuiltin expr loc)) :
    J (classifyUseStep self (expr, mode)) (classifyUseStep self' (expr, mode)) := by
  have haccept : J
      (do
        Pass.when mode.read (recordRead expr)
        Pass.nested (← query (·.spanOf expr)) .error (classifyNode self expr mode))
      (do
        Pass.when mode.read (recordRead expr)
        Pass.nested (← query (·.spanOf expr)) .error (classifyNode self' expr mode)) :=
    h.bind (h.when (h.recordRead expr) _) fun _ => h.bind (h.query (·.spanOf_unread expr)) fun _ =>
      h.nested (h.classifyNode hself)
  refine h.bind (h.query (·.isErroneous_unread expr)) fun erroneous => ?_
  split
  · exact h.pure _
  cases hrejects : mode.rejectBuiltin with
  | true =>
    refine h.bind (h.query (·.isRejected_unread expr mode)) fun rejected => ?_
    split
    · exact hreject hrejects expr _
    · exact haccept
  | false =>
    -- whether a function is refused is not asked, so its spelling does not have to be read
    have hnone : (fun a : Arena => a.isRejected expr mode) = fun _ => .ok false := by
      funext a
      rw [Arena.isRejected, hrejects]
      rfl
    rw [hnone]
    exact haccept

protected theorem classifyUse (hreject : mode.rejectBuiltin = true →
      ∀ expr loc, J (rejectBuiltin expr loc) (rejectBuiltin expr loc)) :
    J (classifyUse expr mode) (classifyUse expr mode) := by
  refine h.recursively (S := fun x y => x = y ∧ x.2.rejectBuiltin = mode.rejectBuiltin)
    (fun self self' hself x _ hx => ?_) ⟨rfl, rfl⟩
  obtain ⟨rfl, hmode⟩ := hx
  exact h.classifyUseStep (fun op mode' hmode' => hself _ _ ⟨rfl, hmode'.trans hmode⟩)
    fun hrejects => hreject (hmode.symm.trans hrejects)

protected theorem discardedRvalueUse :
    J (discardedRvalueUse expr) (discardedRvalueUse expr) :=
  h.inputLocation (rvalueUseAt expr · false) fun _ => h.classifyUse fun hreject => by cases hreject

end Uses

/-! ### Discarded uses -/

protected theorem classifyDiscardedNode {self self' : NodeId → Pass NodeId}
    (hself : ∀ op, J (self op) (self' op)) (expr : NodeId) :
    J (classifyDiscardedNode self expr) (classifyDiscardedNode self' expr) := by
  refine h.bind (h.query (·.kindOf_unread expr)) fun kind => ?_
  split
  · refine h.bind (hself _) fun third => h.bind (h.mapM hself _) fun second => ?_
    split
    · exact h.pure _
    · exact h.bind (h.rebuild expr _) fun _ => h.pure _
  · refine h.bind (hself _) fun rhs => ?_
    split
    · exact h.pure _
    · exact h.bind (h.rebuild expr _) fun _ => h.pure _
  case h_3 | h_4 | h_5 | h_6 => exact h.discardedRvalueUse
  split
  · exact h.discardedRvalueUse
  · exact h.pure _

protected theorem classifyDiscardedStep {self self' : NodeId → Pass NodeId}
    (hself : ∀ op, J (self op) (self' op)) (expr : NodeId) :
    J (classifyDiscardedStep self expr) (classifyDiscardedStep self' expr) :=
  h.bind (h.query (·.stripWrapper_unread expr)) fun expr =>
    h.bind (h.query (·.spanOf_unread expr)) fun _ =>
      h.nested (h.classifyDiscardedNode hself expr)

protected theorem classifyDiscarded (expr : NodeId) :
    J (classifyDiscarded expr) (classifyDiscarded expr) := by
  refine h.recursively (S := Eq) (fun self self' hself x _ hx => ?_) rfl
  subst hx
  exact h.classifyDiscardedStep (fun op => hself op op rfl) x

end Twins

namespace TwinsAt

variable {S : DiscardSite → DiscardSite → Prop} (h : TwinsAt S J) {s s' : DiscardSite}
  (hs : S s s')
include h hs

/-! ### Discarded values -/

protected theorem voidDeref (expr pointer type : NodeId) (loc : Span) :
    J (voidDeref expr pointer type loc s) (voidDeref expr pointer type loc s') := by
  refine h.bind (h.query (·.isReference_unread pointer)) fun reference =>
    h.bind (h.query (·.isVolatile_unread type)) fun volatile => ?_
  split
  · exact h.bind (h.warnVolatile hs loc reference type) fun _ => h.pure _
  · exact h.bind (h.warnUnusedValue hs loc reference expr) fun _ =>
      h.bind (h.query (·.kindOf_unread pointer)) fun _ =>
        h.bind (h.when (h.warnIgnored hs pointer) _) fun _ => h.pure _

section Self

variable {self self' : NodeId × DiscardSite → Pass NodeId}
  (hself : ∀ op s s', S s s' → J (self (op, s)) (self' (op, s')))
include hself

protected theorem voidCond (expr cond : NodeId) (second : Option NodeId) (third : NodeId)
    (loc : Span) : J (voidCond self expr cond second third loc s)
      (voidCond self' expr cond second third loc s') := by
  have heffect : ∀ a : Arena, (second.toList ++ [third]).anyM a.unread.hasEffect =
      (second.toList ++ [third]).anyM a.hasEffect := by
    intro a
    rw [funext a.hasEffect_unread]
  refine h.bind (h.query heffect) fun effect => ?_
  refine h.bind (h.mapM (fun op => hself op _ _ (h.part hs (!effect) .secondOfCond)) second)
    fun newSecond => h.bind (hself third _ _ (h.part hs (!effect) .thirdOfCond)) fun newThird => ?_
  split
  · exact h.pure _
  split
  · exact h.pure _
  · exact h.map (h.edit Arena.parallel_buildLike) _

protected theorem voidComma (expr lhs rhs : NodeId) (loc : Span) :
    J (voidComma self expr lhs rhs loc s) (voidComma self' expr lhs rhs loc s') := by
  refine h.bind (h.query (·.suppressesAny_unread expr)) fun suppressed => ?_
  refine h.bind (hself rhs _ _ (h.part hs (!suppressed) .rightOfComma)) fun newRhs => ?_
  split
  · exact h.pure _
  split
  · exact h.pure _
  · exact h.map (h.edit Arena.parallel_buildLike) _

protected theorem voidByKind (expr type : NodeId) (loc : Span) :
    J (voidByKind self expr type loc s) (voidByKind self' expr type loc s') := by
  refine h.bind (h.query (·.kindOf_unread expr)) fun kind => ?_
  split
  · exact h.voidCond hs hself expr ..
  · exact h.voidComma hs hself expr ..
  · exact h.map (h.voidDeref hs expr ..) _
  · exact h.bind (h.warnIgnored hs expr) fun _ => h.pure _
  · exact h.bind (h.warnIgnored hs expr) fun _ => h.pure _
  · exact h.bind (h.warnVariable hs _ type loc) fun _ => h.pure _
  · exact h.pure _

protected theorem voidNode (expr : NodeId) (loc : Span) :
    J (voidNode self expr loc s) (voidNode self' expr loc s') := by
  refine h.bind (h.classifyDiscarded expr) fun expr =>
    h.bind (h.query (·.isErroneous_unread expr)) fun erroneous => ?_
  split
  · exact h.pure _
  refine h.bind (h.read hs expr) fun _ => h.bind (h.query (·.typeOf_unread expr)) fun type => ?_
  cases type with
  | none => exact h.pure _
  | some type =>
    refine h.bind (h.query (·.isVoidType_unread type)) fun void => ?_
    split
    · exact h.pure _
    refine h.bind (h.voidByKind hs hself expr type loc) fun reduced => ?_
    cases reduced with
    | none => exact h.pure _
    | some expr => exact h.bind (h.query (·.hasEffect_unread expr)) fun _ => h.pure _

protected theorem toVoidStep (expr : NodeId) :
    J (toVoidStep self (expr, s)) (toVoidStep self' (expr, s')) := by
  refine h.bind (h.query (·.isErroneous_unread expr)) fun erroneous => ?_
  split
  · exact h.pure _
  · exact h.bind (h.location expr) fun loc => h.nested (h.voidNode hs hself expr loc)

end Self

/-- Reductions of an expression at related places. -/
protected theorem toVoid (expr : NodeId) : J (toVoid expr s) (toVoid expr s') := by
  refine h.recursively (S := fun x y => x.1 = y.1 ∧ S x.2 y.2)
    (fun self self' hself x y hxy => ?_) ⟨rfl, hs⟩
  obtain ⟨expr, s⟩ := x
  obtain ⟨_, s'⟩ := y
  obtain ⟨rfl, hs⟩ := hxy
  exact h.toVoidStep hs (fun op s s' hs => hself _ _ ⟨rfl, hs⟩) expr

end TwinsAt

/-- Places that are both a cast or both named. -/
def AlikeSites (s s' : DiscardSite) : Prop := s = .cast ↔ s' = .cast

theorem AlikeSites.part {s s' : DiscardSite} (h : AlikeSites s s') (named : Bool)
    (place : DiscardSite) : (if (s ≠ .cast && named) = true then place else .cast) =
      if (s' ≠ .cast && named) = true then place else .cast := by
  have hdecide : decide (s ≠ .cast) = decide (s' ≠ .cast) := by
    simp only [ne_eq, show s = .cast ↔ s' = .cast from h]
  rw [hdecide]

/-- Where warnings in different words are related, so are reductions at two named places. -/
theorem Twins.alikeSites (h : Twins J) (hwarn : Explains (fun _ => True) J) :
    TwinsAt AlikeSites J where
  toTwins := h
  part hs named place := by
    rw [hs.part named place]
    exact .rfl
  read {s s'} hs expr := by
    have hread : (s' == .cast) = (s == .cast) := by
      rw [Bool.eq_iff_iff, beq_iff_eq, beq_iff_eq]
      exact hs.symm
    rw [hread]
    exact h.when (h.recordRead expr) _
  warnVolatile _ := hwarn.warnVolatile _ _ fun _ _ => trivial
  warnUnusedValue hs := hwarn.warnUnusedValue _ _ trivial hs
  warnVariable _ := hwarn.warnVariable _ _ fun _ _ => trivial
  warnIgnored hs := hwarn.warnIgnored trivial hs

/-! ### Properties of passes -/

/-- A property that elementary passes have, and that parts hand on.  The warning about an ignored
result counts as elementary here, since its notes belong to it. -/
structure Law (P : ∀ {α : Type}, Pass α → Prop) : Prop
    extends Warns (fun _ => True) fun {α} (p _ : Pass α) => P p where
  edit : ∀ {α : Type} (change : Action Arena α), P (edit change)
  error : ∀ (span : Span) (name : String), P (error (.builtinNotCalled span name))
  warnIgnored : ∀ (expr : NodeId) (site : DiscardSite), P (warnIgnored expr site)
  nested : ∀ {α : Type} {span : Span} {overflow : α} {body : Pass α}, P body →
    P (nested span overflow body)

namespace Law

variable {P : ∀ {α : Type}, Pass α → Prop} (h : Law P)
include h

theorem andThen {p : Pass α} {f : α → Pass β} (hp : P p) (hf : ∀ r, P (f r)) :
    P (p >>= f) := @Composes.bind _ h.toComposes α β p p f f hp hf

theorem twins : Twins fun {α} (p _ : Pass α) => P p where
  ask hq := h.ask fun _ _ => hq _ _ ⟨rfl, rfl, rfl⟩
  bind := h.andThen
  edit _ := h.edit _
  nested := h.nested

theorem twinsAt : TwinsAt (fun _ _ => True) fun {α} (p _ : Pass α) => P p where
  toTwins := h.twins
  part _ _ _ := trivial
  read {s _} _ expr :=
    @Composes.when _ h.toComposes _ (recordRead expr) (h.twins.recordRead expr) (s == .cast)
  warnVolatile {s _} _ := h.warnVolatile s s fun _ _ => trivial
  warnUnusedValue {s _} _ := h.warnUnusedValue s s trivial .rfl
  warnVariable {s _} _ := h.warnVariable s s fun _ _ => trivial
  warnIgnored _ expr := h.warnIgnored expr _

protected theorem forM {f : α → Pass PUnit} (hf : ∀ x, P (f x)) (xs : List α) : P (xs.forM f) :=
  @Twins.forM _ _ h.twins f f hf xs

protected theorem recordReadStep {self : NodeId → Pass Unit} (hself : ∀ op, P (self op))
    (expr : NodeId) : P (recordReadStep self expr) :=
  @Twins.recordReadStep _ h.twins self self hself expr

protected theorem recordRead (expr : NodeId) : P (recordRead expr) := h.twins.recordRead expr

protected theorem dereference (value : NodeId) : P (dereference value) :=
  h.twins.dereference value

protected theorem rejectBuiltin (expr : NodeId) (loc : Span) : P (rejectBuiltin expr loc) :=
  h.andThen (h.query _) fun _ => h.andThen (h.query _) fun _ => h.andThen (h.location expr)
    fun _ => h.andThen (h.error ..) fun _ => h.pure _

protected theorem classifyNode {self : NodeId × UseMode → Pass NodeId}
    (hself : ∀ p, P (self p)) (expr : NodeId) (mode : UseMode) :
    P (classifyNode self expr mode) :=
  @Twins.classifyNode _ h.twins self self expr mode fun _ _ _ => hself _

protected theorem classifyUseStep {self : NodeId × UseMode → Pass NodeId}
    (hself : ∀ p, P (self p)) (p : NodeId × UseMode) : P (classifyUseStep self p) :=
  @Twins.classifyUseStep _ h.twins self self p.1 p.2 (fun _ _ _ => hself _) fun _ => h.rejectBuiltin

protected theorem classifyUse (expr : NodeId) (mode : UseMode) : P (classifyUse expr mode) :=
  h.twins.classifyUse fun _ => h.rejectBuiltin

protected theorem rvalueUseAt (expr : NodeId) (loc : Span) (reject : Bool) :
    P (rvalueUseAt expr loc reject) := h.classifyUse expr _

protected theorem rvalueUse (expr : NodeId) : P (rvalueUse expr) := h.rvalueUseAt expr _ _

protected theorem lvalueUse (expr : NodeId) (read : Bool) : P (lvalueUse expr read) :=
  h.twins.inputLocation (classifyUse expr ⟨false, read, ·, false⟩) fun _ => h.classifyUse expr _

protected theorem classifyDiscardedNode {self : NodeId → Pass NodeId} (hself : ∀ op, P (self op))
    (expr : NodeId) : P (classifyDiscardedNode self expr) :=
  @Twins.classifyDiscardedNode _ h.twins self self hself expr

protected theorem classifyDiscardedStep {self : NodeId → Pass NodeId} (hself : ∀ op, P (self op))
    (expr : NodeId) : P (classifyDiscardedStep self expr) :=
  @Twins.classifyDiscardedStep _ h.twins self self hself expr

protected theorem classifyDiscarded (expr : NodeId) : P (classifyDiscarded expr) :=
  h.twins.classifyDiscarded expr

protected theorem voidNode {self : NodeId × DiscardSite → Pass NodeId} (hself : ∀ p, P (self p))
    (expr : NodeId) (loc : Span) (site : DiscardSite) : P (voidNode self expr loc site) :=
  @TwinsAt.voidNode _ _ h.twinsAt site site trivial self self (fun _ _ _ _ => hself _) expr loc

protected theorem toVoidStep {self : NodeId × DiscardSite → Pass NodeId} (hself : ∀ p, P (self p))
    (p : NodeId × DiscardSite) : P (toVoidStep self p) :=
  @TwinsAt.toVoidStep _ _ h.twinsAt p.2 p.2 trivial self self (fun _ _ _ _ => hself _) p.1

protected theorem toVoid (expr : NodeId) (site : DiscardSite) : P (toVoid expr site) :=
  @TwinsAt.toVoid _ _ h.twinsAt site site trivial expr

end Law

end Pass

end ExprTree
