import ExprTree.Proofs.Runs
import ExprTree.Proofs.Typing
import ExprTree.Walk.Basic

/-!
# Walks and their calls

A walk is followed in two ways.  Two walks side by side do the same as long as their visitors do,
whatever these do.  A walk whose visitor never ends it and leaves the arena alone goes from child to
child, and what it does to the children of a node in order is what it does to the node.

* `Walk.returns_nested`, `Walk.returns_unevaluated` — the scopes of a walk.
* `Walk.Abreast`, `Walk.Meet` — walks side by side.
* `Call`, `Visitor.recorded` — the calls of a visitor, and a visitor that keeps a record of them.
* `Walk.treeCalls`, `Walk.languageCalls` — the calls in the course of a walk.
* `Visitor.Steady` — a visitor that never ends the walk and leaves the arena alone.
* `Arena.children`, `Arena.walked` — the children of a node in the order in which they are walked.
* `Walk.below_eq` — what is walked below a node is walked in order, whatever it is.
* `Walk.Course` — what walks of nodes in order do; `Walk.Course.node` shows it for one node.
-/

namespace ExprTree

namespace Walk
open ExprTree.Action
variable {σ τ α β : Type} {s : WalkState σ}

theorem lift_eq (p : Pass α) (s : WalkState σ) : (liftM p : Walk σ α) s =
    mapState (fun cx => { s with context := cx }) (p s.context) := by
  show (monadLift p : Walk σ α) s = _
  obtain ⟨user, visited, context⟩ := s
  simp only [monadLift, MonadLift.monadLift]
  cases p context <;> rfl

theorem lift_of_ok {p : Pass α} {r : α} {cx : Context} (h : p s.context = .ok r cx) :
    (liftM p : Walk σ α) s = .ok r { s with context := cx } := by
  rw [lift_eq, h]
  rfl

theorem lift_of_error {p : Pass α} {e : Fault} {cx : Context} (h : p s.context = .error e cx) :
    (liftM p : Walk σ α) s = .error e { s with context := cx } := by
  rw [lift_eq, h]
  rfl

theorem returns_lift {p : Pass α} {Q : α → WalkState σ → Prop}
    (h : Returns p (fun r cx => Q r { s with context := cx }) s.context) :
    Returns (liftM p : Walk σ α) Q s := by
  obtain ⟨r, cx, hr, hQ⟩ := h
  exact ⟨r, _, lift_of_ok hr, hQ⟩

theorem returns_query {q : Arena → Except Fault α} {r : α} {Q : α → WalkState σ → Prop}
    (hr : q s.context.arena = .ok r) (h : Q r s) : Returns (liftM (Pass.query q) : Walk σ α) Q s :=
  returns_lift ⟨r, s.context, ask_eq_ok_iff.2 ⟨hr, rfl⟩, h⟩

theorem arrive_of_none (hs : s.visited = none) (id : NodeId) : arrive id s = .ok true s := by
  simp only [arrive, hs]

theorem arrive_of_mem {V : Visited} {id : NodeId} (hs : s.visited = some V) (hid : id ∈ V) :
    arrive id s = .ok false s := by
  simp only [arrive, hs]
  rw [if_pos hid]

theorem arrive_of_notMem {V : Visited} {id : NodeId} (hs : s.visited = some V) (hid : id ∉ V) :
    arrive id s = .ok true { s with visited := some (id :: V) } := by
  simp only [arrive, hs]
  rw [if_neg hid]

/-- Whether a node is to be visited does not depend on the context. -/
theorem arrive_runs (id : NodeId) (user : σ) (visited : Option Visited) :
    ∃ arrived visited', ∀ context, arrive id ⟨user, visited, context⟩ =
      .ok arrived ⟨user, visited', context⟩ := by
  cases visited with
  | none => exact ⟨true, none, fun _ => rfl⟩
  | some V =>
    by_cases hid : id ∈ V
    · exact ⟨false, some V, fun _ => if_pos hid⟩
    · exact ⟨true, some (id :: V), fun _ => if_neg hid⟩

theorem nested_eq (span : Span) (overflow : α) (body : Walk σ α) :
    Pass.nested span overflow body = (do
      if ← liftM (Pass.enter span) then
        let r ← body
        liftM Pass.leave
        return r
      else return overflow) :=
  rfl

theorem returns_nested {span : Span} {overflow : α} {body : Walk σ α} {inner : Nesting}
    {Q : α → WalkState σ → Prop} (hroom : s.context.nesting.enter = .ok inner)
    (h : Returns body (fun r t => t.context.nesting = inner ∧
        Q r { t with context := { t.context with nesting := s.context.nesting } })
      { s with context := { s.context with nesting := inner } }) :
    Returns (Pass.nested span overflow body) Q s := by
  rw [nested_eq]
  refine returns_bind (returns_lift ⟨_, _, Pass.enter_of_ok hroom, ?_⟩)
  refine returns_bind (h.mono fun r t ⟨ht, hQ⟩ => ?_)
  have hleave : t.context.nesting.leave = .ok s.context.nesting :=
    ht ▸ Nesting.leave_of_enter hroom
  exact returns_bind (returns_lift ⟨_, _, Pass.leave_of_ok hleave, returns_pure hQ⟩)

theorem unevaluated_eq (body : Walk σ α) (s : WalkState σ) : Pass.unevaluated body s =
    tryFinally body (liftM Pass.leaveUnevaluated) { s with context :=
      { s.context with unevaluatedDepth := s.context.unevaluatedDepth + 1 } } := by
  show EStateM.bind (liftM Pass.enterUnevaluated) (fun _ =>
    tryFinally body (liftM Pass.leaveUnevaluated)) s = _
  unfold EStateM.bind
  rw [lift_eq]
  rfl

theorem returns_unevaluated {body : Walk σ α} {Q : α → WalkState σ → Prop}
    (h : Returns body (fun r t => t.context.unevaluatedDepth = s.context.unevaluatedDepth + 1 ∧
        Q r { t with context :=
          { t.context with unevaluatedDepth := s.context.unevaluatedDepth } })
      { s with context :=
        { s.context with unevaluatedDepth := s.context.unevaluatedDepth + 1 } }) :
    Returns (Pass.unevaluated body) Q s := by
  obtain ⟨r, t, hr, ht, hQ⟩ := h
  have hleave : Returns (do liftM Pass.leaveUnevaluated; return r : Walk σ α)
      (fun r' u => r' = r ∧ Q r u) t := by
    rw [show s.context.unevaluatedDepth = t.context.unevaluatedDepth - 1 by omega] at hQ
    have hdepth : t.context.unevaluatedDepth ≠ 0 := by omega
    exact returns_bind (returns_lift
      ⟨_, _, Pass.leaveUnevaluated_of_ne_zero hdepth, returns_pure ⟨rfl, hQ⟩⟩)
  obtain ⟨_, u, hu, rfl, hQ⟩ := hleave
  refine ⟨_, u, ?_, hQ⟩
  rw [unevaluated_eq, tryFinally_eq, hr]
  exact hu

/-! ### Walks side by side -/

/-- The states of two walks that have visited the same nodes and work on the same context. -/
structure Abreast (E : WalkState σ → WalkState τ → Prop) : Prop where
  visited_eq : ∀ {s t}, E s t → s.visited = t.visited
  context_eq : ∀ {s t}, E s t → s.context = t.context
  setContext : ∀ {s t}, E s t → ∀ context, E { s with context } { t with context }

variable {E : WalkState σ → WalkState τ → Prop}

theorem Abreast.lift (hE : Abreast E) (p : Pass α) :
    Parallel E (liftM p : Walk σ α) (liftM p) := by
  intro s t hst
  rw [lift_eq, lift_eq, hE.context_eq hst]
  cases p t.context with
  | ok r cx => exact .ok (hE.setContext hst cx)
  | error e cx => exact .error (hE.setContext hst cx)

theorem Abreast.nested (hE : Abreast E) {span : Span} {overflow : α} {p : Walk σ α} {q : Walk τ α}
    (h : Parallel E p q) :
    Parallel E (Pass.nested span overflow p) (Pass.nested span overflow q) := by
  rw [nested_eq, nested_eq]
  refine (hE.lift _).bind fun entered => ?_
  split
  · exact h.bind fun r => (hE.lift _).bind fun _ => parallel_pure
  · exact parallel_pure

theorem Abreast.unevaluated (hE : Abreast E) {p : Walk σ α} {q : Walk τ α} (h : Parallel E p q) :
    Parallel E (Pass.unevaluated p) (Pass.unevaluated q) := by
  intro s t hst
  rw [unevaluated_eq, unevaluated_eq, hE.context_eq hst]
  exact h.tryFinally (hE.lift _) (hE.setContext hst _)

theorem parallel_firstOf {f : α → Walk σ (Option NodeId)} {g : α → Walk τ (Option NodeId)}
    (h : ∀ x, Parallel E (f x) (g x)) (xs : List α) :
    Parallel E (firstOf f xs) (firstOf g xs) := by
  induction xs with
  | nil => exact parallel_pure
  | cons x xs ih =>
    refine (h x).bind fun found => ?_
    cases found with
    | some id => exact parallel_pure
    | none => exact ih

section Self

variable {self : NodeId → Walk σ (Option NodeId)} {self' : NodeId → Walk τ (Option NodeId)}

theorem Abreast.child (hE : Abreast E) (h : ∀ id, Parallel E (self id) (self' id)) (c : Child) :
    Parallel E (Walk.child self c) (Walk.child self' c) := by
  unfold Walk.child
  split
  · exact hE.unevaluated (h c.node)
  · exact h c.node

theorem Abreast.language (hE : Abreast E) (h : ∀ id, Parallel E (self id) (self' id)) (id : NodeId)
    (descend : Bool) :
    Parallel E (Walk.language self id descend) (Walk.language self' id descend) := by
  refine (hE.lift _).bind fun parts => ?_
  cases parts with
  | none => exact parallel_pure
  | some parts =>
    refine (parallel_firstOf (hE.child h) parts.children).bind fun found => ?_
    cases found <;> exact parallel_pure

theorem Abreast.generic (hE : Abreast E) (h : ∀ id, Parallel E (self id) (self' id)) (isType : Bool)
    (id : NodeId) : Parallel E (Walk.generic self isType id) (Walk.generic self' isType id) := by
  intro s t hst
  -- whether component types are walked is asked of the state, which is the same in both walks
  have hgeneric : Parallel E
      (liftM (Pass.query (·.genericChildren isType s.visited.isSome id)) >>= firstOf self)
      (liftM (Pass.query (·.genericChildren isType s.visited.isSome id)) >>= firstOf self') :=
    (hE.lift _).bind fun ids => parallel_firstOf h ids
  have hboth := hgeneric hst
  rw [hE.visited_eq hst] at hboth
  show Alike E ((liftM (Pass.query (·.genericChildren isType s.visited.isSome id)) >>=
    firstOf self) s) _
  rw [hE.visited_eq hst]
  exact hboth

theorem Abreast.children (hE : Abreast E) (h : ∀ id, Parallel E (self id) (self' id))
    (kind : NodeKind) (id : NodeId) :
    Parallel E (Walk.children self kind id) (Walk.children self' kind id) := by
  refine (hE.language h id true).bind fun walked => ?_
  obtain ⟨walked, descend⟩ := walked
  cases walked with
  | notHandled => exact hE.generic h _ _
  | stopped found => exact parallel_pure
  | finished =>
    cases descend with
    | true => exact hE.generic h _ _
    | false => exact parallel_pure

theorem parallel_siblings (h : ∀ id, Parallel E (self id) (self' id)) (kind : NodeKind) :
    Parallel E (siblings self kind) (siblings self' kind) := by
  unfold siblings
  split
  · exact h _
  · exact parallel_pure

/-- What is walked at a node after the answer of the visitor. -/
def goOn (self : NodeId → Walk σ (Option NodeId)) (id : NodeId) (answer : Visit) :
    Walk σ (Option NodeId) := do
  if let some found := answer.found then return some found
  let kind ← Pass.query (·.kindOf id)
  if answer.descend then Walk.children self kind id else siblings self kind

theorem node_eq (v : Visitor σ) (self : NodeId → Walk σ (Option NodeId)) (id : NodeId) :
    Walk.node v self id = (do if ← arrive id then visit v id >>= goOn self id else return none) :=
  rfl

theorem Abreast.goOn (hE : Abreast E) (h : ∀ id, Parallel E (self id) (self' id)) (id : NodeId)
    (answer : Visit) : Parallel E (Walk.goOn self id answer) (Walk.goOn self' id answer) := by
  unfold Walk.goOn
  cases answer.found with
  | some found => exact parallel_pure
  | none =>
    refine (hE.lift _).bind fun kind => ?_
    split
    · exact hE.children h kind id
    · exact parallel_siblings h kind

end Self

/-- Two visitors run alike at every node at which a walk arrives. -/
def Meet (E : WalkState σ → WalkState τ → Prop) (v : Visitor σ) (w : Visitor τ) : Prop :=
  ∀ (id : NodeId) (k : Visit → Walk σ (Option NodeId)) (l : Visit → Walk τ (Option NodeId)),
    (∀ answer, Parallel E (k answer) (l answer)) →
      Parallel E (do if ← arrive id then visit v id >>= k else return none)
        (do if ← arrive id then visit w id >>= l else return none)

theorem Abreast.within (hE : Abreast E) {v : Visitor σ} {w : Visitor τ} (hvw : Meet E v w)
    (levels : Nat) (id : NodeId) :
    Parallel E (Walk.within v levels id) (Walk.within w levels id) := by
  have hstep : ∀ self self', (∀ id, Parallel E (self id) (self' id)) →
      ∀ id, Parallel E (step v self id) (step w self' id) := fun self self' hself id =>
    (hE.lift _).bind fun span => hE.nested (hvw id _ _ (hE.goOn hself id))
  induction levels generalizing id with
  | zero => exact hstep _ _ (fun _ => parallel_throw) id
  | succ levels ih => exact hstep _ _ ih id

end Walk

variable {σ : Type}

/-- A call of a visitor. -/
structure Call where
  node : NodeId
  /-- The number of unevaluated operands around the node. -/
  unevaluatedDepth : Nat
  deriving DecidableEq, Repr

/-- A visitor that keeps a record of its calls, the first one first. -/
def Visitor.recorded (v : Visitor σ) : Visitor (List Call × σ) := fun node => fun
  | ((calls, user), context) =>
    let calls := calls ++ [⟨node, context.unevaluatedDepth⟩]
    Action.mapState (fun s => ((calls, s.1), s.2)) (v node (user, context))

namespace WalkState

/-- A state in which nothing has been recorded. -/
def recording (s : WalkState σ) : WalkState (List Call × σ) := ⟨([], s.user), s.visited, s.context⟩

/-- A state without its record. -/
def forget (s : WalkState (List Call × σ)) : WalkState σ := ⟨s.user.2, s.visited, s.context⟩

/-- The calls that have been recorded. -/
def calls (s : WalkState (List Call × σ)) : List Call := s.user.1

end WalkState

namespace Walk

open ExprTree.Action

theorem abreast_forget : Abreast fun (s : WalkState (List Call × σ)) t => s.forget = t where
  visited_eq h := h ▸ rfl
  context_eq h := h ▸ rfl
  setContext h _ := h ▸ rfl

theorem visit_recorded (v : Visitor σ) (id : NodeId) : Parallel
    (fun (s : WalkState (List Call × σ)) t => s.forget = t) (visit v.recorded id) (visit v id) := by
  rintro s _ rfl
  show Alike _ (visit v.recorded id s) (visit v id ⟨s.user.2, s.visited, s.context⟩)
  simp only [visit, Visitor.recorded]
  cases v id (s.user.2, s.context) with
  | ok answer t => exact .ok rfl
  | error e t => exact .error rfl

theorem meet_recorded (v : Visitor σ) :
    Meet (fun (s : WalkState (List Call × σ)) t => s.forget = t) v.recorded v := by
  intro id k l hkl
  refine Parallel.bind ?_ fun arrived => ?_
  · rintro ⟨user, visited, context⟩ _ rfl
    cases visited with
    | none => exact .ok rfl
    | some V =>
      simp only [arrive, WalkState.forget]
      split
      · exact .ok rfl
      · exact .ok rfl
  · split
    · exact (visit_recorded v id).bind hkl
    · exact parallel_pure

/-- A walk does what it does without a record. -/
theorem walkTree_recorded (v : Visitor σ) (id : NodeId) (s : WalkState σ) :
    Alike (fun t u => t.forget = u) (walkTree v.recorded id s.recording) (walkTree v id s) :=
  abreast_forget.within (meet_recorded v) _ id rfl

theorem walkLanguage_recorded (v : Visitor σ) (id : NodeId) (descend : Bool) (s : WalkState σ) :
    Alike (fun t u => t.forget = u) (walkLanguage v.recorded id descend s.recording)
      (walkLanguage v id descend s) :=
  abreast_forget.language (abreast_forget.within (meet_recorded v) _) id descend rfl

/-- The calls of the visitor in the course of a walk of a tree, whether it returns or not. -/
def treeCalls (v : Visitor σ) (id : NodeId) (s : WalkState σ) : List Call :=
  ((walkTree v.recorded id).last s.recording).calls

/-- The same for a walk of the children of the language alone. -/
def languageCalls (v : Visitor σ) (id : NodeId) (descend : Bool) (s : WalkState σ) : List Call :=
  ((walkLanguage v.recorded id descend).last s.recording).calls

theorem walkTree_eq_forget (v : Visitor σ) (root : NodeId) (s : WalkState σ) :
    walkTree v root s = mapState WalkState.forget (walkTree v.recorded root s.recording) := by
  have hboth := walkTree_recorded v root s
  generalize walkTree v.recorded root s.recording = r, walkTree v root s = r' at hboth
  cases hboth with
  | ok h | error h => exact h ▸ rfl

/-- A walk that returns does so with a record of its calls. -/
theorem recorded_of_walkTree {v : Visitor σ} {id : NodeId} {s t : WalkState σ} {r : Option NodeId}
    (h : walkTree v id s = .ok r t) : ∃ u, walkTree v.recorded id s.recording = .ok r u ∧
      u.forget = t ∧ treeCalls v id s = u.calls := by
  rw [walkTree_eq_forget] at h
  unfold treeCalls last
  generalize walkTree v.recorded id s.recording = result at h
  cases result with
  | ok x u =>
    cases h
    exact ⟨u, rfl, rfl, rfl⟩
  | error e u => cases h

/-- A walk that returns with a record returns without it. -/
theorem treeCalls_of_returns {v : Visitor σ} {id : NodeId} {s : WalkState σ}
    {Q : Option NodeId → WalkState (List Call × σ) → Prop}
    (h : Returns (walkTree v.recorded id) Q s.recording) :
    ∃ r t, walkTree v id s = .ok r t.forget ∧ treeCalls v id s = t.calls ∧ Q r t := by
  obtain ⟨r, t, hrun, hQ⟩ := h
  have hplain := walkTree_recorded v id s
  rw [hrun] at hplain
  obtain ⟨u, hu, rfl⟩ := hplain.eq_ok
  exact ⟨r, t, hu, by rw [treeCalls, last, hrun], hQ⟩

end Walk

/-! ### Steady visitors -/

/-- Two contexts of one arena, at the same place in it. -/
structure Context.SamePlace (cx cx' : Context) : Prop where
  arena_eq : cx'.arena = cx.arena
  nesting_eq : cx'.nesting = cx.nesting
  depth_eq : cx'.unevaluatedDepth = cx.unevaluatedDepth

theorem Context.SamePlace.refl (cx : Context) : cx.SamePlace cx := ⟨rfl, rfl, rfl⟩

theorem Context.SamePlace.trans {cx cx' cx'' : Context} (h : cx.SamePlace cx')
    (h' : cx'.SamePlace cx'') : cx.SamePlace cx'' :=
  ⟨h'.1.trans h.1, h'.2.trans h.2, h'.3.trans h.3⟩

/-- A visitor that never ends the walk of an arena, never changes the arena, and whose answer
depends on the node alone. -/
def Visitor.Steady (v : Visitor σ) (a : Arena) (descends : NodeId → Bool) : Prop :=
  ∀ id user cx, cx.arena = a → (a.find? id).isSome = true → ∃ user' cx',
    v id (user, cx) = .ok ⟨none, descends id⟩ (user', cx') ∧ cx.SamePlace cx'

/-- A visitor that skips the children of some nodes, and does nothing else. -/
def Visitor.skipping (skips : NodeId → Bool) : Visitor Unit := fun id s => .ok ⟨none, !skips id⟩ s

theorem Visitor.steady_skipping (skips : NodeId → Bool) (a : Arena) :
    (Visitor.skipping skips).Steady a fun id => !skips id :=
  fun _ user cx _ _ => ⟨user, cx, rfl, .refl cx⟩

namespace Arena

/-- The children of a node in the order in which they are walked: those of the language, and unless
these replace them the operands or, if they are walked at all, the component types. -/
def children (a : Arena) (components : Bool) (id : NodeId) : Except Fault (List Child) := do
  let kind ← a.kindOf id
  let parts := (← a.languageChildren? id).getD (.before [])
  if parts.replaceOperands then return parts.children
  else return parts.children ++ (← a.genericChildren kind.isType components id).map (⟨·, false⟩)

/-- What follows a node whose children are skipped. -/
def rest (a : Arena) (id : NodeId) : Except Fault (List Child) :=
  (a.kindOf id).map fun | .listCell _ _ (some next) => [⟨next, false⟩] | _ => []

/-- What is walked below a node. -/
def walked (a : Arena) (components descend : Bool) (id : NodeId) : Except Fault (List Child) :=
  if descend then a.children components id else a.rest id

/-- Only below nodes of the arena something is walked. -/
theorem exists_find?_of_walked {a : Arena} {components descend : Bool} {id : NodeId}
    {cs : List Child} (h : a.walked components descend id = .ok cs) : ∃ n, a.find? id = some n := by
  have hkind : ∃ kind, a.kindOf id = .ok kind := by
    unfold walked at h
    split at h
    · obtain ⟨kind, hkind, -⟩ := bind_eq_ok_iff.1 h
      exact ⟨kind, hkind⟩
    · obtain ⟨kind, hkind, -⟩ := map_eq_ok_iff.1 h
      exact ⟨kind, hkind⟩
  obtain ⟨_, hkind⟩ := hkind
  obtain ⟨n, hn, -⟩ := kindOf_eq_ok_iff.1 hkind
  exact ⟨n, hn⟩

end Arena

namespace Walk

open ExprTree.Action

/-- What walks of nodes in order do, from state to state. -/
structure Course (T : List Child → WalkState σ → WalkState σ → Prop) : Prop where
  nil : ∀ s, T [] s s
  append : ∀ {xs ys s t u}, T xs s t → T ys t u → T (xs ++ ys) s u
  arena_eq : ∀ {xs s t}, T xs s t → t.context.arena = s.context.arena
  isSome_visited : ∀ {xs s t}, T xs s t → t.visited.isSome = s.visited.isSome

variable {T : List Child → WalkState σ → WalkState σ → Prop} {s : WalkState σ}
  {self : NodeId → Walk σ (Option NodeId)} {cs : List Child}

/-- Every child is walked as the course says, wherever the walks before it have led. -/
def Walks (T : List Child → WalkState σ → WalkState σ → Prop)
    (self : NodeId → Walk σ (Option NodeId)) (s : WalkState σ) (cs : List Child) : Prop :=
  ∀ c ∈ cs, ∀ before t, T before s t →
    Returns (child self c) (fun r u => r = none ∧ T [c] t u) t

theorem Course.walks_of_append (hT : Course T) {t : WalkState σ} {xs ys : List Child}
    (ht : T xs s t) (h : Walks T self s (xs ++ ys)) : Walks T self t ys :=
  fun c hc before u hu => h c (by simp [hc]) _ u (hT.append ht hu)

theorem Course.firstOf (hT : Course T) (h : Walks T self s cs) :
    Returns (firstOf (child self) cs) (fun r t => r = none ∧ T cs s t) s := by
  induction cs generalizing s with
  | nil => exact returns_pure ⟨rfl, hT.nil s⟩
  | cons c cs ih =>
    refine returns_bind ((h c (by simp) [] s (hT.nil s)).mono ?_)
    rintro _ t ⟨rfl, ht⟩
    refine (ih (hT.walks_of_append ht h)).mono fun r u ⟨hr, hu⟩ => ⟨hr, hT.append ht hu⟩

/-- Operands and component types are walked like children that are evaluated. -/
theorem firstOf_eq (ids : List NodeId) :
    Walk.firstOf self ids = Walk.firstOf (child self) (ids.map (⟨·, false⟩)) := by
  induction ids with
  | nil => rfl
  | cons id ids ih =>
    simp only [Walk.firstOf, List.map_cons, ih]
    rfl

variable {α : Type}

theorem firstOf_append (walk : α → Walk σ (Option NodeId)) (xs ys : List α) :
    firstOf walk (xs ++ ys) = (do
      match ← firstOf walk xs with
      | some found => return some found
      | none => firstOf walk ys) := by
  induction xs with
  | nil => rfl
  | cons x xs ih =>
    simp only [List.cons_append, firstOf, ih, bind_assoc]
    refine bind_congr fun found => ?_
    cases found with
    | some found => rfl
    | none => rfl

theorem firstOf_singleton (walk : α → Walk σ (Option NodeId)) (x : α) :
    firstOf walk [x] = walk x := by
  conv_rhs => rw [← bind_pure (walk x)]
  refine bind_congr fun found => ?_
  cases found with
  | none => rfl
  | some found => rfl

/-- The walks of children in order leave the arena as it is. -/
def KeepsArena (self : NodeId → Walk σ (Option NodeId)) (cs : List Child) (s : WalkState σ) :
    Prop :=
  ∀ xs, xs <+: cs → ∀ t, firstOf (child self) xs s = .ok none t →
    t.context.arena = s.context.arena ∧ t.visited.isSome = s.visited.isSome

theorem bind_eq_bind {β γ : Type} {p : Walk σ β} {k l : β → Walk σ γ}
    (h : ∀ r t, p s = .ok r t → k r t = l r t) : (p >>= k) s = (p >>= l) s := by
  cases hp : p s with
  | ok r t => rw [bind_eq_of_ok hp, bind_eq_of_ok hp, h r t hp]
  | error e t => rw [bind_eq_of_error hp, bind_eq_of_error hp]

theorem query_bind_eq {β : Type} {q : Arena → Except Fault α} {r : α} {k : α → Walk σ β}
    (hr : q s.context.arena = .ok r) : (liftM (Pass.query q) >>= k) s = k r s :=
  bind_eq_of_ok (lift_of_ok (ask_eq_ok_iff.2 ⟨hr, rfl⟩))

theorem generic_eq {isType : Bool} {id : NodeId} {ids : List NodeId}
    (hids : s.context.arena.genericChildren isType s.visited.isSome id = .ok ids) :
    generic self isType id s = firstOf (child self) (ids.map (⟨·, false⟩)) s := by
  rw [← firstOf_eq]
  exact query_bind_eq hids

/-- The children of a node are walked in order, those of the language and the others alike. -/
theorem children_eq {kind : NodeKind} {id : NodeId} (hkind : s.context.arena.kindOf id = .ok kind)
    (hcs : s.context.arena.children s.visited.isSome id = .ok cs) (hkeeps : KeepsArena self cs s) :
    children self kind id s = firstOf (child self) cs s := by
  obtain ⟨_, hk, hcs⟩ := Arena.bind_eq_ok_iff.1 hcs
  cases hkind.symm.trans hk
  obtain ⟨parts, hparts, hcs⟩ := Arena.bind_eq_ok_iff.1 hcs
  unfold children language
  rw [bind_assoc, query_bind_eq hparts]
  cases parts with
  | none =>
    obtain ⟨ids, hids, ⟨⟩⟩ := Arena.bind_eq_ok_iff.1 hcs
    exact generic_eq hids
  | some parts =>
    obtain ⟨children, replace⟩ := parts
    simp only [bind_assoc]
    cases replace with
    | true =>
      cases hcs
      show _ = firstOf (child self) children s
      conv_rhs => rw [← bind_pure (firstOf (child self) children)]
      refine bind_eq_bind fun r t _ => ?_
      cases r with
      | none => rfl
      | some found => rfl
    | false =>
      obtain ⟨ids, hids, ⟨⟩⟩ := Arena.bind_eq_ok_iff.1 hcs
      rw [firstOf_append]
      refine bind_eq_bind fun r t hrun => ?_
      cases r with
      | some found => rfl
      | none =>
        obtain ⟨harena, hvisited⟩ := hkeeps _ (List.prefix_append ..) _ hrun
        rw [← harena, ← hvisited] at hids
        exact generic_eq hids

/-- What is walked below a node is walked in order. -/
theorem below_eq {kind : NodeKind} {descend : Bool} {id : NodeId}
    (hkind : s.context.arena.kindOf id = .ok kind)
    (hcs : s.context.arena.walked s.visited.isSome descend id = .ok cs)
    (hkeeps : KeepsArena self cs s) :
    (if descend then children self kind id else siblings self kind) s =
      firstOf (child self) cs s := by
  cases descend with
  | true => exact children_eq hkind hcs hkeeps
  | false =>
    simp only [Arena.walked, Arena.rest, hkind] at hcs
    cases hcs
    simp only [siblings]
    cases kind with
    | listCell purpose value next =>
      cases next with
      | none => rfl
      | some next => exact (congrFun (firstOf_singleton (child self) ⟨next, false⟩) s).symm
    | _ => rfl

theorem Course.keepsArena (hT : Course T) (h : Walks T self s cs) : KeepsArena self cs s := by
  intro xs hxs t ht
  obtain ⟨r, u, hrun, -, hu⟩ := hT.firstOf fun c hc => h c (hxs.subset hc)
  cases ht.symm.trans hrun
  exact ⟨hT.arena_eq hu, hT.isSome_visited hu⟩

theorem Course.below (hT : Course T) {kind : NodeKind} {descend : Bool} {id : NodeId}
    (hkind : s.context.arena.kindOf id = .ok kind)
    (hcs : s.context.arena.walked s.visited.isSome descend id = .ok cs) (h : Walks T self s cs) :
    Returns (if descend then Walk.children self kind id else siblings self kind)
      (fun r t => r = none ∧ T cs s t) s := by
  obtain ⟨r, t, hrun, ht⟩ := hT.firstOf h
  exact ⟨r, t, (below_eq hkind hcs (hT.keepsArena h)).trans hrun, ht⟩

/-- A state after a visitor has been called at a node. -/
structure Called (id : NodeId) (s t : WalkState (List Call × σ)) : Prop where
  visited_eq : t.visited = s.visited
  samePlace : s.context.SamePlace t.context
  calls_eq : t.calls = s.calls ++ [⟨id, s.context.unevaluatedDepth⟩]

section Steady

variable {v : Visitor σ} {a : Arena} {descends : NodeId → Bool} {id : NodeId}
  {s s' : WalkState (List Call × σ)} {self : NodeId → Walk (List Call × σ) (Option NodeId)}
  {T : List Child → WalkState (List Call × σ) → WalkState (List Call × σ) → Prop}

theorem returns_visit (hv : v.Steady a descends) (ha : s.context.arena = a)
    (hid : (a.find? id).isSome = true) :
    Returns (visit v.recorded id)
      (fun answer t => answer = ⟨none, descends id⟩ ∧ Called id s t) s := by
  obtain ⟨⟨calls, user⟩, visited, context⟩ := s
  obtain ⟨user', context', hrun, hplace⟩ := hv id user context ha hid
  refine ⟨_, ⟨(calls ++ [⟨id, context.unevaluatedDepth⟩], user'), visited, context'⟩, ?_, rfl,
    rfl, hplace, rfl⟩
  simp only [visit, Visitor.recorded, hrun, mapState]

theorem Course.node (hT : Course T) (hv : v.Steady a descends)
    (harrive : arrive id s = .ok true s') (ha : s'.context.arena = a)
    (hcs : a.walked s'.visited.isSome (descends id) id = .ok cs)
    (h : ∀ t, Called id s' t → Walks T self t cs) :
    Returns (node v.recorded self id) (fun r u => r = none ∧ ∃ t, Called id s' t ∧ T cs t u) s := by
  obtain ⟨n, hn⟩ := Arena.exists_find?_of_walked hcs
  have hkind : a.kindOf id = .ok n.kind := Arena.kindOf_eq_ok_iff.2 ⟨n, hn, rfl⟩
  have hid : (a.find? id).isSome = true := by rw [hn]; rfl
  refine returns_bind ⟨true, s', harrive, ?_⟩
  refine returns_bind ((returns_visit hv ha hid).mono ?_)
  rintro _ t ⟨rfl, ht⟩
  have hat : t.context.arena = a := ht.samePlace.arena_eq.trans ha
  refine returns_bind (returns_query (hat ▸ hkind) ?_)
  rw [← ht.visited_eq] at hcs
  exact (hT.below (hat ▸ hkind) (hat ▸ hcs) (h t ht)).mono fun r u ⟨hr, hu⟩ => ⟨hr, t, ht, hu⟩

end Steady

/-- One level of a walk, where there is room for it. -/
theorem returns_step {v : Visitor σ} {id : NodeId} {Q : Option NodeId → WalkState σ → Prop}
    {n : Node} (hn : s.context.arena.find? id = some n) (hroom : 0 < s.context.nesting.room)
    (h : ∀ inner : Nesting, s.context.nesting.room = inner.room + 1 →
      Returns (node v self id) (fun r t => t.context.nesting = inner ∧
          Q r { t with context := { t.context with nesting := s.context.nesting } })
        { s with context := { s.context with nesting := inner } }) :
    Returns (step v self id) Q s := by
  obtain ⟨inner, hinner⟩ : ∃ inner, s.context.nesting.enter = .ok inner := by
    unfold Nesting.room at hroom
    exact ⟨_, if_pos (by omega)⟩
  have hspan : s.context.arena.spanOf id = .ok n.span :=
    Arena.map_node_of_find? hn
  exact returns_bind (returns_query hspan
    (returns_nested hinner (h inner (Nesting.room_of_enter hinner))))

/-- Nothing is walked at a node that has been visited. -/
theorem returns_again {v : Visitor σ} {V : Visited} {id : NodeId} {n : Node}
    (hn : s.context.arena.find? id = some n) (hroom : 0 < s.context.nesting.room)
    (hs : s.visited = some V) (hid : id ∈ V) :
    Returns (step v self id) (fun r t => r = none ∧ t = s) s :=
  returns_step hn hroom fun _ _ =>
    returns_bind ⟨false, _, arrive_of_mem hs hid, returns_pure ⟨rfl, rfl, rfl⟩⟩

/-- The context in which a child is walked. -/
def inside (s : WalkState σ) (c : Child) : WalkState σ :=
  { s with context :=
    { s.context with unevaluatedDepth := s.context.unevaluatedDepth + c.unevaluated.toNat } }

theorem returns_child {c : Child} {R : WalkState σ → Prop}
    (hR : ∀ t depth, R t → R { t with context := { t.context with unevaluatedDepth := depth } })
    (h : Returns (self c.node)
      (fun r t => r = none ∧ (inside s c).context.SamePlace t.context ∧ R t) (inside s c)) :
    Returns (child self c) (fun r t => r = none ∧ s.context.SamePlace t.context ∧ R t) s := by
  obtain ⟨id, unevaluated⟩ := c
  cases unevaluated with
  | false => exact h
  | true =>
    refine returns_unevaluated (h.mono fun r t ⟨hr, ht, hRt⟩ => ?_)
    exact ⟨ht.depth_eq, hr, ⟨ht.arena_eq, ht.nesting_eq, rfl⟩, hR t _ hRt⟩

end Walk

end ExprTree
