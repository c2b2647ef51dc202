import ExprTree.Proofs.Walks

/-!
# Laws of walks

A walk is put together from questions, visits and two kinds of scopes.  A property that these have,
and that parts hand on to what is put together from them, is a property of every walk whose visitor
has it.

* `Walk.Law` — such a property of the parts of a walk.
* `Walk.Law.walkTree`, `Walk.Law.walkLanguage` — it is a property of the whole walk.
-/

namespace ExprTree

namespace Walk

variable {σ : Type}

/-- A property that questions, arrivals and visits have, and that parts of a walk hand on. -/
structure Law (v : Visitor σ) (P : ∀ {α : Type}, Walk σ α → Prop) : Prop where
  ask : ∀ {α : Type} (question : WalkState σ → Except Fault α), P (Action.ask question)
  bind : ∀ {α β : Type} {p : Walk σ α} {f : α → Walk σ β}, P p → (∀ r, P (f r)) → P (p >>= f)
  nested : ∀ {α : Type} {span : Span} {overflow : α} {body : Walk σ α}, P body →
    P (Pass.nested span overflow body)
  unevaluated : ∀ {α : Type} {body : Walk σ α}, P body → P (Pass.unevaluated body)
  arrive : ∀ id, P (arrive id)
  visit : ∀ id, P (visit v id)

namespace Law

variable {v : Visitor σ} {P : ∀ {α : Type}, Walk σ α → Prop} (h : Law v P) {α : Type}
include h

protected theorem pure (r : α) : P (pure r) := h.ask fun _ => .ok r

protected theorem throw (e : Fault) : P (throw e : Walk σ α) := h.ask fun _ => .error e

protected theorem get : P (get : Walk σ (WalkState σ)) := h.ask fun s => .ok s

protected theorem query (question : Arena → Except Fault α) :
    P (liftM (Pass.query question) : Walk σ α) := by
  have hask : (liftM (Pass.query question) : Walk σ α) =
      Action.ask fun s => question s.context.arena := by
    funext s
    rw [lift_eq]
    simp only [Pass.query, Action.ask]
    cases question s.context.arena <;> rfl
  rw [hask]
  exact h.ask _

protected theorem firstOf {walk : α → Walk σ (Option NodeId)} (hwalk : ∀ x, P (walk x))
    (xs : List α) : P (firstOf walk xs) := by
  induction xs with
  | nil => exact h.pure _
  | cons x xs ih =>
    refine h.bind (hwalk x) fun found => ?_
    cases found with
    | some id => exact h.pure _
    | none => exact ih

section Self

variable {self : NodeId → Walk σ (Option NodeId)} (hself : ∀ id, P (self id))
include hself

protected theorem child (c : Child) : P (child self c) := by
  unfold Walk.child
  split
  · exact h.unevaluated (hself c.node)
  · exact hself c.node

protected theorem language (id : NodeId) (descend : Bool) : P (language self id descend) := by
  refine h.bind (h.query _) fun parts => ?_
  cases parts with
  | none => exact h.pure _
  | some parts =>
    refine h.bind (h.firstOf (h.child hself) parts.children) fun found => ?_
    cases found <;> exact h.pure _

protected theorem generic (isType : Bool) (id : NodeId) : P (generic self isType id) :=
  h.bind h.get fun _ => h.bind (h.query _) fun ids => h.firstOf hself ids

protected theorem children (kind : NodeKind) (id : NodeId) : P (children self kind id) := by
  refine h.bind (h.language hself id true) fun walked => ?_
  obtain ⟨walked, descend⟩ := walked
  cases walked with
  | notHandled => exact h.generic hself _ _
  | stopped found => exact h.pure _
  | finished =>
    cases descend with
    | true => exact h.generic hself _ _
    | false => exact h.pure _

protected theorem siblings (kind : NodeKind) : P (siblings self kind) := by
  unfold Walk.siblings
  split
  · exact hself _
  · exact h.pure _

protected theorem goOn (id : NodeId) (answer : Visit) : P (goOn self id answer) := by
  unfold Walk.goOn
  cases answer.found with
  | some found => exact h.pure _
  | none =>
    refine h.bind (h.query _) fun kind => ?_
    split
    · exact h.children hself kind id
    · exact h.siblings hself kind

protected theorem step (id : NodeId) : P (step v self id) := by
  refine h.bind (h.query _) fun span => h.nested ?_
  rw [node_eq]
  refine h.bind (h.arrive id) fun arrived => ?_
  split
  · exact h.bind (h.visit id) (h.goOn hself id)
  · exact h.pure _

end Self

protected theorem within (levels : Nat) (id : NodeId) : P (within v levels id) := by
  induction levels generalizing id with
  | zero => exact h.step (fun _ => h.throw _) id
  | succ levels ih => exact h.step ih id

protected theorem walkTree (id : NodeId) : P (walkTree v id) :=
  h.bind h.get fun s => h.within (levels s.context.nesting) id

protected theorem walkLanguage (id : NodeId) (descend : Bool) : P (walkLanguage v id descend) :=
  h.bind h.get fun s => h.language (h.within (levels s.context.nesting)) id descend

end Law

/-- A visit is a call of the visitor beside the visited nodes. -/
theorem visit_eq (v : Visitor σ) (id : NodeId) (s : WalkState σ) : visit v id s =
    Action.mapState (fun t => { s with user := t.1, context := t.2 })
      (v id (s.user, s.context)) := by
  obtain ⟨user, visited, context⟩ := s
  simp only [visit]
  cases v id (user, context) <;> rfl

end Walk

end ExprTree
