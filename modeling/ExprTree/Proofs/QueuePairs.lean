import ExprTree.Proofs.Appends

/-!
# Contexts with two queues

No pass looks at the queue that it reports to.  In two contexts that differ in their queues alone
it does the same in lockstep, in a fault or not, and whatever relates the queues, and still does
after an error has been reported to both, relates them in the end.

* `Context.WithQueues` — contexts that differ in their queues alone.
* `Pass.withQueues_twins` — uses of expressions in two such contexts.
* `Pass.reported`, `Pass.exists_run_reported` — all that a pass reports.
-/

namespace ExprTree

/-- Two contexts that differ in their queues alone, which are related by `S`. -/
def Context.WithQueues (S : Queue → Queue → Prop) (cx cx' : Context) : Prop :=
  ∃ queue, cx' = { cx with queue } ∧ S cx.queue queue

namespace Pass

open ExprTree.Action

variable {α : Type} {S : Queue → Queue → Prop}

theorem withQueues_ask {q : Context → Except Fault α}
    (hq : ∀ (cx : Context) (queue : Queue), q { cx with queue } = q cx) :
    Parallel (Context.WithQueues S) (Action.ask q) (Action.ask q) := by
  rintro cx _ ⟨queue, rfl, h⟩
  unfold Action.ask
  rw [hq cx queue]
  cases q cx with
  | ok r => exact .ok ⟨queue, rfl, h⟩
  | error e => exact .error ⟨queue, rfl, h⟩

theorem withQueues_edit (change : Action Arena α) :
    Parallel (Context.WithQueues S) (edit change) (edit change) := by
  rintro cx _ ⟨queue, rfl, h⟩
  rw [edit_eq_mapState, edit_eq_mapState]
  cases change cx.arena with
  | ok r a => exact .ok ⟨queue, rfl, h⟩
  | error e a => exact .error ⟨queue, rfl, h⟩

theorem withQueues_leave : Parallel (Context.WithQueues S) leave leave := by
  rintro cx _ ⟨queue, rfl, h⟩
  unfold leave
  cases cx.nesting.leave with
  | ok outer => exact .ok ⟨queue, rfl, h⟩
  | error e => exact .error ⟨queue, rfl, h⟩

variable (hS : ∀ {q p : Queue} (d : Diagnostic), S q p → S (q.offerError d).2 (p.offerError d).2)
include hS

theorem withQueues_enter (span : Span) :
    Parallel (Context.WithQueues S) (enter span) (enter span) := by
  rintro cx _ ⟨queue, rfl, h⟩
  cases hroom : cx.nesting.enter with
  | ok inner =>
    have hroom' : ({ cx with queue } : Context).nesting.enter = .ok inner := hroom
    rw [enter_of_ok hroom, enter_of_ok hroom']
    exact .ok ⟨queue, rfl, h⟩
  | error e =>
    have hroom' : ({ cx with queue } : Context).nesting.enter = .error e := hroom
    rw [enter_of_error hroom, enter_of_error hroom']
    exact .ok ⟨_, rfl, hS _ h⟩

theorem withQueues_twins : Twins (Parallel (Context.WithQueues S)) where
  ask hq := withQueues_ask fun cx queue => hq _ _ ⟨rfl, rfl, rfl⟩
  bind := Parallel.bind
  edit _ := withQueues_edit _
  nested hp := by
    rw [nested_eq, nested_eq]
    refine (withQueues_enter hS _).bind fun entered => ?_
    split
    · exact hp.bind fun r => withQueues_leave.bind fun _ => parallel_pure
    · exact parallel_pure

theorem withQueues_rejectBuiltin (expr : NodeId) (loc : Span) :
    Parallel (Context.WithQueues S) (rejectBuiltin expr loc) (rejectBuiltin expr loc) := by
  refine (withQueues_ask fun _ _ => rfl).bind fun target =>
    (withQueues_ask fun _ _ => rfl).bind fun name => (withQueues_ask fun _ _ => rfl).bind
      fun span => Parallel.bind ?_ fun _ => parallel_pure
  rintro cx _ ⟨queue, rfl, h⟩
  exact .ok ⟨_, rfl, hS _ h⟩

theorem withQueues_classifyUse (expr : NodeId) (mode : UseMode) :
    Parallel (Context.WithQueues S) (classifyUse expr mode) (classifyUse expr mode) :=
  (withQueues_twins hS).classifyUse fun _ => withQueues_rejectBuiltin hS

omit hS

/-- All that a pass reports, wherever it is kept. -/
def reported (p : Pass α) (cx : Context) : List Diagnostic :=
  (p.last { cx with queue := .fresh .unlimited }).queue.diagnostics.toList

/-- A use does the same where all reports are kept. -/
theorem exists_run_reported {expr r : NodeId} {mode : UseMode} {cx t : Context}
    (hrun : classifyUse expr mode cx = .ok r t) :
    ∃ u, classifyUse expr mode { cx with queue := .fresh .unlimited } = .ok r u ∧
      u.arena = t.arena ∧ u.queue.diagnostics.toList = (classifyUse expr mode).reported cx := by
  have halike := withQueues_classifyUse (S := fun _ _ => True) (fun _ _ => trivial) expr mode
    ⟨.fresh .unlimited, rfl, trivial⟩ (s := cx)
  rw [hrun] at halike
  obtain ⟨u, hu, queue, rfl, -⟩ := halike.eq_ok
  exact ⟨_, hu, rfl, by rw [reported, last_eq_of_ok hu]⟩

end Pass

end ExprTree
