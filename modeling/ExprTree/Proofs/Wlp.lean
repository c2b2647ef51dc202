import ExprTree.Context
import ExprTree.Arena.Build

/-!
# What returning runs ensure

`Action.wlp p Q s` says that a run of `p` from `s` satisfies `Q` if it returns; a run that ends in
a fault promises nothing.  It is computed along the text of an action, one lemma for each way in
which actions and passes are put together, and an invariant of recursive passes is shown for one
level (`wlp_recursively`).

* `Action.answer?` — the answer of a run.
* `Action.wlp` — the weakest condition under which all returning runs satisfy `Q`.
* `Pass.wlp_nested`, `Pass.wlp_recursively` — the two rules for recursion.
* `Pass.Quiet` — passes that leave the arena as it is.
-/

namespace ExprTree

namespace Action

variable {σ α β : Type} {s : σ}

/-- Every run of `p` from `s` that returns does so with an answer and a state that satisfy `Q`. -/
def wlp (p : Action σ α) (Q : α → σ → Prop) (s : σ) : Prop :=
  ∀ r s', p s = .ok r s' → Q r s'

theorem wlp.mono {p : Action σ α} {P Q : α → σ → Prop} (h : wlp p P s)
    (hPQ : ∀ r s', P r s' → Q r s') : wlp p Q s :=
  fun r s' hr => hPQ r s' (h r s' hr)

theorem wlp.and {P Q : α → σ → Prop} (h : wlp p P s) (h' : wlp p Q s) :
    wlp p (fun r t => P r t ∧ Q r t) s := fun r t hr => ⟨h r t hr, h' r t hr⟩

theorem wlp_forall {ι : Type} {p : Action σ α} {P : ι → Prop} {Q : ι → α → σ → Prop} :
    wlp p (fun r t => ∀ i, P i → Q i r t) s ↔ ∀ i, P i → wlp p (Q i) s :=
  ⟨fun h i hi r t hr => h r t hr i hi, fun h r t hr i hi => h i hi r t hr⟩

/-- The answer of a run that returns. -/
def answer? (p : Action σ α) (s : σ) : Option α :=
  match p s with
  | .ok r _ => some r
  | .error .. => none

/-- The fault in which a run ends. -/
def fault? (p : Action σ α) (s : σ) : Option Fault :=
  match p s with
  | .ok .. => none
  | .error e _ => some e

theorem answer?_eq_some_iff {p : Action σ α} {r : α} :
    p.answer? s = some r ↔ ∃ s', p s = .ok r s' := by
  unfold answer?
  cases p s <;> simp

/-! ### Putting actions together -/

@[simp] theorem wlp_pure {r : α} {Q : α → σ → Prop} :
    wlp (pure r : Action σ α) Q s ↔ Q r s := by
  constructor
  · intro h
    exact h r s rfl
  · rintro h _ _ ⟨⟩
    exact h

theorem bind_eq_ok_iff {p : Action σ α} {f : α → Action σ β} {r : β} {s' : σ} :
    (p >>= f) s = .ok r s' ↔ ∃ x t, p s = .ok x t ∧ f x t = .ok r s' := by
  show EStateM.bind p f s = _ ↔ _
  unfold EStateM.bind
  cases p s with
  | ok x t =>
    simp only [EStateM.Result.ok.injEq]
    constructor
    · intro h
      exact ⟨x, t, ⟨rfl, rfl⟩, h⟩
    · rintro ⟨_, _, ⟨rfl, rfl⟩, h⟩
      exact h
  | error e t => simp

/-- A run and the run that starts where it ends, from their answers. -/
theorem exists_runs {p : Action σ α} {f : α → Action σ β} {r : α} {r' : β}
    (h : p.answer? s = some r) (h' : (p >>= f).answer? s = some r') :
    ∃ t u, p s = .ok r t ∧ f r t = .ok r' u := by
  obtain ⟨t, ht⟩ := answer?_eq_some_iff.1 h
  obtain ⟨u, hboth⟩ := answer?_eq_some_iff.1 h'
  obtain ⟨x, t', ht', hu⟩ := bind_eq_ok_iff.1 hboth
  cases ht.symm.trans ht'
  exact ⟨t, u, ht, hu⟩

@[simp] theorem wlp_bind {p : Action σ α} {f : α → Action σ β} {Q : β → σ → Prop} :
    wlp (p >>= f) Q s ↔ wlp p (fun x t => wlp (f x) Q t) s := by
  simp only [wlp, bind_eq_ok_iff]
  constructor
  · intro h x t hx r s' hr
    exact h r s' ⟨x, t, hx, hr⟩
  · rintro h r s' ⟨x, t, hx, hr⟩
    exact h x t hx r s' hr

@[simp] theorem wlp_map {p : Action σ α} {f : α → β} {Q : β → σ → Prop} :
    wlp (f <$> p) Q s ↔ wlp p (fun x t => Q (f x) t) s := by
  rw [map_eq_pure_bind, wlp_bind]
  simp only [wlp_pure]

@[simp] theorem wlp_throw {e : Fault} {Q : α → σ → Prop} :
    wlp (throw e : Action σ α) Q s := by
  rintro _ _ ⟨⟩

theorem ask_of_error {q : σ → Except Fault α} {e : Fault} (h : q s = .error e) :
    ask q s = .error e s := by
  simp only [ask, h]

theorem ask_eq_ok_iff {q : σ → Except Fault α} {r : α} {s' : σ} :
    ask q s = .ok r s' ↔ q s = .ok r ∧ s = s' := by
  unfold ask
  cases q s <;> simp

@[simp] theorem wlp_ask {q : σ → Except Fault α} {Q : α → σ → Prop} :
    wlp (ask q) Q s ↔ ∀ r, q s = .ok r → Q r s := by
  unfold wlp ask
  cases q s <;> simp

@[simp] theorem wlp_modify {f : σ → σ} {Q : PUnit → σ → Prop} :
    wlp (modify f : Action σ PUnit) Q s ↔ Q ⟨⟩ (f s) := by
  constructor
  · intro h
    exact h ⟨⟩ _ rfl
  · rintro h _ _ ⟨⟩
    exact h

@[simp] theorem wlp_modifyGet {f : σ → α × σ} {Q : α → σ → Prop} :
    wlp (modifyGet f : Action σ α) Q s ↔ Q (f s).1 (f s).2 := by
  constructor
  · intro h
    exact h _ _ rfl
  · rintro h _ _ ⟨⟩
    exact h

@[simp] theorem wlp_get {Q : σ → σ → Prop} : wlp (get : Action σ σ) Q s ↔ Q s s := by
  constructor
  · intro h
    exact h _ _ rfl
  · rintro h _ _ ⟨⟩
    exact h

@[simp] theorem wlp_discard {p : Action σ α} {Q : PUnit → σ → Prop} :
    wlp (discard p) Q s ↔ wlp p (fun _ t => Q ⟨⟩ t) s :=
  wlp_map

@[simp] theorem wlp_mapM {f : α → Action σ β} {o : Option α} {Q : Option β → σ → Prop} :
    wlp (o.mapM f) Q s ↔
      match o with
      | none => Q none s
      | some x => wlp (f x) (fun r t => Q (some r) t) s := by
  cases o with
  | none => exact wlp_pure
  | some x => exact wlp_map

theorem wlp_forM {I : σ → Prop} {f : α → Action σ PUnit} {xs : List α}
    (h : ∀ x ∈ xs, ∀ t, I t → wlp (f x) (fun _ => I) t) (hs : I s) :
    wlp (xs.forM f) (fun _ => I) s := by
  induction xs generalizing s with
  | nil => exact wlp_pure.2 hs
  | cons x xs ih =>
    show wlp (f x >>= fun _ => xs.forM f) _ s
    rw [wlp_bind]
    refine (h x (by simp) s hs).mono fun _ t ht => ?_
    exact ih (fun y hy => h y (by simp [hy])) ht

end Action

namespace Pass

open ExprTree.Action

variable {α β : Type} {cx : Context}

/-! ### Passes -/

@[simp] theorem wlp_query {q : Arena → Except Fault α} {Q : α → Context → Prop} :
    wlp (query q) Q cx ↔ ∀ r, q cx.arena = .ok r → Q r cx :=
  wlp_ask

theorem edit_eq_ok_iff {c : Action Arena α} {r : α} {cx' : Context} :
    edit c cx = .ok r cx' ↔ ∃ a, c cx.arena = .ok r a ∧ cx' = { cx with arena := a } := by
  obtain ⟨arena, queue, loc, depth, nesting⟩ := cx
  simp only [edit]
  cases c arena with
  | ok x a =>
    constructor
    · rintro ⟨⟩
      exact ⟨a, rfl, rfl⟩
    · rintro ⟨_, ⟨⟩, rfl⟩
      rfl
  | error e a => simp

@[simp] theorem wlp_edit {c : Action Arena α} {Q : α → Context → Prop} :
    wlp (edit c) Q cx ↔ wlp c (fun r a => Q r { cx with arena := a }) cx.arena := by
  simp only [wlp, edit_eq_ok_iff]
  constructor
  · intro h r a hr
    exact h r _ ⟨a, hr, rfl⟩
  · rintro h r _ ⟨a, hr, rfl⟩
    exact h r a hr

@[simp] theorem wlp_when {asked : Bool} {p : Pass Unit} {Q : Unit → Context → Prop} :
    wlp (Pass.when asked p) Q cx ↔ if asked then wlp p Q cx else Q () cx := by
  unfold Pass.when
  split <;> simp

@[simp] theorem wlp_location {expr : NodeId} {Q : Span → Context → Prop} :
    wlp (location expr) Q cx ↔
      ∀ loc, cx.arena.locationOf expr cx.inputLocation = .ok loc → Q loc cx :=
  wlp_ask

/-! ### Levels -/

@[simp] theorem wlp_enter {span : Span} {Q : Bool → Context → Prop} :
    wlp (enter span) Q cx ↔
      (∀ inner, cx.nesting.enter = .ok inner → Q true { cx with nesting := inner }) ∧
      (∀ e, cx.nesting.enter = .error e →
        Q false (cx.reportError (.tooDeeplyNested (span.orElse cx.inputLocation) e.limit))) := by
  unfold wlp enter
  cases cx.nesting.enter with
  | ok inner => simp
  | error e => simp

@[simp] theorem wlp_leave {Q : Unit → Context → Prop} :
    wlp leave Q cx ↔
      ∀ outer, cx.nesting.leave = .ok outer → Q () { cx with nesting := outer } := by
  unfold wlp leave
  cases cx.nesting.leave with
  | ok outer =>
    exact ⟨fun h o ho => by cases ho; exact h () _ rfl,
      fun h _ _ hr => by cases hr; exact h outer rfl⟩
  | error e => simp

@[simp] theorem wlp_leaveUnevaluated {Q : Unit → Context → Prop} :
    wlp leaveUnevaluated Q cx ↔ (cx.unevaluatedDepth ≠ 0 →
      Q () { cx with unevaluatedDepth := cx.unevaluatedDepth - 1 }) := by
  unfold wlp leaveUnevaluated
  split <;> rename_i hdepth
  · simp [hdepth]
  · exact ⟨fun hQ _ => hQ () _ rfl, fun hQ _ _ hr => by cases hr; exact hQ hdepth⟩

theorem nested_eq (span : Span) (overflow : α) (body : Pass α) :
    nested span overflow body = (do
      if ← enter span then
        let r ← body
        leave
        return r
      else return overflow) :=
  rfl

/-- A part runs a level deeper, which is left behind it, or is refused with a report. -/
theorem wlp_level {span : Span} {overflow : α} {body : Pass α} {Q : α → Context → Prop}
    (hbody : ∀ inner, cx.nesting.enter = .ok inner → wlp body
      (fun r t => ∀ outer, t.nesting.leave = .ok outer → Q r { t with nesting := outer })
      { cx with nesting := inner })
    (hrefused : ∀ e, cx.nesting.enter = .error e → Q overflow
      (cx.reportError (.tooDeeplyNested (span.orElse cx.inputLocation) e.limit))) :
    wlp (nested span overflow body) Q cx := by
  rw [nested_eq, wlp_bind, wlp_enter]
  refine ⟨fun inner hinner => ?_, fun e he => wlp_pure.2 (hrefused e he)⟩
  rw [if_pos rfl, wlp_bind]
  refine (hbody inner hinner).mono fun r t hr => ?_
  rw [wlp_bind, wlp_leave]
  exact fun outer houter => wlp_pure.2 (hr outer houter)

/-- What holds of the arena after the part that runs a level deeper holds after the level, when it
also holds of the arena as it is where the level is refused. -/
theorem wlp_nested {span : Span} {overflow : α} {body : Pass α} {Q : α → Arena → Prop}
    (hbody : ∀ inner, wlp body (fun r t => Q r t.arena) { cx with nesting := inner })
    (hover : Q overflow cx.arena) :
    wlp (nested span overflow body) (fun r t => Q r t.arena) cx :=
  wlp_level (fun inner _ => (hbody inner).mono fun _ _ hr _ _ => hr) fun _ _ => hover

/-- A recursive pass satisfies what one of its levels satisfies when the calls do. -/
theorem wlp_recursively {step : (α → Pass β) → α → Pass β} {Q : Context → α → β → Context → Prop}
    (h : ∀ self, (∀ x cx, wlp (self x) (Q cx x) cx) → ∀ x cx, wlp (step self x) (Q cx x) cx)
    (x : α) (cx : Context) : wlp (recursively step x) (Q cx x) cx := by
  have level : ∀ room x cx, wlp (unroll step room x) (Q cx x) cx := by
    intro room
    induction room with
    | zero => exact h _ fun _ _ => wlp_throw
    | succ room ih => exact h _ ih
  exact level cx.nesting.room x cx

/-- The same where every level starts under a condition. -/
theorem wlp_recursively_of {step : (α → Pass β) → α → Pass β} {P : Context → α → Prop}
    {Q : Context → α → β → Context → Prop}
    (h : ∀ self, (∀ x cx, P cx x → wlp (self x) (Q cx x) cx) →
      ∀ x cx, P cx x → wlp (step self x) (Q cx x) cx)
    {x : α} {cx : Context} (hP : P cx x) : wlp (recursively step x) (Q cx x) cx := by
  have level := wlp_recursively (Q := fun cx x r t => P cx x → Q cx x r t)
    (fun self hself x cx r t hr hP =>
      h self (fun x cx hP r t hr => hself x cx r t hr hP) x cx hP r t hr) x cx
  exact fun r t hr => level r t hr hP

/-- The same where the calls also keep a relation between contexts that all levels keep. -/
theorem wlp_recursively_keeping {step : (α → Pass β) → α → Pass β} {K : Context → Context → Prop}
    {P : Context → α → Prop} {Q : Context → α → β → Context → Prop}
    (hkeeps : ∀ self, (∀ x cx, wlp (self x) (fun _ t => K cx t) cx) →
      ∀ x cx, wlp (step self x) (fun _ t => K cx t) cx)
    (hstep : ∀ self, (∀ x cx, P cx x → wlp (self x) (fun r t => K cx t ∧ Q cx x r t) cx) →
      ∀ x cx, P cx x → wlp (step self x) (Q cx x) cx) {x : α} {cx : Context} (hP : P cx x) :
    wlp (recursively step x) (fun r t => K cx t ∧ Q cx x r t) cx := by
  refine (wlp_recursively (Q := fun cx x r t => K cx t ∧ (P cx x → Q cx x r t))
    (fun self hself x cx r t hrun => ?_) x cx).mono fun _ _ hr => ⟨hr.1, hr.2 hP⟩
  refine ⟨hkeeps self (fun x cx => (hself x cx).mono fun _ _ => And.left) x cx r t hrun,
    fun hP => hstep self (fun x cx hP => ?_) x cx hP r t hrun⟩
  exact (hself x cx).mono fun _ _ hr => ⟨hr.1, hr.2 hP⟩

/-- What one level does, whatever the levels below it do. -/
theorem wlp_recursively_of_step {step : (α → Pass β) → α → Pass β} {Q : β → Context → Prop}
    {x : α} {cx : Context} (h : ∀ self, wlp (step self x) Q cx) :
    wlp (recursively step x) Q cx := by
  show wlp (unroll step cx.nesting.room x) Q cx
  cases cx.nesting.room with
  | zero => exact h _
  | succ room => exact h _

/-! ### Passes that only report -/

/-- A pass that changes nothing but the queue. -/
def Quiet (p : Pass α) : Prop := ∀ cx, wlp p (fun _ t => t = { cx with queue := t.queue }) cx

theorem Quiet.wlp {p : Pass α} (hp : Quiet p) {Q : α → Context → Prop}
    (h : ∀ r queue, Q r { cx with queue := queue }) : wlp p Q cx := by
  intro r t hr
  rw [hp cx r t hr]
  exact h r t.queue

theorem quiet_pure {r : α} : Quiet (pure r : Pass α) := fun _ => wlp_pure.2 rfl

theorem quiet_query {q : Arena → Except Fault α} : Quiet (query q) :=
  fun _ => wlp_query.2 fun _ _ => rfl

theorem quiet_warn {code : Code} {span : Span} {message : String} :
    Quiet (warn code span message) := by
  rintro cx _ _ ⟨⟩
  rfl

theorem quiet_note {span : Span} {message : String} : Quiet (note span message) := by
  rintro cx _ _ ⟨⟩
  rfl

theorem Quiet.bind {p : Pass α} {f : α → Pass β} (hp : Quiet p) (hf : ∀ r, Quiet (f r)) :
    Quiet (p >>= f) := by
  intro cx
  rw [wlp_bind]
  exact hp.wlp fun r queue => (hf r).wlp fun _ _ => rfl

theorem Quiet.when {p : Pass Unit} (hp : Quiet p) {asked : Bool} : Quiet (Pass.when asked p) := by
  unfold Pass.when
  split
  · exact hp
  · exact quiet_pure

end Pass

end ExprTree
