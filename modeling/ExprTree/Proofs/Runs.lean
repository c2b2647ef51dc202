import ExprTree.Proofs.Wlp

/-!
# Runs that return, and runs side by side

A statement about a run that returns says nothing about a run that ends in a fault.  Here are the
two notions that do: a run that returns with certain, and two runs that end alike, in a fault or
not.

* `Action.Returns` — a run returns, with an answer and a state that satisfy a condition.
* `Action.Faultless` — a run returns.
* `Pass.returns_level`, `Pass.returns_nested` — the rules for one level of recursion.
* `Action.last` — the state in which a run ends.
* `Action.Parallel` — two actions that end alike, on different states.
-/

namespace ExprTree

namespace Action

variable {σ τ α β : Type} {s : σ}

theorem bind_eq_of_ok {p : Action σ α} {f : α → Action σ β} {x : α} {t : σ} (h : p s = .ok x t) :
    (p >>= f) s = f x t := by
  show EStateM.bind p f s = _
  unfold EStateM.bind
  rw [h]

theorem bind_eq_of_error {p : Action σ α} {f : α → Action σ β} {e : Fault} {t : σ}
    (h : p s = .error e t) : (p >>= f) s = .error e t := by
  show EStateM.bind p f s = _
  unfold EStateM.bind
  rw [h]

/-- The run of `p` from `s` returns, with an answer and a state that satisfy `Q`. -/
def Returns (p : Action σ α) (Q : α → σ → Prop) (s : σ) : Prop :=
  ∃ r s', p s = .ok r s' ∧ Q r s'

/-- The run of `p` from `s` ends in no fault. -/
abbrev Faultless (p : Action σ α) (s : σ) : Prop := Returns p (fun _ _ => True) s

theorem Returns.mono {p : Action σ α} {P Q : α → σ → Prop} (h : Returns p P s)
    (hPQ : ∀ r t, P r t → Q r t) : Returns p Q s := by
  obtain ⟨r, t, hrun, hr⟩ := h
  exact ⟨r, t, hrun, hPQ r t hr⟩

theorem returns_pure {r : α} {Q : α → σ → Prop} (h : Q r s) : Returns (pure r) Q s :=
  ⟨r, s, rfl, h⟩

theorem returns_bind {p : Action σ α} {f : α → Action σ β} {Q : β → σ → Prop}
    (h : Returns p (fun x t => Returns (f x) Q t) s) : Returns (p >>= f) Q s := by
  obtain ⟨x, t, hx, r, u, hr, hQ⟩ := h
  exact ⟨r, u, bind_eq_ok_iff.2 ⟨x, t, hx, hr⟩, hQ⟩

/-- A question that has an answer. -/
theorem returns_ask {q : σ → Except Fault α} {r : α} {f : α → Action σ β} {Q : β → σ → Prop}
    (hr : q s = .ok r) (h : Returns (f r) Q s) : Returns (ask q >>= f) Q s :=
  returns_bind ⟨r, s, ask_eq_ok_iff.2 ⟨hr, rfl⟩, h⟩

/-- A run that returns satisfies what all returning runs satisfy. -/
theorem Returns.of_wlp {p : Action σ α} {P Q : α → σ → Prop} (h : Returns p P s)
    (hQ : wlp p Q s) : Returns p Q s := by
  obtain ⟨r, t, hrun, -⟩ := h
  exact ⟨r, t, hrun, hQ r t hrun⟩

theorem returns_map {p : Action σ α} {f : α → β} {Q : β → σ → Prop}
    (h : Returns p (fun x t => Q (f x) t) s) : Returns (f <$> p) Q s := by
  rw [map_eq_pure_bind]
  exact returns_bind (h.mono fun _ _ => returns_pure)

theorem returns_mapM {f : α → Action σ β} {o : Option α} {Q : Option β → σ → Prop}
    (hnone : o = none → Q none s)
    (hsome : ∀ x, o = some x → Returns (f x) (fun r t => Q (some r) t) s) :
    Returns (o.mapM f) Q s := by
  cases o with
  | none => exact returns_pure (hnone rfl)
  | some x => exact returns_map (hsome x rfl)

theorem returns_forM {I : σ → Prop} {f : α → Action σ PUnit} {xs : List α}
    (h : ∀ x ∈ xs, ∀ t, I t → Returns (f x) (fun _ => I) t) (hs : I s) :
    Returns (xs.forM f) (fun _ => I) s := by
  induction xs generalizing s with
  | nil => exact returns_pure hs
  | cons x xs ih =>
    refine returns_bind ((h x (by simp) s hs).mono fun _ t ht => ?_)
    exact ih (fun y hy => h y (by simp [hy])) ht

/-- The state in which a run ends, in a fault or not. -/
def last (p : Action σ α) (s : σ) : σ :=
  match p s with
  | .ok _ t | .error _ t => t

theorem last_eq_of_ok {p : Action σ α} {r : α} {t : σ} (h : p s = .ok r t) : p.last s = t := by
  unfold last
  rw [h]

theorem last_eq_of_error {p : Action σ α} {e : Fault} {t : σ} (h : p s = .error e t) :
    p.last s = t := by
  unfold last
  rw [h]

theorem last_ask {question : σ → Except Fault α} : (ask question).last s = s := by
  unfold last ask
  cases question s <;> rfl

theorem last_bind {p : Action σ α} {f : α → Action σ β} :
    (p >>= f).last s = match p s with
      | .ok r t => (f r).last t
      | .error _ t => t := by
  show last (EStateM.bind p f) s = _
  unfold last EStateM.bind
  cases p s <;> rfl

/-- The last part runs whether the first ends in a fault or not. -/
theorem tryFinally_eq (p : Action σ α) (q : Action σ Unit) (s : σ) : tryFinally p q s =
    match p s with
    | .ok r t => (do q; return r : Action σ α) t
    | .error e t => (do q; throw e : Action σ α) t := by
  show EStateM.map Prod.fst (tryFinally' p fun _ => q) s = _
  simp only [EStateM.map, tryFinally']
  cases p s with
  | ok r t =>
    show _ = EStateM.bind _ _ t
    simp only [EStateM.bind]
    cases q t <;> rfl
  | error e t =>
    show _ = EStateM.bind _ _ t
    simp only [EStateM.bind]
    cases q t <;> rfl

theorem last_tryFinally {p : Action σ α} {q : Action σ Unit} :
    (tryFinally p q).last s = q.last (p.last s) := by
  unfold last
  rw [tryFinally_eq]
  cases p s with
  | ok r t =>
    show last (q >>= fun _ => pure r) t = q.last t
    rw [last_bind]
    unfold last
    cases q t <;> rfl
  | error e t =>
    show last (q >>= fun _ => throw e) t = q.last t
    rw [last_bind]
    unfold last
    cases q t <;> rfl

theorem wlp_tryFinally {p : Action σ α} {q : Action σ Unit} {Q : α → σ → Prop}
    (h : wlp p (fun r t => wlp q (fun _ u => Q r u) t) s) : wlp (tryFinally p q) Q s := by
  intro r u hr
  rw [tryFinally_eq] at hr
  cases hp : p s with
  | ok x t =>
    rw [hp] at hr
    obtain ⟨⟨⟩, w, hq, ⟨⟩⟩ := bind_eq_ok_iff.1 hr
    exact h r t hp ⟨⟩ u hq
  | error e t =>
    rw [hp] at hr
    obtain ⟨_, _, _, ⟨⟩⟩ := bind_eq_ok_iff.1 hr

/-- Go on after a result: with `k` after an answer, with `recover` after a fault. -/
def resume (k : α → Action σ β) (recover : Fault → Action σ β) :
    EStateM.Result Fault σ α → EStateM.Result Fault σ β
  | .ok r t => k r t
  | .error e t => recover e t

theorem bind_eq_resume (p : Action σ α) (k : α → Action σ β) (s : σ) :
    (p >>= k) s = resume k throw (p s) := by
  show EStateM.bind p k s = _
  unfold EStateM.bind
  cases p s <;> rfl

theorem tryFinally_eq_resume (p : Action σ α) (q : Action σ Unit) (s : σ) : tryFinally p q s =
    resume (fun r => do q; return r) (fun e => do q; throw e) (p s) := by
  rw [tryFinally_eq]
  cases p s <;> rfl

/-- The image of the state in which a run ends. -/
def mapState (f : σ → τ) : EStateM.Result Fault σ α → EStateM.Result Fault τ α
  | .ok r s => .ok r (f s)
  | .error e s => .error e (f s)

theorem last_eq_of_mapState {p : Action σ α} {q : Action τ α} {g : σ → τ} {t : τ}
    (h : q t = mapState g (p s)) : q.last t = g (p.last s) := by
  unfold last
  rw [h]
  cases p s <;> rfl

/-- Two runs end alike: with the same answer or fault, and in related states. -/
inductive Alike (E : σ → τ → Prop) : EStateM.Result Fault σ α → EStateM.Result Fault τ α → Prop
  | ok {r : α} {s : σ} {t : τ} (h : E s t) : Alike E (.ok r s) (.ok r t)
  | error {e : Fault} {s : σ} {t : τ} (h : E s t) : Alike E (.error e s) (.error e t)

/-- Two actions that run alike from related states. -/
def Parallel (E : σ → τ → Prop) (p : Action σ α) (q : Action τ α) : Prop :=
  ∀ ⦃s t⦄, E s t → Alike E (p s) (q t)

section Parallel

variable {E : σ → τ → Prop}

theorem parallel_pure {r : α} : Parallel E (pure r) (pure r) := fun _ _ h => .ok h

theorem parallel_throw {e : Fault} : Parallel E (throw e : Action σ α) (throw e) :=
  fun _ _ h => .error h

theorem Parallel.last {p : Action σ α} {q : Action τ α} {s : σ} {t : τ} (h : Parallel E p q)
    (hst : E s t) : E (p.last s) (q.last t) := by
  have halike := h hst
  unfold Action.last
  generalize p s = r, q t = r' at halike
  cases halike with
  | ok h => exact h
  | error h => exact h

theorem Alike.bind {p : Action σ α} {q : Action τ α} {f : α → Action σ β} {g : α → Action τ β}
    {s : σ} {t : τ} (h : Alike E (p s) (q t)) (hf : ∀ x, Parallel E (f x) (g x)) :
    Alike E ((p >>= f) s) ((q >>= g) t) := by
  show Alike E (EStateM.bind p f s) (EStateM.bind q g t)
  unfold EStateM.bind
  generalize p s = r, q t = r' at h
  cases h with
  | ok h => exact hf _ h
  | error h => exact .error h

theorem Alike.eq_ok {r : α} {s : σ} {result : EStateM.Result Fault τ α}
    (h : Alike E (.ok r s) result) : ∃ t, result = .ok r t ∧ E s t := by
  cases h with
  | ok h => exact ⟨_, rfl, h⟩

theorem Alike.last {p : Action σ α} {q : Action τ α} {s : σ} {t : τ} (h : Alike E (p s) (q t)) :
    E (p.last s) (q.last t) := by
  unfold Action.last
  generalize p s = r, q t = r' at h
  cases h with
  | ok h | error h => exact h

theorem Parallel.bind {p : Action σ α} {q : Action τ α} {f : α → Action σ β} {g : α → Action τ β}
    (h : Parallel E p q) (hf : ∀ x, Parallel E (f x) (g x)) : Parallel E (p >>= f) (q >>= g) :=
  fun _ _ hst => (h hst).bind hf

theorem Parallel.tryFinally {p : Action σ α} {q : Action τ α} {f : Action σ Unit}
    {g : Action τ Unit} (h : Parallel E p q) (hf : Parallel E f g) :
    Parallel E (tryFinally p f) (tryFinally q g) := by
  intro s t hst
  have hpq := h hst
  rw [tryFinally_eq, tryFinally_eq]
  generalize p s = r, q t = r' at hpq
  cases hpq with
  | ok h => exact hf.bind (fun _ => parallel_pure) h
  | error h => exact hf.bind (fun _ => parallel_throw) h

end Parallel

end Action

namespace Pass

open ExprTree.Action

variable {α β : Type} {cx : Context}

theorem returns_query {q : Arena → Except Fault α} {r : α} {Q : α → Context → Prop}
    (hr : q cx.arena = .ok r) (h : Q r cx) : Returns (query q) Q cx :=
  ⟨r, cx, ask_eq_ok_iff.2 ⟨hr, rfl⟩, h⟩

theorem returns_edit {c : Action Arena α} {Q : α → Context → Prop}
    (h : Returns c (fun r a => Q r { cx with arena := a }) cx.arena) : Returns (edit c) Q cx := by
  obtain ⟨r, a, hr, hQ⟩ := h
  exact ⟨r, _, edit_eq_ok_iff.2 ⟨a, hr, rfl⟩, hQ⟩

theorem returns_when {asked : Bool} {p : Pass Unit} {Q : Unit → Context → Prop}
    (h : Returns p Q cx) (hQ : Q () cx) : Returns (Pass.when asked p) Q cx := by
  unfold Pass.when
  split
  · exact h
  · exact returns_pure hQ

theorem enter_of_ok {span : Span} {inner : Nesting} (h : cx.nesting.enter = .ok inner) :
    enter span cx = .ok true { cx with nesting := inner } := by
  unfold enter
  rw [h]

theorem enter_of_error {span : Span} {e : NestingExceeded} (h : cx.nesting.enter = .error e) :
    enter span cx = .ok false
      (cx.reportError (.tooDeeplyNested (span.orElse cx.inputLocation) e.limit)) := by
  unfold enter
  rw [h]

theorem leave_of_ok {outer : Nesting} (h : cx.nesting.leave = .ok outer) :
    leave cx = .ok () { cx with nesting := outer } := by
  unfold leave
  rw [h]

theorem leaveUnevaluated_of_ne_zero (h : cx.unevaluatedDepth ≠ 0) :
    leaveUnevaluated cx = .ok () { cx with unevaluatedDepth := cx.unevaluatedDepth - 1 } :=
  if_neg h

theorem leaveUnevaluated_of_eq_zero (h : cx.unevaluatedDepth = 0) :
    leaveUnevaluated cx = .error .overflow cx :=
  if_pos h

/-- A part that runs a level deeper, where it leaves the depth as it was, or is refused with a
report. -/
theorem returns_level {span : Span} {overflow : α} {body : Pass α} {Q : α → Context → Prop}
    (hbody : ∀ inner, cx.nesting.enter = .ok inner → Returns body
      (fun r t => t.nesting = inner ∧ Q r { t with nesting := cx.nesting })
      { cx with nesting := inner })
    (hrefused : ∀ e, cx.nesting.enter = .error e → Q overflow
      (cx.reportError (.tooDeeplyNested (span.orElse cx.inputLocation) e.limit))) :
    Returns (nested span overflow body) Q cx := by
  rw [nested_eq]
  cases hroom : cx.nesting.enter with
  | error e =>
    exact returns_bind ⟨_, _, enter_of_error hroom, returns_pure (hrefused e hroom)⟩
  | ok inner =>
    refine returns_bind ⟨_, _, enter_of_ok hroom, ?_⟩
    refine returns_bind ((hbody inner hroom).mono fun r t ⟨ht, hQ⟩ => ?_)
    have hleave : t.nesting.leave = .ok cx.nesting := ht ▸ Nesting.leave_of_enter hroom
    exact returns_bind ⟨_, _, leave_of_ok hleave, returns_pure hQ⟩

/-- The same where it does not matter what has been reported. -/
theorem returns_nested {span : Span} {overflow : α} {body : Pass α} {Q : α → Context → Prop}
    (hbody : ∀ inner, cx.nesting.enter = .ok inner → Returns body
      (fun r t => t.nesting = inner ∧ Q r { t with nesting := cx.nesting })
      { cx with nesting := inner })
    (hover : ∀ queue, Q overflow { cx with queue := queue }) :
    Returns (nested span overflow body) Q cx :=
  returns_level hbody fun _ _ => hover _

end Pass

end ExprTree
