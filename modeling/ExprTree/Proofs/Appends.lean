import ExprTree.Proofs.Balance
import ExprTree.Proofs.QueueHistory

/-!
# Reports are only added

No operation on trees touches what has been reported before it.  It adds diagnostics behind them,
and the only ones that it explains by notes are its warnings about ignored results, each in the
part of the run that has reported it.

* `HasContext.diagnostics` — the diagnostics of a state.
* `Action.Appends` — actions that leave the diagnostics before them as they are.
* `Action.added`, `Action.Logs` — the diagnostics that a run adds.
* `Action.Adds` — the same, part by part, and what the notes are on.
* `Pass.Remarks` — passes that report and explain an ignored result at most.
* `Action.adds_operations` — all operations on trees.
-/

namespace ExprTree

namespace Diagnostic

/-- A diagnostic about an ignored result without notes. -/
def IsIgnoredResult (d : Diagnostic) : Prop := d.code = .ignoredResult ∧ d.secondaryLabels = []

theorem withLabels_withLabels (d : Diagnostic) (labels more : List Label) :
    (d.withLabels labels).withLabels more = d.withLabels (labels ++ more) := by
  simp [withLabels]

end Diagnostic

namespace HasContext

variable {σ : Type} [MonadLiftT Pass (Action σ)] [HasContext σ]

/-- The diagnostics of a state in the order in which they were reported. -/
def diagnostics (s : σ) : List Diagnostic := (context s).queue.diagnostics.toList

@[simp] theorem diagnostics_setContext (s : σ) (cx : Context) :
    diagnostics (setContext s cx) = diagnostics cx := by
  rw [diagnostics, context_setContext]
  rfl

theorem diagnostics_context (s : σ) : diagnostics (context s) = diagnostics s := rfl

end HasContext

namespace Queue

theorem diagnostics_offerWarning (q : Queue) (d : Diagnostic) :
    (q.offerWarning d).2.diagnostics.toList =
      q.diagnostics.toList ++ if (q.offerWarning d).1 then [d] else [] := by
  unfold offerWarning
  split <;> simp

theorem diagnostics_offerError (q : Queue) (d : Diagnostic) :
    (q.offerError d).2.diagnostics.toList =
      q.diagnostics.toList ++ if (q.offerError d).1 then [d] else [] := by
  unfold offerError
  split <;> simp

theorem lastAccepted_offerWarning (q : Queue) (d : Diagnostic) :
    (q.offerWarning d).2.lastAccepted = (q.offerWarning d).1 := by
  unfold offerWarning
  split <;> rfl

theorem offerNote_of_refused {q : Queue} (hlast : q.lastAccepted = false) (span : Span)
    (message : String) : q.offerNote span message = (false, q) := by
  simp [offerNote, hlast]

theorem offerNote_of_nil {q : Queue} (hq : q.diagnostics.toList = []) (span : Span)
    (message : String) : q.offerNote span message = (false, q) := by
  have hdiagnostics : q.diagnostics = #[] := Array.toList_inj.1 hq
  simp [offerNote, hdiagnostics]

/-- Where the last report was kept, a note goes to the last diagnostic. -/
theorem diagnostics_offerNote {q : Queue} {before : List Diagnostic} {d : Diagnostic}
    (hlast : q.lastAccepted = true) (hq : q.diagnostics.toList = before ++ [d]) (span : Span)
    (message : String) : (q.offerNote span message).2.lastAccepted = true ∧
      (q.offerNote span message).2.diagnostics.toList =
        before ++ [d.withLabels [⟨span, message, false⟩]] := by
  have hdiagnostics : q.diagnostics = before.toArray.push d := by
    simp [← Array.toList_inj, hq]
  simp [offerNote, hlast, hdiagnostics, Diagnostic.withSecondary, Diagnostic.withLabels]

/-- A note is dropped, or goes to the last diagnostic. -/
theorem offerNote_cases (q : Queue) (span : Span) (message : String) :
    q.offerNote span message = (false, q) ∨ ∃ before d, q.diagnostics.toList = before ++ [d] ∧
      (q.offerNote span message).2.diagnostics.toList =
        before ++ [d.withLabels [⟨span, message, false⟩]] := by
  cases hlast : q.lastAccepted with
  | false => exact .inl (offerNote_of_refused hlast span message)
  | true =>
    rcases List.eq_nil_or_concat q.diagnostics.toList with hnil | ⟨before, d, hbefore⟩
    · exact .inl (offerNote_of_nil hnil span message)
    · rw [List.concat_eq_append] at hbefore
      exact .inr ⟨before, d, hbefore, (diagnostics_offerNote hlast hbefore span message).2⟩

end Queue

namespace Action

open HasContext

/-- An action that leaves what has been reported before it as it is, in a fault or not. -/
def Appends {σ α : Type} [MonadLiftT Pass (Action σ)] [HasContext σ] (p : Action σ α) : Prop :=
  ∀ s, diagnostics s <+: diagnostics (p.last s)

/-- The diagnostics that a run adds to those before it. -/
def added {σ α : Type} [MonadLiftT Pass (Action σ)] [HasContext σ] (p : Action σ α) (s : σ) :
    List Diagnostic := (diagnostics (p.last s)).drop (diagnostics s).length

/-- From each state, an action adds diagnostics that satisfy `Own`, and no others. -/
def Logs {σ α : Type} [MonadLiftT Pass (Action σ)] [HasContext σ] (Own : Diagnostic → Prop)
    (p : Action σ α) : Prop :=
  ∀ s, ∃ ds, (∀ d ∈ ds, Own d) ∧ diagnostics (p.last s) = diagnostics s ++ ds

/-- The run of `p` from `s` adds the diagnostics `ds`.  Each of its parts adds nothing, or adds
what satisfies `Own`, or warns about one ignored result; in the last case the notes that the part
leaves are on its warning. -/
inductive Adds (Own : Diagnostic → Prop) : {σ α : Type} → [MonadLiftT Pass (Action σ)] →
    [HasContext σ] → Action σ α → σ → List Diagnostic → Prop
  | own {σ α : Type} [MonadLiftT Pass (Action σ)] [HasContext σ] {p : Action σ α} {s : σ}
    {ds : List Diagnostic} (h : diagnostics (p.last s) = diagnostics s ++ ds)
    (hds : ∀ d ∈ ds, Own d) : Adds Own p s ds
  | ignored {expr : NodeId} {site : DiscardSite} {cx : Context} {d : Diagnostic}
    {notes : List Label} (hd : d.IsIgnoredResult) (hnotes : ∀ l ∈ notes, l.primary = false)
    (h : diagnostics ((Pass.warnIgnored expr site).last cx) =
      diagnostics cx ++ [d.withLabels notes]) :
    Adds Own (Pass.warnIgnored expr site) cx [d.withLabels notes]
  | bind {σ α β : Type} [MonadLiftT Pass (Action σ)] [HasContext σ] {p : Action σ α}
    {f : α → Action σ β} {s t : σ} {r : α} {ds es : List Diagnostic} (hp : Adds Own p s ds)
    (hr : p s = .ok r t) (hf : Adds Own (f r) t es) : Adds Own (p >>= f) s (ds ++ es)
  | fault {σ α β : Type} [MonadLiftT Pass (Action σ)] [HasContext σ] {p : Action σ α}
    {f : α → Action σ β} {s t : σ} {e : Fault} {ds : List Diagnostic} (hp : Adds Own p s ds)
    (he : p s = .error e t) : Adds Own (p >>= f) s ds
  | tryFinally {σ α : Type} [MonadLiftT Pass (Action σ)] [HasContext σ] {p : Action σ α}
    {q : Action σ Unit} {s : σ} {ds es : List Diagnostic} (hp : Adds Own p s ds)
    (hq : Adds Own q (p.last s) es) : Adds Own (tryFinally p q) s (ds ++ es)
  /-- The part of a state on which an action is run has the diagnostics of the whole. -/
  | on {σ τ α : Type} [MonadLiftT Pass (Action σ)] [HasContext σ] [MonadLiftT Pass (Action τ)]
    [HasContext τ] {part : σ → τ} {put : σ → τ → σ} {p : Action τ α} {s : σ}
    {ds : List Diagnostic} (hpart : diagnostics (part s) = diagnostics s)
    (hput : ∀ t, diagnostics (put s t) = diagnostics t) (hp : Adds Own p (part s) ds) :
    Adds Own (on part put p) s ds

/-- From each state, what an action adds satisfies `Own`, or warns about an ignored result. -/
def OnlyAdds {σ α : Type} [MonadLiftT Pass (Action σ)] [HasContext σ] (Own : Diagnostic → Prop)
    (p : Action σ α) : Prop := ∀ s, ∃ ds, Adds Own p s ds

variable {σ τ α β : Type} [MonadLiftT Pass (Action σ)] [HasContext σ] [MonadLiftT Pass (Action τ)]
  [HasContext τ] {Own : Diagnostic → Prop} {p : Action σ α} {f : α → Action σ β} {s : σ}
  {ds : List Diagnostic}

/-! ### What has been added -/

theorem added_eq (h : diagnostics (p.last s) = diagnostics s ++ ds) : p.added s = ds := by
  rw [added, h, List.drop_left]

theorem Appends.diagnostics_last (h : Appends p) (s : σ) :
    diagnostics (p.last s) = diagnostics s ++ p.added s := by
  obtain ⟨ds, hds⟩ := h s
  rw [added_eq hds.symm, hds]

theorem Logs.added (h : Logs Own p) (s : σ) : ∀ d ∈ p.added s, Own d := by
  obtain ⟨ds, hown, hds⟩ := h s
  rwa [added_eq hds]

theorem Logs.onlyAdds (h : Logs Own p) : OnlyAdds Own p := by
  intro s
  obtain ⟨ds, hown, hds⟩ := h s
  exact ⟨ds, .own hds hown⟩

theorem Adds.diagnostics_eq (h : Adds Own p s ds) :
    diagnostics (p.last s) = diagnostics s ++ ds := by
  induction h with
  | own h _ => exact h
  | ignored _ _ h => exact h
  | bind hp hr hf ihp ihf =>
    rw [last_bind, hr]
    rw [last_eq_of_ok hr] at ihp
    rw [← List.append_assoc, ← ihp]
    exact ihf
  | fault hp he ih =>
    rw [last_bind, he]
    rwa [last_eq_of_error he] at ih
  | tryFinally hp hq ihp ihq => rw [last_tryFinally, ihq, ihp, List.append_assoc]
  | on hpart hput hp ih => rw [last_on, hput, ih, hpart]

/-- Only warnings about ignored results are explained, unless others are by themselves. -/
theorem Adds.own_or_ignored (h : Adds Own p s ds) :
    ∀ d ∈ ds, Own d ∨ d.code = .ignoredResult := by
  induction h with
  | own _ hds => exact fun d hd => .inl (hds d hd)
  | ignored hd _ _ => simpa using .inr hd.1
  | bind _ _ _ ihp ihf =>
    intro d hd
    exact (List.mem_append.1 hd).elim (ihp d) (ihf d)
  | fault _ _ ih => exact ih
  | tryFinally _ _ ihp ihq =>
    intro d hd
    exact (List.mem_append.1 hd).elim (ihp d) (ihq d)
  | on _ _ _ ih => exact ih

theorem OnlyAdds.appends (h : OnlyAdds Own p) : Appends p := by
  intro s
  obtain ⟨ds, hds⟩ := h s
  exact ⟨ds, hds.diagnostics_eq.symm⟩

/-! ### Putting actions together -/

theorem logs_of_eq (h : ∀ s, diagnostics (p.last s) = diagnostics s) : Logs Own p :=
  fun s => ⟨[], by simp, by rw [h s, List.append_nil]⟩

theorem logs_ask (question : σ → Except Fault α) : Logs Own (ask question) :=
  logs_of_eq fun s => by rw [last_ask]

theorem onlyAdds_ask (question : σ → Except Fault α) : OnlyAdds Own (ask question) :=
  (logs_ask question).onlyAdds

theorem onlyAdds_pure (r : α) : OnlyAdds Own (pure r : Action σ α) := onlyAdds_ask fun _ => .ok r

theorem Logs.bind (hp : Logs Own p) (hf : ∀ r, Logs Own (f r)) : Logs Own (p >>= f) := by
  intro s
  obtain ⟨ds, hown, hds⟩ := hp s
  rw [last_bind]
  cases hrun : p s with
  | error e t =>
    rw [last_eq_of_error hrun] at hds
    exact ⟨ds, hown, hds⟩
  | ok r t =>
    obtain ⟨es, hown', hes⟩ := hf r t
    rw [last_eq_of_ok hrun] at hds
    refine ⟨ds ++ es, fun d hd => ?_, ?_⟩
    · exact (List.mem_append.1 hd).elim (hown d) (hown' d)
    · rw [← List.append_assoc, ← hds]
      exact hes

theorem OnlyAdds.bind (hp : OnlyAdds Own p) (hf : ∀ r, OnlyAdds Own (f r)) :
    OnlyAdds Own (p >>= f) := by
  intro s
  obtain ⟨ds, hds⟩ := hp s
  cases hrun : p s with
  | ok r t =>
    obtain ⟨es, hes⟩ := hf r t
    exact ⟨ds ++ es, .bind hds hrun hes⟩
  | error e t => exact ⟨ds, .fault hds hrun⟩

theorem OnlyAdds.map (hp : OnlyAdds Own p) (f : α → β) : OnlyAdds Own (f <$> p) := by
  rw [map_eq_pure_bind]
  exact hp.bind fun r => onlyAdds_pure (f r)

theorem OnlyAdds.tryFinally {q : Action σ Unit} (hp : OnlyAdds Own p) (hq : OnlyAdds Own q) :
    OnlyAdds Own (tryFinally p q) := by
  intro s
  obtain ⟨ds, hds⟩ := hp s
  obtain ⟨es, hes⟩ := hq (p.last s)
  exact ⟨ds ++ es, .tryFinally hds hes⟩

theorem OnlyAdds.on {part : σ → τ} {put : σ → τ → σ} {p : Action τ α} (hp : OnlyAdds Own p)
    (hpart : ∀ s, diagnostics (part s) = diagnostics s)
    (hput : ∀ s t, diagnostics (put s t) = diagnostics t) : OnlyAdds Own (on part put p) := by
  intro s
  obtain ⟨ds, hds⟩ := hp (part s)
  exact ⟨ds, .on (hpart s) (hput s) hds⟩

theorem OnlyAdds.lift {p : Pass α} (hp : OnlyAdds Own p) :
    OnlyAdds Own (liftM p : Action σ α) := by
  rw [lift_eq_on]
  exact hp.on diagnostics_context diagnostics_setContext

end Action

namespace Pass

open ExprTree.Action HasContext

variable {α β : Type} {Own : Diagnostic → Prop}

/-! ### Ignored results -/

/-- A pass that at most explains the last diagnostic, where that was kept. -/
def Annotates (p : Pass α) : Prop := ∀ (cx : Context) (before : List Diagnostic) (d : Diagnostic),
  cx.queue.lastAccepted = true → diagnostics cx = before ++ [d] →
    (p.last cx).queue.lastAccepted = true ∧ ∃ notes : List Label,
      (∀ l ∈ notes, l.primary = false) ∧ diagnostics (p.last cx) = before ++ [d.withLabels notes]

theorem Annotates.bind {p : Pass α} {f : α → Pass β} (hp : Annotates p)
    (hf : ∀ r, Annotates (f r)) : Annotates (p >>= f) := by
  intro cx before d hlast hcx
  obtain ⟨hlast, notes, hnotes, hcx⟩ := hp cx before d hlast hcx
  rw [last_bind]
  cases hrun : p cx with
  | error e t =>
    rw [last_eq_of_error hrun] at hlast hcx
    exact ⟨hlast, notes, hnotes, hcx⟩
  | ok r t =>
    rw [last_eq_of_ok hrun] at hlast hcx
    obtain ⟨hlast, more, hmore, hcx⟩ := hf r t before _ hlast hcx
    rw [Diagnostic.withLabels_withLabels] at hcx
    refine ⟨hlast, notes ++ more, fun l hl => ?_, hcx⟩
    exact (List.mem_append.1 hl).elim (hnotes l) (hmore l)

theorem annotates_notes : Notes fun {α} (p _ : Pass α) => Annotates p where
  ask _ cx before d hlast hcx := by
    rw [last_ask]
    exact ⟨hlast, [], by simp, by simpa using hcx⟩
  bind := Annotates.bind
  note span message cx before d hlast hcx := by
    obtain ⟨hlast, hcx⟩ := Queue.diagnostics_offerNote hlast hcx span message
    exact ⟨hlast, [⟨span, message, false⟩], by simp, hcx⟩

/-- A pass that at most reports one ignored result, and explains it by notes. -/
def Remarks (p : Pass α) : Prop := ∀ cx, diagnostics (p.last cx) = diagnostics cx ∨
  ∃ (d : Diagnostic) (notes : List Label), d.IsIgnoredResult ∧
    (∀ l ∈ notes, l.primary = false) ∧
    diagnostics (p.last cx) = diagnostics cx ++ [d.withLabels notes]

theorem remarks_pure (r : α) : Remarks (pure r : Pass α) := fun _ => .inl rfl

theorem remarks_ask {question : Context → Except Fault α} {f : α → Pass β}
    (hf : ∀ r, Remarks (f r)) : Remarks (ask question >>= f) := by
  intro cx
  rw [last_bind]
  cases hrun : ask question cx with
  | error e t =>
    rw [← last_eq_of_error hrun, last_ask]
    exact .inl rfl
  | ok r t =>
    rw [← last_eq_of_ok hrun, last_ask]
    exact hf r cx

theorem Remarks.when {p : Pass Unit} (hp : Remarks p) (asked : Bool) :
    Remarks (Pass.when asked p) := by
  unfold Pass.when
  split
  · exact hp
  · exact remarks_pure ()

/-- What follows a warning that was kept explains it. -/
theorem remarks_warn {p : Pass Unit} (hp : Annotates p) (loc : Span) (message : String) :
    Remarks (warn .ignoredResult loc message >>= fun accepted => Pass.when accepted p) := by
  intro cx
  let d := ((Diagnostic.warning .ignoredResult).withMessage message).withLabel loc ""
  have hkept := cx.queue.lastAccepted_offerWarning d
  have hcx := cx.queue.diagnostics_offerWarning d
  have hrun : (warn .ignoredResult loc message >>= fun accepted => Pass.when accepted p).last cx =
      (Pass.when (cx.queue.offerWarning d).1 p).last
        { cx with queue := (cx.queue.offerWarning d).2 } := last_bind
  rw [hrun]
  -- behind a warning that is not kept there are no notes, so none goes to an earlier diagnostic
  cases hwarn : (cx.queue.offerWarning d).1 with
  | false =>
    rw [hwarn] at hcx
    exact .inl (hcx.trans (List.append_nil _))
  | true =>
    rw [hwarn] at hkept hcx
    obtain ⟨-, notes, hnotes, hlast⟩ :=
      hp { cx with queue := (cx.queue.offerWarning d).2 } _ d hkept hcx
    exact .inr ⟨d, notes, ⟨rfl, rfl⟩, hnotes, hlast⟩

theorem remarks_warnIgnored (expr : NodeId) (site : DiscardSite) :
    Remarks (warnIgnored expr site) := by
  have h := annotates_notes
  refine remarks_ask fun call => remarks_ask fun kind => ?_
  split
  · refine remarks_ask fun result => ?_
    cases result with
    | none => exact remarks_pure ()
    | some result =>
      refine Remarks.when (remarks_ask fun function => remarks_ask fun loc =>
        remarks_ask fun demand => ?_) _
      split
      · exact remarks_ask fun _ => remarks_warn (h.noteAt _ _) loc _
      · exact remarks_ask fun _ =>
          remarks_warn (.bind (h.noteFunction _) fun _ => h.noteType _ _) loc _
      · exact remarks_pure ()
  · exact remarks_pure ()

theorem Remarks.onlyAdds {expr : NodeId} {site : DiscardSite}
    (h : Remarks (warnIgnored expr site)) : OnlyAdds Own (warnIgnored expr site) := by
  intro cx
  rcases h cx with h | ⟨d, notes, hd, hnotes, h⟩
  · exact ⟨[], .own (by rw [h, List.append_nil]) (by simp)⟩
  · exact ⟨_, .ignored hd hnotes h⟩

end Pass

namespace Action

open HasContext

variable {σ α : Type} {Own : Diagnostic → Prop}

/-! ### Passes and walks -/

theorem logs_leave : Logs Own Pass.leave := by
  refine logs_of_eq fun cx => ?_
  unfold last Pass.leave
  cases cx.nesting.leave <;> rfl

theorem logs_edit (change : Action Arena α) : Logs Own (Pass.edit change) := by
  refine logs_of_eq fun cx => ?_
  rw [last_eq_of_mapState (edit_eq_mapState change cx)]
  rfl

/-- One diagnostic is reported, and kept or not. -/
theorem exists_logged [MonadLiftT Pass (Action σ)] [HasContext σ] {p : Action σ α} {s : σ}
    {d : Diagnostic} {kept : Bool} (hd : Own d)
    (h : diagnostics (p.last s) = diagnostics s ++ if kept then [d] else []) :
    ∃ ds, (∀ e ∈ ds, Own e) ∧ diagnostics (p.last s) = diagnostics s ++ ds := by
  refine ⟨_, fun e he => ?_, h⟩
  split at he
  · rw [List.mem_singleton.1 he]
    exact hd
  · cases he

theorem logs_warn {code : Code} {span : Span} {message : String}
    (hd : Own (((Diagnostic.warning code).withMessage message).withLabel span "")) :
    Logs Own (Pass.warn code span message) :=
  fun cx => exists_logged hd (cx.queue.diagnostics_offerWarning _)

theorem logs_error {d : Diagnostic} (hd : Own d) : Logs Own (Pass.error d) :=
  fun cx => exists_logged hd (cx.queue.diagnostics_offerError d)

theorem logs_enter (hdeep : ∀ span limit, Own (.tooDeeplyNested span limit)) (span : Span) :
    Logs Own (Pass.enter span) := by
  intro cx
  cases hroom : cx.nesting.enter with
  | ok inner =>
    -- a level that there is room for is entered silently
    refine ⟨[], by simp, ?_⟩
    rw [last_eq_of_ok (Pass.enter_of_ok hroom), List.append_nil]
    rfl
  | error e =>
    let d := Diagnostic.tooDeeplyNested (span.orElse cx.inputLocation) e.limit
    have hlast : diagnostics ((Pass.enter span).last cx) =
        diagnostics cx ++ if (cx.queue.offerError d).1 then [d] else [] := by
      rw [last_eq_of_ok (Pass.enter_of_error hroom)]
      exact cx.queue.diagnostics_offerError d
    exact exists_logged (hdeep _ _) hlast

theorem Logs.nested (hdeep : ∀ span limit, Own (.tooDeeplyNested span limit)) {span : Span}
    {overflow : α} {body : Pass α} (hbody : Logs Own body) :
    Logs Own (Pass.nested span overflow body) := by
  rw [Pass.nested_eq]
  refine (logs_enter hdeep span).bind fun entered => ?_
  split
  · exact hbody.bind fun r => logs_leave.bind fun _ => logs_ask fun _ => .ok r
  · exact logs_ask fun _ => .ok overflow

theorem OnlyAdds.unevaluated [MonadLiftT Pass (Action σ)] [HasContext σ] {body : Action σ α}
    (hbody : OnlyAdds Own body) : OnlyAdds Own (Pass.unevaluated body) := by
  have henter : Logs Own Pass.enterUnevaluated := logs_of_eq fun _ => rfl
  have hleave : Logs Own Pass.leaveUnevaluated := by
    refine logs_of_eq fun cx => ?_
    unfold last Pass.leaveUnevaluated
    by_cases hdepth : cx.unevaluatedDepth = 0
    · rw [if_pos hdepth]
    · rw [if_neg hdepth]
      rfl
  exact henter.onlyAdds.lift.bind fun _ => hbody.tryFinally hleave.onlyAdds.lift

theorem onlyAdds_arrive (id : NodeId) : OnlyAdds Own (Walk.arrive id : Walk σ Bool) := by
  refine (logs_of_eq fun s => ?_).onlyAdds
  obtain ⟨arrived, visited, h⟩ := Walk.arrive_runs id s.user s.visited
  rw [last_eq_of_ok (h s.context)]
  rfl

theorem onlyAdds_visit {v : Visitor σ} (hv : ∀ id, OnlyAdds Own (v id)) (id : NodeId) :
    OnlyAdds Own (Walk.visit v id) := by
  have hvisit : Walk.visit v id = on (fun s => (s.user, s.context))
      (fun s t => { s with user := t.1, context := t.2 }) (v id) := funext (Walk.visit_eq v id)
  rw [hvisit]
  exact (hv id).on (fun _ => rfl) fun _ _ => rfl

/-- A diagnostic that nothing explains. -/
def Unexplained (d : Diagnostic) : Prop := d.secondaryLabels = []

section Reports

variable (hown : ∀ d, Unexplained d → Own d)
include hown

theorem OnlyAdds.nested [MonadLiftT Pass (Action σ)] [HasContext σ] {span : Span} {overflow : α}
    {body : Action σ α} (hbody : OnlyAdds Own body) :
    OnlyAdds Own (Pass.nested span overflow body) := by
  have henter : Logs Own (Pass.enter span) := logs_enter (fun _ _ => hown _ rfl) span
  refine henter.onlyAdds.lift.bind fun entered => ?_
  split
  · exact hbody.bind fun r => logs_leave.onlyAdds.lift.bind fun _ => onlyAdds_pure r
  · exact onlyAdds_pure overflow

/-- All passes report, and explain nothing but ignored results. -/
theorem onlyAdds_law : Pass.Law (OnlyAdds Own) where
  ask _ := onlyAdds_ask _
  bind := OnlyAdds.bind
  warn _ _ _ _ := (logs_warn (hown _ rfl)).onlyAdds
  edit change := (logs_edit change).onlyAdds
  error span name := (logs_error (hown (.builtinNotCalled span name) rfl)).onlyAdds
  warnIgnored expr site := (Pass.remarks_warnIgnored expr site).onlyAdds
  nested := OnlyAdds.nested hown

/-- A walk adds what the calls of its visitor add, and beside that at most a refusal to go
deeper. -/
theorem onlyAdds_walks {v : Visitor σ} (hv : ∀ id, OnlyAdds Own (v id)) :
    Walk.Law v (OnlyAdds Own) where
  ask := onlyAdds_ask
  bind := OnlyAdds.bind
  nested := OnlyAdds.nested hown
  unevaluated := OnlyAdds.unevaluated
  arrive := onlyAdds_arrive
  visit := onlyAdds_visit hv

end Reports

/-- An action that leaves the diagnostics before it as they are, and behind them adds ones of which
only those about ignored results are explained, each by the part of the run that reports it. -/
def OnlyReports [MonadLiftT Pass (Action σ)] [HasContext σ] (p : Action σ α) : Prop :=
  ∀ s, ∃ ds, Adds Unexplained p s ds ∧ diagnostics (p.last s) = diagnostics s ++ ds ∧
    ∀ d ∈ ds, Unexplained d ∨ d.code = .ignoredResult

theorem onlyReports_iff [MonadLiftT Pass (Action σ)] [HasContext σ] {p : Action σ α} :
    OnlyReports p ↔ OnlyAdds Unexplained p := by
  constructor
  · intro h s
    obtain ⟨ds, hds, -⟩ := h s
    exact ⟨ds, hds⟩
  · intro h s
    obtain ⟨ds, hds⟩ := h s
    exact ⟨ds, hds, hds.diagnostics_eq, hds.own_or_ignored⟩

/-- A diagnostic that a call of a visitor adds. -/
def Contributed (v : Visitor σ) (d : Diagnostic) : Prop :=
  ∃ id s ds, diagnostics ((v id).last s) = diagnostics s ++ ds ∧ d ∈ ds

/-- Whatever has been reported before an operation on trees, and whatever the queue keeps, the
operation leaves it as it is, and explains by notes only its own warnings about ignored results,
where it warns about them.  So does a walk with a visitor of which this is true; and a walk with a
visitor that leaves what has been reported as it is does so too, and explains nothing by itself. -/
theorem adds_operations :
    (∀ (expr : NodeId) (mode : UseMode), OnlyReports (Pass.classifyUse expr mode)) ∧
    (∀ (expr : NodeId) (loc : Span) (reject : Bool),
      OnlyReports (Pass.rvalueUseAt expr loc reject)) ∧
    (∀ expr : NodeId, OnlyReports (Pass.rvalueUse expr)) ∧
    (∀ (expr : NodeId) (read : Bool), OnlyReports (Pass.lvalueUse expr read)) ∧
    (∀ expr : NodeId, OnlyReports (Pass.classifyDiscarded expr)) ∧
    (∀ expr : NodeId, OnlyReports (Pass.recordRead expr)) ∧
    (∀ value : NodeId, OnlyReports (Pass.dereference value)) ∧
    (∀ (expr : NodeId) (site : DiscardSite), OnlyReports (Pass.toVoid expr site)) ∧
    (∀ (expr : NodeId) (site : DiscardSite), OnlyReports (Pass.warnIgnored expr site)) ∧
    (∀ {σ : Type} {v : Visitor σ}, (∀ id, OnlyReports (v id)) → ∀ id,
      OnlyReports (walkTree v id) ∧ ∀ descend, OnlyReports (walkLanguage v id descend)) ∧
    ∀ {σ : Type} {v : Visitor σ}, (∀ id, Appends (v id)) → ∀ id,
      (Appends (walkTree v id) ∧
        OnlyAdds (fun d => Unexplained d ∨ Contributed v d) (walkTree v id)) ∧
      ∀ descend, Appends (walkLanguage v id descend) ∧
        OnlyAdds (fun d => Unexplained d ∨ Contributed v d) (walkLanguage v id descend) := by
  have h : Pass.Law (OnlyAdds Unexplained) := onlyAdds_law fun _ hd => hd
  simp only [onlyReports_iff]
  refine ⟨h.classifyUse, h.rvalueUseAt, h.rvalueUse, h.lvalueUse, h.classifyDiscarded,
    h.recordRead, h.dereference, h.toVoid, h.warnIgnored, fun {σ v} hv id => ?_,
    fun {σ v} hv id => ?_⟩
  · have hwalk := onlyAdds_walks (fun _ hd => hd) hv
    exact ⟨hwalk.walkTree id, hwalk.walkLanguage id⟩
  · have hcall : ∀ id, OnlyAdds (fun d => Unexplained d ∨ Contributed v d) (v id) := by
      intro id s
      obtain ⟨ds, hds⟩ := hv id s
      exact ⟨ds, .own hds.symm fun d hd => .inr ⟨id, s, ds, hds.symm, hd⟩⟩
    have hwalk := onlyAdds_walks (fun _ => .inl) hcall
    exact ⟨⟨(hwalk.walkTree id).appends, hwalk.walkTree id⟩,
      fun descend => ⟨(hwalk.walkLanguage id descend).appends, hwalk.walkLanguage id descend⟩⟩

/-- A visitor that discards the value of each node as a statement. -/
def discarding : Visitor Unit := fun id => do
  discard (liftM (Pass.toVoid id .statement))
  return ⟨none, true⟩

/-- A call of a function whose result must be used, discarded behind a warning that was kept: the
note is on the second warning. -/
theorem adds_operations_nodiscard :
    let a := { Arena.initial with
      nodes := Arena.initial.nodes ++ #[⟨.functionType .intType .empty, none, .empty, .unknown⟩,
        ⟨.decl .func ⟨⟨3⟩, none, none, none⟩, some ⟨6⟩, .empty, ⟨0, 1⟩⟩,
        ⟨.call (some ⟨7⟩) .empty, some .intType, .single .effect, ⟨10, 13⟩⟩]
      attributes := #[(⟨7⟩, ⟨⟨4⟩, []⟩)]
      names := ⟨#["", "int", "size_t", "f", "nodiscard"]⟩ }
    let before := { Context.ofArena a .standard with
      queue := ((Queue.fresh .standard).offerWarning (.warning .unusedValue)).2 }
    ∃ ds t, walkTree discarding ⟨8⟩ ⟨(), none, before⟩ = .ok none t ∧
      diagnostics t = .warning .unusedValue :: ds ∧
      ds.map (fun d => (d.code, d.secondaryLabels.map Label.span)) =
        [(.ignoredResult, [⟨0, 1⟩])] := by
  intro a before
  obtain ⟨-, -, -, -, -, -, -, htoVoid, -, hwalk, -⟩ := adds_operations
  have hdiscarding : ∀ id, OnlyReports (discarding id) := fun id =>
    onlyReports_iff.2 (((onlyReports_iff.1 (htoVoid id .statement)).lift.map _).bind fun _ =>
      onlyAdds_pure _)
  obtain ⟨ds, -, hds, -⟩ := (hwalk hdiscarding ⟨8⟩).1 ⟨(), none, before⟩
  obtain ⟨t, ht⟩ := answer?_eq_some_iff.1 (show (walkTree discarding ⟨8⟩).answer?
    ⟨(), none, before⟩ = some none by decide +kernel)
  rw [last_eq_of_ok ht] at hds
  let key (d : Diagnostic) := (d.code, d.secondaryLabels.map Label.span)
  have hkeys : (diagnostics ((walkTree discarding ⟨8⟩).last ⟨(), none, before⟩)).map key =
      [(.unusedValue, []), (.ignoredResult, [⟨0, 1⟩])] := by decide +kernel
  rw [last_eq_of_ok ht, hds] at hkeys
  exact ⟨ds, t, ht, hds, (List.cons.inj hkeys).2⟩

end Action

end ExprTree
