import ExprTree.Proofs.Rewording
import ExprTree.Proofs.VoidAgreement

/-!
# What a place decides about reports

At a cast unused values and ignored results go unreported, in every part of what is cast.  Volatile
objects that are not accessed are reported there as anywhere else: the same ones in the same order.

* `Diagnostic.accesses` — what a list of diagnostics reports about volatile objects.
* `Context.Beside` — contexts in which the same has been reported about volatile objects.
* `Pass.logs_cast` — what a reduction at a cast reports.
* `Pass.beside_cast` — a reduction at a cast beside one at another place.
* `Pass.toVoid_sites` — the reports of an expression at all its places.
-/

namespace ExprTree

namespace Diagnostic

/-- Does a diagnostic report a volatile object that is not accessed? -/
def isInaccessible (d : Diagnostic) : Bool := d.code.category? == some .inaccessible

/-- What is reported, and where. -/
def key (d : Diagnostic) : Code × Option Span := (d.code, d.primarySpan?)

/-- The reports of volatile objects that are not accessed, in order. -/
def accesses (ds : List Diagnostic) : List (Code × Option Span) :=
  (ds.filter isInaccessible).map key

theorem accesses_append (ds es : List Diagnostic) :
    accesses (ds ++ es) = accesses ds ++ accesses es := by
  simp [accesses]

theorem accesses_of_not_isInaccessible {d : Diagnostic} (h : d.isInaccessible = false)
    (kept : Bool) : accesses (if kept then [d] else []) = [] := by
  cases kept <;> simp [accesses, h]

theorem accesses_singleton {d e : Diagnostic} (h : d.key = e.key) :
    accesses [d] = accesses [e] := by
  have hcode : d.isInaccessible = e.isInaccessible :=
    congrArg (fun key : Code × Option Span => key.1.category? == some .inaccessible) h
  simp only [accesses, List.filter_cons, List.filter_nil, hcode]
  split
  · rw [List.map_singleton, List.map_singleton, h]
  · rfl

/-- A note does not say where a diagnostic is. -/
theorem key_withLabels (d : Diagnostic) (span : Span) (message : String) :
    (d.withLabels [⟨span, message, false⟩]).key = d.key := by
  simp [key, primarySpan?, withLabels]

end Diagnostic

open Diagnostic HasContext

/-- Two contexts that passes cannot tell apart, whose queues keep the same warnings and have been
told the same about volatile objects. -/
structure Context.Beside (cx cx' : Context) : Prop extends Context.Agrees cx cx' where
  config_eq : cx.queue.config = cx'.queue.config
  accesses_eq : accesses (diagnostics cx) = accesses (diagnostics cx')

theorem Context.Beside.refl (cx : Context) : cx.Beside cx := ⟨.refl cx, rfl, rfl⟩

namespace Pass

open ExprTree.Action

variable {α : Type}

/-! ### Passes that say nothing about volatile objects -/

/-- A pass that leaves what is reported about volatile objects, and which warnings are kept. -/
def KeepsAccesses (p : Pass α) : Prop := ∀ cx, (p.last cx).queue.config = cx.queue.config ∧
  accesses (diagnostics (p.last cx)) = accesses (diagnostics cx)

theorem KeepsAccesses.bind {β : Type} {p : Pass α} {f : α → Pass β} (hp : KeepsAccesses p)
    (hf : ∀ r, KeepsAccesses (f r)) : KeepsAccesses (p >>= f) := by
  intro cx
  obtain ⟨hconfig, haccesses⟩ := hp cx
  rw [last_bind]
  cases hrun : p cx with
  | error e t =>
    rw [last_eq_of_error hrun] at hconfig haccesses
    exact ⟨hconfig, haccesses⟩
  | ok r t =>
    rw [last_eq_of_ok hrun] at hconfig haccesses
    exact ⟨(hf r t).1.trans hconfig, (hf r t).2.trans haccesses⟩

/-- A diagnostic about something else is reported, and kept or not. -/
theorem keepsAccesses_of_diagnostics {p : Pass α} {cx : Context} {d : Diagnostic} {kept : Bool}
    (hd : d.isInaccessible = false) (hconfig : (p.last cx).queue.config = cx.queue.config)
    (h : diagnostics (p.last cx) = diagnostics cx ++ if kept then [d] else []) :
    (p.last cx).queue.config = cx.queue.config ∧
      accesses (diagnostics (p.last cx)) = accesses (diagnostics cx) := by
  refine ⟨hconfig, ?_⟩
  rw [h, accesses_append, accesses_of_not_isInaccessible hd, List.append_nil]

theorem keepsAccesses_ask (question : Context → Except Fault α) :
    KeepsAccesses (Action.ask question) := by
  intro cx
  rw [last_ask]
  exact ⟨rfl, rfl⟩

theorem keepsAccesses_explains : Explains (fun code => code.category? ≠ some .inaccessible)
    fun {α} (p _ : Pass α) => KeepsAccesses p where
  ask _ := keepsAccesses_ask _
  bind := KeepsAccesses.bind
  warn {code} hcode span message _ cx := by
    let d := ((Diagnostic.warning code).withMessage message).withLabel span ""
    have hconfig : (cx.queue.offerWarning d).2.config = cx.queue.config := by
      unfold Queue.offerWarning
      split <;> rfl
    exact keepsAccesses_of_diagnostics (d := d) (beq_eq_false_iff_ne.2 hcode) hconfig
      (cx.queue.diagnostics_offerWarning d)
  note span message cx := by
    have hlast : (note span message).last cx =
        { cx with queue := (cx.queue.offerNote span message).2 } := rfl
    rw [hlast]
    refine ⟨(cx.queue.offerNote_keeps span message).2.1.config_eq, ?_⟩
    show accesses (cx.queue.offerNote span message).2.diagnostics.toList = _
    rcases cx.queue.offerNote_cases span message with hdropped | ⟨before, d, hbefore, hnoted⟩
    · rw [hdropped]
      rfl
    · rw [hnoted, accesses_append, accesses_singleton (key_withLabels ..), ← accesses_append,
        ← hbefore]
      rfl

theorem keepsAccesses_enter (span : Span) : KeepsAccesses (enter span) := by
  intro cx
  cases hroom : cx.nesting.enter with
  | ok inner =>
    rw [last_eq_of_ok (enter_of_ok hroom)]
    exact ⟨rfl, rfl⟩
  | error e =>
    let d := tooDeeplyNested (span.orElse cx.inputLocation) e.limit
    have hlast : (enter span).last cx = { cx with queue := (cx.queue.offerError d).2 } :=
      last_eq_of_ok (enter_of_error hroom)
    have hconfig : (cx.queue.offerError d).2.config = cx.queue.config := by
      unfold Queue.offerError
      split <;> rfl
    have hreported : diagnostics ((enter span).last cx) =
        diagnostics cx ++ if (cx.queue.offerError d).1 then [d] else [] := by
      rw [hlast]
      exact cx.queue.diagnostics_offerError d
    exact keepsAccesses_of_diagnostics rfl (hlast ▸ hconfig) hreported

theorem keepsAccesses_leave : KeepsAccesses leave := by
  intro cx
  unfold last leave
  cases cx.nesting.leave <;> exact ⟨rfl, rfl⟩

theorem keepsAccesses_twins : Twins fun {α} (p _ : Pass α) => KeepsAccesses p where
  ask _ := keepsAccesses_ask _
  bind := KeepsAccesses.bind
  edit {_} change _ cx := by
    rw [last_eq_of_mapState (edit_eq_mapState change cx)]
    exact ⟨rfl, rfl⟩
  nested {_ span _ p _} hp := by
    rw [nested_eq]
    refine (keepsAccesses_enter span).bind fun entered => ?_
    split
    · exact hp.bind fun r => keepsAccesses_leave.bind fun _ => keepsAccesses_ask fun _ => .ok r
    · exact keepsAccesses_ask fun _ => .ok _

/-! ### A cast beside another place -/

/-- Passes that agree, and say nothing about volatile objects. -/
theorem beside_of_keepsAccesses {p q : Pass α} (h : Coupled Context.Agrees Eq p q)
    (hp : KeepsAccesses p) (hq : KeepsAccesses q) : Coupled Context.Beside Eq p q := by
  intro cx cx' hcx r t r' t' hr hr'
  obtain ⟨hrr, ht⟩ := h hcx.toAgrees hr hr'
  obtain ⟨hconfig, haccesses⟩ := hp cx
  obtain ⟨hconfig', haccesses'⟩ := hq cx'
  rw [last_eq_of_ok hr] at hconfig haccesses
  rw [last_eq_of_ok hr'] at hconfig' haccesses'
  -- what each pass reports is missing from both sides
  refine ⟨hrr, ht, ?_, ?_⟩
  · rw [hconfig, hconfig', hcx.config_eq]
  · rw [haccesses, haccesses', hcx.accesses_eq]

theorem beside_query {q : Arena → Except Fault α} (hq : ∀ a : Arena, q a.unread = q a) :
    Coupled Context.Beside Eq (query q) (query q) :=
  coupled_ask fun _ _ h => h.arena.eq hq

/-- A question whose answer does not matter. -/
theorem beside_query_any {q : Arena → Except Fault α} :
    Coupled Context.Beside (fun _ _ => True) (query q) (query q) :=
  Action.coupled_ask fun _ _ _ _ _ _ _ => trivial

/-- The words of a warning do not matter. -/
theorem beside_warn {code : Code} {span : Span} {message message' : String} :
    Coupled Context.Beside Eq (discard (warn code span message))
      (discard (warn code span message')) := by
  have hwarn : Coupled Context.Beside (fun _ _ => True) (warn code span message)
      (warn code span message') := by
    rintro cx cx' h _ _ _ _ ⟨⟩ ⟨⟩
    let d (message : String) := ((Diagnostic.warning code).withMessage message).withLabel span ""
    have hstays : ∀ (q : Queue) (message : String),
        (q.offerWarning (d message)).2.config = q.config ∧
        (q.offerWarning (d message)).1 = q.keepsWarning code := by
      intro q message
      unfold Queue.offerWarning
      by_cases hkeeps : q.keepsWarning (d message).code = true
      · rw [if_pos hkeeps]
        exact ⟨rfl, hkeeps.symm⟩
      · rw [if_neg hkeeps]
        exact ⟨rfl, (Bool.eq_false_of_not_eq_true hkeeps).symm⟩
    have hkeeps : cx'.queue.keepsWarning code = cx.queue.keepsWarning code := by
      unfold Queue.keepsWarning Queue.isEnabled
      rw [h.config_eq]
    obtain ⟨hconfig, hkept⟩ := hstays cx.queue message
    obtain ⟨hconfig', hkept'⟩ := hstays cx'.queue message'
    refine ⟨trivial, ⟨h.arena, h.inputLocation, h.nesting⟩, ?_, ?_⟩
    · exact hconfig.trans (h.config_eq.trans hconfig'.symm)
    · show accesses (cx.queue.offerWarning (d message)).2.diagnostics.toList =
        accesses (cx'.queue.offerWarning (d message')).2.diagnostics.toList
      rw [cx.queue.diagnostics_offerWarning, cx'.queue.diagnostics_offerWarning, hkept, hkept',
        hkeeps, accesses_append, accesses_append]
      refine congrArg₂ (· ++ ·) h.accesses_eq ?_
      split
      · exact accesses_singleton rfl
      · rfl
  exact hwarn.map fun _ _ _ => rfl

theorem beside_twins : Twins (Coupled Context.Beside Eq) where
  ask hq := coupled_ask fun _ _ h => hq _ _ h.toAgrees
  bind := Coupled.bind_eq
  edit hc := beside_of_keepsAccesses (coupled_twins.edit hc) (keepsAccesses_twins.edit hc)
    (keepsAccesses_twins.edit hc)
  nested := coupled_nested
    (beside_of_keepsAccesses coupled_enter (keepsAccesses_enter _) (keepsAccesses_enter _))
    (beside_of_keepsAccesses coupled_leave keepsAccesses_leave keepsAccesses_leave) rfl

theorem beside_warnVolatile (s s' : DiscardSite) (loc : Span) (reference : Bool) (type : NodeId) :
    Coupled Context.Beside Eq (warnVolatile s loc reference type)
      (warnVolatile s' loc reference type) := by
  refine beside_query_any.bind fun _ _ _ =>
    (beside_query (·.isComplete_unread type)).bind_eq fun complete => ?_
  split
  · exact beside_warn
  split
  · exact beside_warn
  refine (beside_query (·.isAddressable_unread type)).bind_eq fun addressable => ?_
  split
  · exact beside_warn
  · exact coupled_pure rfl

theorem beside_warnVariable (s s' : DiscardSite) (name : Name) (type : NodeId) (loc : Span) :
    Coupled Context.Beside Eq (warnVariable name type loc s) (warnVariable name type loc s') := by
  refine (beside_query (·.isVolatile_unread type)).bind_eq fun volatile => ?_
  split
  · refine (beside_query (·.isComplete_unread type)).bind_eq fun complete => ?_
    split
    · have hget : Coupled Context.Beside (fun _ _ => True) (get : Pass Context) get := by
        rintro cx cx' h _ _ _ _ ⟨⟩ ⟨⟩
        exact ⟨trivial, h⟩
      exact beside_query_any.bind fun _ _ _ => hget.bind fun _ _ _ => beside_warn
    · exact coupled_pure rfl
  · exact coupled_pure rfl

/-- Reads and warnings about unused values and ignored results are nothing about volatile
objects. -/
theorem beside_twinsAt : TwinsAt (fun s _ => s = .cast) (Coupled Context.Beside Eq) where
  toTwins := beside_twins
  part {s _} hs named place := by simp [hs]
  read {s s'} _ expr := by
    have hread : ∀ s : DiscardSite, KeepsAccesses (Pass.when (s == .cast) (recordRead expr)) :=
      fun s => @Twins.when _ keepsAccesses_twins _ (recordRead expr)
        (keepsAccesses_twins.recordRead expr) (s == .cast)
    exact beside_of_keepsAccesses (coupled_twinsAt.read trivial expr) (hread s) (hread s')
  warnVolatile _ := beside_warnVolatile _ _
  warnUnusedValue {s s'} _ loc reference expr := by
    have hwarn : ∀ s : DiscardSite, KeepsAccesses (warnUnusedValue s loc reference expr) :=
      fun s => keepsAccesses_explains.warnUnusedValue s s (by decide) .rfl loc reference expr
    exact beside_of_keepsAccesses (coupled_twinsAt.warnUnusedValue trivial loc reference expr)
      (hwarn s) (hwarn s')
  warnVariable _ := beside_warnVariable _ _
  warnIgnored {s s'} _ expr := by
    have hwarn : ∀ s : DiscardSite, KeepsAccesses (warnIgnored expr s) :=
      fun s => keepsAccesses_explains.warnIgnored (by decide) (Iff.refl (s = .cast)) expr
    exact beside_of_keepsAccesses (coupled_twinsAt.warnIgnored trivial expr) (hwarn s) (hwarn s')

/-- A reduction at a cast beside one at any place. -/
theorem beside_cast (expr : NodeId) (site : DiscardSite) :
    Coupled Context.Beside Eq (toVoid expr .cast) (toVoid expr site) :=
  beside_twinsAt.toVoid rfl expr

/-! ### What a cast reports -/

/-- A report of a volatile object that is not accessed, or of an expression nested too deeply. -/
def CastReport (d : Diagnostic) : Prop := d.isInaccessible = true ∨ d.code = .tooDeep

theorem logs_twins {Own : Diagnostic → Prop}
    (hdeep : ∀ span limit, Own (.tooDeeplyNested span limit)) :
    Twins fun {α} (p _ : Pass α) => Logs Own p where
  ask _ := logs_ask _
  bind := Logs.bind
  edit _ := logs_edit _
  nested := Logs.nested hdeep

theorem logs_warns : Warns (fun code => code.category? = some .inaccessible)
    fun {α} (p _ : Pass α) => Logs CastReport p where
  ask _ := logs_ask _
  bind := Logs.bind
  warn hcode _ _ _ := logs_warn (.inl (beq_iff_eq.2 hcode))

/-- What is cast on purpose is neither unused nor ignored. -/
theorem logs_castAt :
    TwinsAt (fun s _ => s = .cast) fun {α} (p _ : Pass α) => Logs CastReport p where
  toTwins := logs_twins fun _ _ => .inr rfl
  part {s _} hs named place := by simp [hs]
  read {s _} _ expr := by
    have htwins : Twins fun {α} (p _ : Pass α) => Logs CastReport p :=
      logs_twins fun _ _ => .inr rfl
    exact @Twins.when _ htwins _ (recordRead expr) (htwins.recordRead expr) (s == .cast)
  warnVolatile {s _} _ := logs_warns.warnVolatile s s fun _ h => h
  warnUnusedValue hs loc reference expr := by
    subst hs
    exact (logs_ask fun cx => .ok cx.inUnevaluated).bind fun _ => logs_ask fun _ => .ok ()
  warnVariable {s _} _ := logs_warns.warnVariable s s fun _ h => h
  warnIgnored hs expr := by
    subst hs
    refine (logs_ask _).bind fun call => (logs_ask _).bind fun kind => ?_
    split
    · refine (logs_ask _).bind fun result => ?_
      cases result <;> exact logs_ask fun _ => .ok ()
    · exact logs_ask fun _ => .ok ()

theorem logs_cast (expr : NodeId) : Logs CastReport (toVoid expr .cast) :=
  @TwinsAt.toVoid _ _ logs_castAt .cast .cast rfl expr

/-! ### All places -/

/-- A reduction at any place adds to what has been reported.  At a cast it reports nothing but
volatile objects that are not accessed, unless it is nested too deeply; where it returns, these are
the ones that a reduction at any other place reports, in the same order.  At two named places the
reports differ in their messages alone, in a fault or not.  In a sound arena all these reductions
return.  Neither what the queue keeps nor earlier reports matter. -/
theorem toVoid_sites (cx : Context) (expr : NodeId) :
    (∀ site, diagnostics ((toVoid expr site).last cx) =
      diagnostics cx ++ (toVoid expr site).added cx) ∧
    (∀ d ∈ (toVoid expr .cast).added cx, d.isInaccessible = true ∨ d.code = .tooDeep) ∧
    (∀ site r t r' t', toVoid expr .cast cx = .ok r t → toVoid expr site cx = .ok r' t' →
      accesses ((toVoid expr .cast).added cx) = accesses ((toVoid expr site).added cx) ∧
      ((∀ d ∈ (toVoid expr .cast).added cx, d.code ≠ .tooDeep) →
        ((toVoid expr .cast).added cx).map key = accesses ((toVoid expr site).added cx))) ∧
    (∀ site site', site ≠ .cast → site' ≠ .cast →
      ((toVoid expr site).added cx).map unworded = ((toVoid expr site').added cx).map unworded) ∧
    (cx.arena.Sound → (cx.arena.find? expr).isSome = true →
      ∀ site, ∃ r t, toVoid expr site cx = .ok r t) := by
  have hadds : ∀ site, diagnostics ((toVoid expr site).last cx) =
      diagnostics cx ++ (toVoid expr site).added cx := by
    intro site
    have hlaw : Pass.Law (OnlyAdds fun _ => True) := onlyAdds_law fun _ _ => trivial
    exact (hlaw.toVoid expr site).appends.diagnostics_last cx
  have hcast := (logs_cast expr).added cx
  refine ⟨hadds, hcast, fun site r t r' t' hrun hrun' => ?_, fun site site' hsite hsite' => ?_,
    fun hsound hexpr site => ?_⟩
  · have hsame : accesses ((toVoid expr .cast).added cx) =
        accesses ((toVoid expr site).added cx) := by
      have hends := (beside_cast expr site (.refl cx) hrun hrun').2.accesses_eq
      rw [← last_eq_of_ok hrun, ← last_eq_of_ok hrun', hadds, hadds, accesses_append,
        accesses_append] at hends
      exact List.append_cancel_left hends
    refine ⟨hsame, fun hdeep => ?_⟩
    have hall : ((toVoid expr .cast).added cx).filter isInaccessible =
        (toVoid expr .cast).added cx :=
      List.filter_eq_self.2 fun d hd => (hcast d hd).resolve_right (hdeep d hd)
    rw [← hsame, accesses, hall]
  · obtain ⟨queue, hend, h⟩ :=
      (reworded_toVoid expr (iff_of_false hsite hsite')).last (.refl cx)
    have hends : (diagnostics ((toVoid expr site).last cx)).map unworded =
        (diagnostics ((toVoid expr site').last cx)).map unworded := by
      rw [hend]
      exact h.unworded_eq
    rw [hadds, hadds, List.map_append, List.map_append] at hends
    exact List.append_cancel_left hends
  · obtain ⟨r, t, hrun, -⟩ := toVoid_sound site hsound hexpr
    exact ⟨r, t, hrun⟩

/-- In `q ? *q : *p`, where the object behind `p` is volatile and incomplete, a cast reports that
object alone. -/
theorem toVoid_sites_conditional :
    let a := { Arena.initial with
      nodes := Arena.initial.nodes ++ #[⟨.recordType none none none, none, .single .volatile,
          .unknown⟩,
        ⟨.pointerType ⟨6⟩, none, .empty, .unknown⟩,
        ⟨.pointerType .intType, none, .empty, .unknown⟩,
        ⟨.decl .var (.named ⟨1⟩), some ⟨7⟩, .empty, .unknown⟩,
        ⟨.decl .var (.named ⟨2⟩), some ⟨8⟩, .empty, .unknown⟩,
        ⟨.unary .deref ⟨10⟩, some .intType, .empty, ⟨4, 6⟩⟩,
        ⟨.unary .deref ⟨9⟩, some ⟨6⟩, .empty, ⟨9, 11⟩⟩,
        ⟨.cond ⟨10⟩ (some ⟨11⟩) ⟨12⟩, some .intType, .empty, ⟨0, 11⟩⟩] }
    let cx := Context.ofArena a .standard
    (∃ r t r' t', toVoid ⟨13⟩ .cast cx = .ok r t ∧ toVoid ⟨13⟩ .statement cx = .ok r' t') ∧
      ((toVoid ⟨13⟩ .cast).added cx).map key = [(.incompleteTarget, some ⟨9, 11⟩)] ∧
      ((toVoid ⟨13⟩ .statement).added cx).map key =
        [(.unusedValue, some ⟨4, 6⟩), (.incompleteTarget, some ⟨9, 11⟩)] ∧
      ((toVoid ⟨13⟩ .statement).added cx).map unworded =
        ((toVoid ⟨13⟩ .thirdInFor).added cx).map unworded := by
  intro a cx
  have hclosed : a.Closed := by decide +kernel
  have hsound : a.Sound := hclosed.sound (by decide +kernel)
  obtain ⟨-, -, hcast, hnamed, hreturns⟩ := toVoid_sites cx ⟨13⟩
  obtain ⟨r, t, hrun⟩ := hreturns hsound (by decide) .cast
  obtain ⟨r', t', hrun'⟩ := hreturns hsound (by decide) .statement
  have hstatement : ((toVoid ⟨13⟩ .statement).added cx).map key =
      [(.unusedValue, some ⟨4, 6⟩), (.incompleteTarget, some ⟨9, 11⟩)] := by decide +kernel
  have hdeep : ∀ d ∈ (toVoid ⟨13⟩ .cast).added cx, d.code ≠ .tooDeep := by decide +kernel
  have haccesses : accesses ((toVoid ⟨13⟩ .statement).added cx) =
      [(.incompleteTarget, some ⟨9, 11⟩)] := by decide +kernel
  exact ⟨⟨r, t, r', t', hrun, hrun'⟩,
    ((hcast .statement r t r' t' hrun hrun').2 hdeep).trans haccesses, hstatement,
    hnamed .statement .thirdInFor (by decide) (by decide)⟩

end Pass

end ExprTree
