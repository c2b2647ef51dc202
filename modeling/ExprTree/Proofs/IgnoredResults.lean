import ExprTree.Proofs.Callees
import ExprTree.Proofs.Complaints

/-!
# Exactly which ignored results are reported

A discarded call is reported when its result must be used.  The report names the function where that
is marked, and else the type of the result; its notes say where these are declared.

* `Context.Owes` — a discarded expression has to be reported.
* `Arena.Demanded` — the report, with its notes.
* `Context.Delivers` — the report that is owed has been added, and no other.
* `Pass.warnIgnored_exact` — the report is given where it is owed, and nothing else happens.
* `Pass.not_warnIgnored_dangling` — a run that ends in a fault before its report.
-/

namespace ExprTree

namespace Arena

variable {a : Arena} {callee result : NodeId}

/-! ### Reports -/

/-- The note at the function that a callee names. -/
inductive FunctionNote (a : Arena) (callee : NodeId) : List Label → Prop
  | unresolved (h : ∀ f, ¬ a.Resolves callee f) : FunctionNote a callee []
  | resolved {f : NodeId} {n : Node} {name : String} (hf : a.Resolves callee f)
    (hn : a.find? f = some n) (hname : a.spellDecl f = .ok name) :
    FunctionNote a callee [⟨n.span, s!"in call to `{name}`, declared here", false⟩]

/-- The note at the declaration of a type. -/
inductive TypeNote (a : Arena) (type : NodeId) (spelled : String) : List Label → Prop
  | unnamed (h : a.nameDecl? type = .ok none) : TypeNote a type spelled []
  | named {decl : NodeId} {n : Node} (h : a.nameDecl? type = .ok (some decl))
    (hn : a.find? decl = some n) :
    TypeNote a type spelled [⟨n.span, s!"`{spelled}` declared here", false⟩]

/-- The report of a call at `loc` whose result must be used, with the notes that explain it. -/
inductive Demanded (a : Arena) (loc : Span) (callee result : NodeId) : Diagnostic → Prop
  | function {f : NodeId} {n : Node} {name reason : String} (hf : a.Resolves callee f)
    (hreason : a.nodiscardReason? f = some reason) (hname : a.spellDecl f = .ok name)
    (hn : a.find? f = some n) :
    Demanded a loc callee result ((Pass.warning .ignoredResult loc
      s!"ignoring return value of `{name}`, that must be used{reason}").withLabels
        [⟨n.span, "declared here", false⟩])
  | type {spelled reason : String} {notes notes' : List Label}
    (hfree : ∀ f, a.Resolves callee f → ¬ a.IsNodiscard f)
    (hreason : a.nodiscardReason? result = some reason)
    (hspelled : a.spellType result = .ok spelled) (hnotes : a.FunctionNote callee notes)
    (hnotes' : a.TypeNote result spelled notes') :
    Demanded a loc callee result ((Pass.warning .ignoredResult loc
      s!"ignoring returned value of type `{spelled}`, that must be used{reason}").withLabels
        (notes ++ notes'))

theorem Demanded.code_eq {loc : Span} {d : Diagnostic} (h : a.Demanded loc callee result d) :
    d.code = .ignoredResult := by
  cases h with
  | function | type => rfl

theorem Demanded.mustUseResult {loc : Span} {d : Diagnostic}
    (h : a.Demanded loc callee result d) : a.MustUseResult callee result := by
  cases h with
  | function hf hreason => exact .inl ⟨_, hf, isNodiscard_iff.2 ⟨_, hreason⟩⟩
  | type _ hreason => exact .inr (isNodiscard_iff.2 ⟨_, hreason⟩)

end Arena

/-- A discarded expression is a call whose result must be used, where that is not wanted and such
warnings are. -/
def Context.Owes (cx : Context) (expr : NodeId) (site : DiscardSite) : Prop :=
  site ≠ .cast ∧ cx.queue.isEnabled .unusedResult = true ∧ ∃ call callee result,
    cx.arena.CallsFor expr call callee result ∧ cx.arena.MustUseResult callee result

/-- An expression evaluates one call at most, so what has to be reported is known from that call. -/
theorem Context.owes_iff {cx : Context} {expr call callee result : NodeId} {site : DiscardSite}
    (hcalls : cx.arena.CallsFor expr call callee result) :
    cx.Owes expr site ↔ site ≠ .cast ∧ cx.queue.isEnabled .unusedResult = true ∧
      cx.arena.MustUseResult callee result := by
  refine and_congr_right fun _ => and_congr_right fun _ => ⟨?_, fun h => ⟨_, _, _, hcalls, h⟩⟩
  rintro ⟨call', callee', result', hcalls', hmust⟩
  obtain ⟨rfl, rfl, rfl⟩ := hcalls.unique hcalls'
  exact hmust

/-- The report that is owed has been added, and no other. -/
inductive Context.Delivers (cx : Context) (expr : NodeId) (site : DiscardSite) (t : Context) : Prop
  | reported {call callee result : NodeId} {loc : Span} {d : Diagnostic}
    (howes : cx.Owes expr site) (hcalls : cx.arena.CallsFor expr call callee result)
    (hloc : cx.arena.locationOf call cx.inputLocation = .ok loc)
    (hd : cx.arena.Demanded loc callee result d)
    (ht : HasContext.diagnostics t = HasContext.diagnostics cx ++ [d])
  | silent (hfree : ¬ cx.Owes expr site)
    (ht : HasContext.diagnostics t = HasContext.diagnostics cx)

namespace Pass

open ExprTree.Action HasContext

variable {a : Arena} {cx : Context} {expr id : NodeId} {loc : Span} {site : DiscardSite}

/-! ### Notes -/

/-- The last report was kept, and stands behind the others with the notes that it has. -/
structure Latest (a : Arena) (before : List Diagnostic) (d : Diagnostic) (cx : Context) :
    Prop where
  arena_eq : cx.arena = a
  lastAccepted : cx.queue.lastAccepted = true
  diagnostics_eq : diagnostics cx = before ++ [d]

section Notes

variable {before : List Diagnostic} {d : Diagnostic} {message spelled reason : String}

theorem Latest.wlp_note (h : Latest a before d cx) :
    wlp (discard (note loc message))
      (fun _ => Latest a before (d.withLabels [⟨loc, message, false⟩])) cx := by
  rw [wlp_discard]
  rintro _ _ ⟨⟩
  obtain ⟨hlast, hdiagnostics⟩ :=
    Queue.diagnostics_offerNote h.lastAccepted h.diagnostics_eq loc message
  exact ⟨h.arena_eq, hlast, hdiagnostics⟩

theorem Latest.wlp_noteAt (h : Latest a before d cx) :
    wlp (noteAt id message) (fun _ t => ∃ n, a.find? id = some n ∧
      Latest a before (d.withLabels [⟨n.span, message, false⟩]) t) cx := by
  unfold noteAt
  rw [wlp_bind, wlp_query]
  intro span hspan
  rw [h.arena_eq] at hspan
  obtain ⟨n, hn, rfl⟩ := Arena.map_eq_ok_iff.1 hspan
  exact h.wlp_note.mono fun _ _ ht => ⟨n, Arena.node_eq_ok_iff.1 hn, ht⟩

theorem Latest.wlp_noteFunction {function : Option NodeId} {callee : NodeId}
    (h : Latest a before d cx) (hf : ∀ f, function = some f ↔ a.Resolves callee f) :
    wlp (noteFunction function) (fun _ t => ∃ notes, a.FunctionNote callee notes ∧
      Latest a before (d.withLabels notes) t) cx := by
  cases function with
  | none =>
    refine wlp_pure.2 ⟨[], .unresolved fun f hres => (nomatch (hf f).2 hres), ?_⟩
    rwa [Diagnostic.withLabels_nil]
  | some f =>
    unfold noteFunction
    rw [wlp_bind, wlp_query, h.arena_eq]
    intro name hname
    exact h.wlp_noteAt.mono fun _ _ ⟨n, hn, ht⟩ =>
      ⟨_, .resolved ((hf f).1 rfl) hn hname, ht⟩

theorem Latest.wlp_noteType {type : NodeId} (h : Latest a before d cx) :
    wlp (noteType type spelled) (fun _ t => ∃ notes, a.TypeNote type spelled notes ∧
      Latest a before (d.withLabels notes) t) cx := by
  unfold noteType
  rw [wlp_bind, wlp_query, h.arena_eq]
  intro decl hdecl
  cases decl with
  | none =>
    refine wlp_pure.2 ⟨[], .unnamed hdecl, ?_⟩
    rwa [Diagnostic.withLabels_nil]
  | some decl => exact h.wlp_noteAt.mono fun _ _ ⟨n, hn, ht⟩ => ⟨_, .named hdecl hn, ht⟩

end Notes

/-! ### Warnings -/

section Warnings

variable {call callee result : NodeId}

/-- A warning that is kept is the latest report. -/
theorem wlp_warn_latest (hkeeps : cx.queue.keepsWarning .ignoredResult = true) (message : String) :
    wlp (warn .ignoredResult loc message) (fun accepted t => accepted = true ∧
      Latest cx.arena (diagnostics cx) (warning .ignoredResult loc message) t) cx := by
  intro r t hrun
  obtain ⟨rfl, hlast, ht⟩ := wlp_warn hkeeps message r t hrun
  have hquiet : t = { cx with queue := t.queue } := quiet_warn cx _ _ hrun
  exact ⟨rfl, by rw [hquiet], hlast, ht⟩

/-- The report of a function with its note. -/
theorem wlp_warnIgnoredFunction {f : NodeId} {reason : String}
    (hkeeps : cx.queue.keepsWarning .ignoredResult = true) (hf : cx.arena.Resolves callee f)
    (hreason : cx.arena.nodiscardReason? f = some reason) :
    wlp (warnIgnoredFunction loc f reason) (fun _ t => ∃ d,
      cx.arena.Demanded loc callee result d ∧ diagnostics t = diagnostics cx ++ [d]) cx := by
  unfold warnIgnoredFunction
  rw [wlp_bind, wlp_query]
  intro name hname
  rw [wlp_bind]
  refine (wlp_warn_latest hkeeps _).mono fun accepted t ⟨haccepted, ht⟩ => ?_
  rw [wlp_when, haccepted, if_pos rfl]
  exact ht.wlp_noteAt.mono fun _ _ ⟨n, hn, hu⟩ =>
    ⟨_, .function hf hreason hname hn, hu.diagnostics_eq⟩

/-- The report of a type with its notes. -/
theorem wlp_warnIgnoredType {function : Option NodeId} {reason : String}
    (hkeeps : cx.queue.keepsWarning .ignoredResult = true)
    (hfunction : ∀ f, function = some f ↔ cx.arena.Resolves callee f)
    (hfree : ∀ f, cx.arena.Resolves callee f → ¬ cx.arena.IsNodiscard f)
    (hreason : cx.arena.nodiscardReason? result = some reason) :
    wlp (warnIgnoredType loc function result reason) (fun _ t => ∃ d,
      cx.arena.Demanded loc callee result d ∧ diagnostics t = diagnostics cx ++ [d]) cx := by
  unfold warnIgnoredType
  rw [wlp_bind, wlp_query]
  intro spelled hspelled
  rw [wlp_bind]
  refine (wlp_warn_latest hkeeps _).mono fun accepted t ⟨haccepted, ht⟩ => ?_
  rw [wlp_when, haccepted, if_pos rfl, wlp_bind]
  refine (ht.wlp_noteFunction hfunction).mono fun _ u ⟨notes, hnotes, hu⟩ => ?_
  refine hu.wlp_noteType.mono fun _ v ⟨notes', hnotes', hv⟩ => ?_
  rw [Diagnostic.withLabels_withLabels] at hv
  exact ⟨_, .type hfree hreason hspelled hnotes hnotes', hv.diagnostics_eq⟩

/-- A call is reported as it is demanded, or not at all. -/
theorem wlp_warnIgnoredCall (hkeeps : cx.queue.keepsWarning .ignoredResult = true) :
    wlp (warnIgnoredCall call callee result) (fun _ t =>
      (∃ loc d, cx.arena.locationOf call cx.inputLocation = .ok loc ∧
        cx.arena.Demanded loc callee result d ∧ diagnostics t = diagnostics cx ++ [d]) ∨
      ¬ cx.arena.MustUseResult callee result ∧ diagnostics t = diagnostics cx) cx := by
  unfold warnIgnoredCall
  rw [wlp_bind, wlp_query]
  intro function hfunction
  rw [wlp_bind, wlp_location]
  intro loc hloc
  rw [wlp_bind, wlp_query]
  rintro _ ⟨⟩
  have hresolves := fun f => Arena.calledFunction?_eq_some_iff (f := f) hfunction
  have hcases := @Arena.mustUse?_cases cx.arena callee result function hresolves
  cases hdemand : cx.arena.mustUse? function result with
  | none =>
    rw [hdemand] at hcases
    exact wlp_pure.2 (.inr ⟨hcases, rfl⟩)
  | some demand =>
    rw [hdemand] at hcases
    cases demand with
    | function f reason =>
      exact (wlp_warnIgnoredFunction hkeeps hcases.1 hcases.2).mono
        fun _ _ ⟨d, hd, ht⟩ => .inl ⟨loc, d, hloc, hd, ht⟩
    | type reason =>
      exact (wlp_warnIgnoredType hkeeps hresolves hcases.1 hcases.2).mono
        fun _ _ ⟨d, hd, ht⟩ => .inl ⟨loc, d, hloc, hd, ht⟩

/-- A warning that is not kept is not explained either. -/
theorem wlp_warn_refused (hkeeps : cx.queue.keepsWarning .ignoredResult = false)
    {message : String} {p : Pass Unit} :
    wlp (warn .ignoredResult loc message >>= fun accepted => Pass.when accepted p)
      (fun _ t => diagnostics t = diagnostics cx) cx := by
  have hkept : (cx.queue.offerWarning (warning .ignoredResult loc message)).1 = false := by
    unfold Queue.offerWarning
    rw [if_neg]
    exact Bool.eq_false_iff.1 hkeeps
  have hcx := cx.queue.diagnostics_offerWarning (warning .ignoredResult loc message)
  rw [hkept] at hcx
  have hwarn : wlp (warn .ignoredResult loc message)
      (fun accepted t => accepted = false ∧ diagnostics t = diagnostics cx) cx := by
    rintro _ _ ⟨⟩
    exact ⟨hkept, hcx.trans (List.append_nil _)⟩
  rw [wlp_bind]
  refine hwarn.mono ?_
  rintro _ t ⟨rfl, ht⟩
  exact wlp_pure.2 ht

theorem wlp_warnIgnoredCall_refused (hkeeps : cx.queue.keepsWarning .ignoredResult = false) :
    wlp (warnIgnoredCall call callee result) (fun _ t => diagnostics t = diagnostics cx) cx := by
  unfold warnIgnoredCall
  rw [wlp_bind, wlp_query]
  intro function _
  rw [wlp_bind, wlp_location]
  intro loc _
  rw [wlp_bind, wlp_query]
  rintro demand -
  split
  · unfold warnIgnoredFunction
    rw [wlp_bind, wlp_query]
    exact fun _ _ => wlp_warn_refused hkeeps
  · unfold warnIgnoredType
    rw [wlp_bind, wlp_query]
    exact fun _ _ => wlp_warn_refused hkeeps
  · exact wlp_pure.2 rfl

end Warnings

/-! ### Discarded expressions -/

/-- What warns changes only the queue, in a fault or not. -/
theorem explains_stays : Explains (fun _ => True) fun {α} (p _ : Pass α) =>
    ∀ cx, p.last cx = { cx with queue := (p.last cx).queue } where
  ask _ cx := by rw [last_ask]
  bind {_ _ p _ f _} hp hf cx := by
    rw [last_bind]
    cases hrun : p cx with
    | error e t =>
      have ht := hp cx
      rwa [last_eq_of_error hrun] at ht
    | ok r t =>
      have ht := hp cx
      rw [last_eq_of_ok hrun] at ht
      have hu := hf r t
      dsimp only
      rw [hu, ht]
  warn _ _ _ _ _ := rfl
  note _ _ _ := rfl

/-- The call that an expression evaluates is reported where that is owed. -/
theorem wlp_when_warnIgnoredCall {call callee result : NodeId}
    (hcalls : cx.arena.CallsFor expr call callee result) :
    wlp (Pass.when (site != .cast) (warnIgnoredCall call callee result))
      (fun _ => cx.Delivers expr site) cx := by
  have howes : cx.Owes expr site ↔ _ := Context.owes_iff hcalls
  rw [wlp_when]
  by_cases hsite : site = .cast
  · rw [hsite]
    exact .silent (fun h => h.1 rfl) rfl
  rw [if_pos (bne_iff_ne.2 hsite)]
  cases hkeeps : cx.queue.keepsWarning .ignoredResult with
  | false =>
    refine (wlp_warnIgnoredCall_refused hkeeps).mono fun _ t ht => .silent (fun h => ?_) ht
    cases hkeeps.symm.trans h.2.1
  | true =>
    refine (wlp_warnIgnoredCall hkeeps).mono fun _ t ht => ?_
    rcases ht with ⟨loc, d, hloc, hd, ht⟩ | ⟨hno, ht⟩
    · exact .reported (howes.2 ⟨hsite, hkeeps, hd.mustUseResult⟩) hcalls hloc hd ht
    · exact .silent (fun h => hno (howes.1 h).2.2) ht

/-- A run that returns adds the report that is owed, and no other. -/
theorem wlp_warnIgnored : wlp (warnIgnored expr site) (fun _ => cx.Delivers expr site) cx := by
  unfold warnIgnored
  rw [wlp_bind, wlp_query]
  intro call hcall
  rw [wlp_bind, wlp_query]
  intro k hk
  -- without a call there is nothing to report
  have hsilent : (∀ callee result, ¬ cx.arena.CallsFor expr call callee result) →
      cx.Delivers expr site cx := by
    refine fun hnone => .silent ?_ rfl
    rintro ⟨-, -, call', callee, result, hcalls, -⟩
    cases hcall.symm.trans (Arena.callsFor_iff.1 hcalls).1
    exact hnone callee result hcalls
  split
  · rename_i callee args
    rw [wlp_bind, wlp_query]
    intro o hresult
    cases o with
    | none =>
      refine wlp_pure.2 (hsilent fun callee' result h => ?_)
      obtain ⟨-, ⟨args', hk'⟩, hresult'⟩ := Arena.callsFor_iff.1 h
      cases hk.symm.trans hk'
      cases hresult.symm.trans hresult'
    | some result =>
      exact wlp_when_warnIgnoredCall (Arena.callsFor_iff.2 ⟨hcall, ⟨args, hk⟩, hresult⟩)
  · rename_i hno
    refine wlp_pure.2 (hsilent fun callee result h => ?_)
    obtain ⟨args, hk'⟩ := h.calls
    exact hno callee args (Except.ok.inj (hk.symm.trans hk'))

/-- A discarded expression is reported where that is owed, in every run that returns.  The one
report names the function where that is marked, and else the type of the result, and its notes say
where these are declared.  Every run leaves everything but the queue as it is and adds one report at
most.  Where handles lead to nodes, and texts and conversions end, the run returns. -/
theorem warnIgnored_exact (cx : Context) (expr : NodeId) (site : DiscardSite) :
    ((warnIgnored expr site).last cx =
      { cx with queue := ((warnIgnored expr site).last cx).queue }) ∧
    (∃ ds, ds.length ≤ 1 ∧ diagnostics ((warnIgnored expr site).last cx) = diagnostics cx ++ ds) ∧
    (∀ t, warnIgnored expr site cx = .ok () t →
      ((∃ d, diagnostics t = diagnostics cx ++ [d] ∧ d.code = .ignoredResult) ↔
        cx.Owes expr site) ∧
      ∀ d, diagnostics t = diagnostics cx ++ [d] → ∃ call callee result loc,
        cx.arena.CallsFor expr call callee result ∧
        cx.arena.locationOf call cx.inputLocation = .ok loc ∧
        cx.arena.Demanded loc callee result d) ∧
    (cx.arena.Spellable → cx.arena.Strippable → (cx.arena.find? expr).isSome = true →
      Faultless (warnIgnored expr site) cx) := by
  refine ⟨explains_stays.warnIgnored trivial (Iff.refl (site = .cast)) expr cx, ?_,
    fun t hrun => ?_, fun hspell hstrip hexpr => ?_⟩
  · rcases remarks_warnIgnored expr site cx with h | ⟨d, notes, -, -, h⟩
    · exact ⟨[], Nat.zero_le _, h.trans (List.append_nil _).symm⟩
    · exact ⟨[d.withLabels notes], Nat.le_refl _, h⟩
  · cases wlp_warnIgnored () t hrun with
    | @reported call callee result loc d howes hcalls hloc hd ht =>
      refine ⟨iff_of_true ⟨d, ht, hd.code_eq⟩ howes, fun d' hd' => ?_⟩
      obtain rfl : d = d' := by simpa using ht.symm.trans hd'
      exact ⟨call, callee, result, loc, hcalls, hloc, hd⟩
    | silent hno ht =>
      have hnone : ∀ d, diagnostics t ≠ diagnostics cx ++ [d] := fun d hd => by
        simpa using ht.symm.trans hd
      exact ⟨iff_of_false (fun ⟨d, hd, _⟩ => hnone d hd) hno, fun d hd => absurd hd (hnone d)⟩
  · exact (reports_warnIgnored hspell hstrip hexpr).returns rfl fun _ _ => trivial

end Pass

/-- A record type whose values must be used, a function that returns one, and a temporary that is
initialized by a call of the function through a conversion of its address. -/
def Arena.markedCalls : Arena :=
  { Arena.initial with
    nodes := Arena.initial.nodes ++ #[
      ⟨.recordType (some ⟨7⟩) none none, none, .empty, .unknown⟩,
      ⟨.decl .typeName (.named ⟨4⟩), some ⟨6⟩, .empty, ⟨1, 2⟩⟩,
      ⟨.functionType ⟨6⟩ .empty, none, .empty, .unknown⟩,
      ⟨.decl .func (.named ⟨5⟩), some ⟨8⟩, .empty, ⟨3, 4⟩⟩,
      ⟨.pointerType ⟨8⟩, none, .empty, .unknown⟩,
      ⟨.unary .addressOf ⟨9⟩, some ⟨10⟩, .empty, ⟨5, 7⟩⟩,
      ⟨.unary .nop ⟨11⟩, some ⟨10⟩, .empty, ⟨5, 7⟩⟩,
      ⟨.call (some ⟨12⟩) .empty, some ⟨6⟩, .single .effect, ⟨5, 9⟩⟩,
      ⟨.decl .var (.named ⟨0⟩), some ⟨6⟩, .empty, ⟨5, 9⟩⟩,
      ⟨.target ⟨14⟩ ⟨13⟩, some ⟨6⟩, .single .effect, ⟨5, 9⟩⟩]
    attributes := #[(⟨6⟩, ⟨⟨3⟩, [⟨6⟩]⟩)]
    names := ⟨#["", "int", "size_t", "nodiscard", "T", "f", "why"]⟩ }

namespace Pass

open ExprTree.Action HasContext

/-- The call that initializes the temporary is reported. -/
theorem warnIgnored_exact_temporary :
    let cx := Context.ofArena .markedCalls .standard
    cx.Owes ⟨15⟩ .statement ∧ ∃ t d, warnIgnored ⟨15⟩ .statement cx = .ok () t ∧
      diagnostics t = [d] ∧ cx.arena.Demanded ⟨5, 9⟩ ⟨12⟩ ⟨6⟩ d := by
  intro cx
  have hclosed : Arena.markedCalls.Closed := by decide +kernel
  have hstrip : Arena.markedCalls.Strippable :=
    Arena.not_transGen_of_older Node.converted? (by decide +kernel)
  have howes : cx.Owes ⟨15⟩ .statement := by
    refine ⟨by decide, by decide, ⟨13⟩, ⟨12⟩, ⟨6⟩, ⟨.inr ⟨⟨14⟩, rfl⟩, ⟨_, rfl⟩, ?_⟩, .inr ?_⟩
    · exact ⟨⟨10⟩, ⟨8⟩, .empty, rfl, .inr (.inl rfl), rfl⟩
    · exact ⟨⟨⟨3⟩, [⟨6⟩]⟩, by decide +kernel, by decide +kernel⟩
  obtain ⟨-, -, hreport, hreturns⟩ := warnIgnored_exact cx ⟨15⟩ .statement
  obtain ⟨⟨⟩, t, hrun, -⟩ := hreturns (hclosed.spellable (by decide +kernel)) hstrip (by decide)
  obtain ⟨hiff, hexact⟩ := hreport t hrun
  obtain ⟨d, hd, -⟩ := hiff.2 howes
  obtain ⟨call, callee, result, loc, hcalls, hloc, hdemanded⟩ := hexact d hd
  obtain ⟨hcall, ⟨args, hk⟩, hresult⟩ := Arena.callsFor_iff.1 hcalls
  cases hcall
  cases hk
  cases hresult
  cases hloc
  exact ⟨howes, t, d, hrun, hd, hdemanded⟩

end Pass

/-- A call of a function that returns a record whose values must be used, through a pointer that is
a conversion of nothing. -/
def Arena.danglingCallee : Arena :=
  { Arena.initial with
    nodes := Arena.initial.nodes ++ #[
      ⟨.recordType (some ⟨7⟩) none none, none, .empty, .unknown⟩,
      ⟨.decl .typeName (.named ⟨4⟩), some ⟨6⟩, .empty, ⟨1, 2⟩⟩,
      ⟨.functionType ⟨6⟩ .empty, none, .empty, .unknown⟩,
      ⟨.pointerType ⟨8⟩, none, .empty, .unknown⟩,
      ⟨.unary .nop ⟨99⟩, some ⟨9⟩, .empty, ⟨5, 7⟩⟩,
      ⟨.call (some ⟨10⟩) .empty, some ⟨6⟩, .single .effect, ⟨5, 9⟩⟩]
    attributes := #[(⟨6⟩, ⟨⟨3⟩, []⟩)]
    names := ⟨#["", "int", "size_t", "nodiscard", "T"]⟩ }

namespace Pass

open ExprTree.Action HasContext

/-- A report that is owed is not given where the operand of a conversion is not there: the run ends
in a fault while it looks for the function. -/
theorem not_warnIgnored_dangling :
    let cx := Context.ofArena .danglingCallee .standard
    cx.arena.Strippable ∧ cx.Owes ⟨11⟩ .statement ∧
      (warnIgnored ⟨11⟩ .statement).fault? cx = some .outOfBounds ∧
      (warnIgnored ⟨11⟩ .statement).added cx = [] := by
  intro cx
  refine ⟨?_, ⟨by decide, by decide, ⟨11⟩, ⟨10⟩, ⟨6⟩, ⟨.inl rfl, ⟨_, rfl⟩, ?_⟩, .inr ?_⟩,
    by decide +kernel, by decide +kernel⟩
  · -- the only conversion leads out of the arena
    have hahead : ∀ i : Fin Arena.danglingCallee.size, ∀ n ∈ Arena.danglingCallee.find? ⟨i⟩,
        ∀ operand ∈ n.converted?, i < operand.index ∧ operand.index < 100 := by decide +kernel
    refine Arena.not_transGen_self (fun id => 100 - id.index) fun id operand ⟨n, hn, hc⟩ => ?_
    obtain ⟨hi, -⟩ := Array.getElem?_eq_some_iff.1 hn
    have hlt := hahead ⟨id.index, hi⟩ n hn operand hc
    dsimp only at hlt ⊢
    omega
  · exact ⟨⟨9⟩, ⟨8⟩, .empty, rfl, .inr (.inl rfl), rfl⟩
  · exact ⟨⟨⟨3⟩, []⟩, by decide +kernel, by decide +kernel⟩

end Pass

end ExprTree
