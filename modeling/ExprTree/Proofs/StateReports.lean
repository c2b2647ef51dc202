import ExprTree.Proofs.Resting
import ExprTree.Proofs.Settled
import ExprTree.Proofs.SiteReports

/-!
# Reports that depend on the state

What a reduction reports about a node depends on the arena as it is when the node is reached.  If a
property of nodes is kept by all parts of a reduction, and what is reported about a node satisfies
`Own` wherever the node has the property, then all that the reduction reports does, whether it
returns or ends in a fault.

* `Action.LogsAt` — what a run adds to the diagnostics, from one state.
* `Pass.ReportsOf` — what is reported about a node at its location.
* `Pass.logsAt_toVoid_rests` — what is reported about a node whose use follows no operand.
* `Pass.Guards` — properties of nodes that reductions keep, and under which reports satisfy `Own`.
* `Pass.Guards.logsAt_toVoid` — what a reduction reports.
-/

namespace ExprTree

open HasContext

namespace Action

variable {σ α β : Type} [MonadLiftT Pass (Action σ)] [HasContext σ] {Own : Diagnostic → Prop}
  {p : Action σ α} {f : α → Action σ β} {s : σ}

/-- From a state, an action adds diagnostics that satisfy `Own`, and no others. -/
def LogsAt (Own : Diagnostic → Prop) (p : Action σ α) (s : σ) : Prop :=
  ∃ ds, (∀ d ∈ ds, Own d) ∧ diagnostics (p.last s) = diagnostics s ++ ds

theorem LogsAt.added (h : LogsAt Own p s) : ∀ d ∈ p.added s, Own d := by
  obtain ⟨ds, hown, hds⟩ := h
  rwa [added_eq hds]

theorem logsAt_ask (question : σ → Except Fault α) : LogsAt Own (ask question) s :=
  logs_ask question s

theorem logsAt_pure (r : α) : LogsAt Own (pure r : Action σ α) s := logsAt_ask fun _ => .ok r

theorem logsAt_throw (e : Fault) : LogsAt Own (throw e : Action σ α) s :=
  logsAt_ask fun _ => .error e

/-- What comes after a part starts where the part ends. -/
theorem LogsAt.bind (hp : LogsAt Own p s) (hf : wlp p (fun r t => LogsAt Own (f r) t) s) :
    LogsAt Own (p >>= f) s := by
  obtain ⟨ds, hown, hds⟩ := hp
  unfold LogsAt
  rw [last_bind]
  cases hrun : p s with
  | error e t =>
    rw [last_eq_of_error hrun] at hds
    exact ⟨ds, hown, hds⟩
  | ok r t =>
    rw [last_eq_of_ok hrun] at hds
    obtain ⟨es, hown', hes⟩ := hf r t hrun
    refine ⟨ds ++ es, fun d hd => (List.mem_append.1 hd).elim (hown d) (hown' d), ?_⟩
    show diagnostics ((f r).last t) = diagnostics s ++ (ds ++ es)
    rw [hes, hds, List.append_assoc]

theorem LogsAt.map (hp : LogsAt Own p s) (g : α → β) : LogsAt Own (g <$> p) s := by
  rw [map_eq_pure_bind]
  exact hp.bind fun r _ _ => logsAt_pure (g r)

theorem LogsAt.mapM {g : β → Action σ α} {o : Option β} (h : ∀ x ∈ o, LogsAt Own (g x) s) :
    LogsAt Own (o.mapM g) s := by
  cases o with
  | none => exact logsAt_pure none
  | some x => exact (h x rfl).map some

end Action

namespace Pass

open ExprTree.Action

variable {α : Type} {Own : Diagnostic → Prop} {cx : Context} {expr : NodeId} {loc : Span}
  {site : DiscardSite} {self : NodeId × DiscardSite → Pass NodeId}

theorem logsAt_query {q : Arena → Except Fault α} : LogsAt Own (query q) cx := logsAt_ask _

theorem logsAt_nested (hdeep : ∀ span limit, Own (.tooDeeplyNested span limit)) {span : Span}
    {overflow : α} {body : Pass α}
    (hbody : ∀ level, LogsAt Own body { cx with nesting := level }) :
    LogsAt Own (nested span overflow body) cx := by
  rw [nested_eq]
  refine LogsAt.bind (logs_enter hdeep span cx) ?_
  rw [wlp_enter]
  refine ⟨fun inner _ => ?_, fun e _ => ?_⟩
  · rw [if_pos rfl]
    exact (hbody inner).bind fun r t _ =>
      LogsAt.bind (logs_leave t) fun _ _ _ => logsAt_pure r
  · rw [if_neg Bool.false_ne_true]
    exact logsAt_pure overflow

/-! ### Warnings -/

/-- The warning with a code at a span, before anything explains it. -/
abbrev warning (code : Code) (span : Span) (message : String) : Diagnostic :=
  ((Diagnostic.warning code).withMessage message).withLabel span ""

theorem logs_discard_warn {code : Code} {message : String} (hown : Own (warning code loc message)) :
    Logs Own (discard (warn code loc message)) := by
  show Logs Own ((fun _ => ()) <$> warn code loc message)
  rw [map_eq_pure_bind]
  exact (logs_warn hown).bind fun _ => logs_ask fun _ => .ok ()

theorem logs_warnVolatile {reference : Bool} {type : NodeId} (hown : ∀ code message,
      code = .incompleteTarget ∨ code = .untouchedReference ∨ code = .addressableTarget →
      Own (warning code loc message)) : Logs Own (warnVolatile site loc reference type) := by
  refine (logs_ask _).bind fun spelled => (logs_ask _).bind fun complete => ?_
  split
  · exact logs_discard_warn (hown _ _ (.inl rfl))
  split
  · exact logs_discard_warn (hown _ _ (.inr (.inl rfl)))
  refine (logs_ask _).bind fun addressable => ?_
  split
  · exact logs_discard_warn (hown _ _ (.inr (.inr rfl)))
  · exact logs_ask fun _ => .ok ()

theorem logs_warnVariable {name : Name} {type : NodeId}
    (hown : ∀ message, Own (warning .incompleteVariable loc message)) :
    Logs Own (warnVariable name type loc site) := by
  refine (logs_ask _).bind fun volatile => ?_
  split
  · refine (logs_ask _).bind fun complete => ?_
    split
    · exact (logs_ask _).bind fun spelled =>
        (logs_ask fun cx => .ok cx).bind fun cx => logs_discard_warn (hown _)
    · exact logs_ask fun _ => .ok ()
  · exact logs_ask fun _ => .ok ()

theorem logs_warnIgnored (hown : ∀ d : Diagnostic, d.code = .ignoredResult → Own d) :
    Logs Own (warnIgnored expr site) := by
  intro cx
  rcases remarks_warnIgnored expr site cx with h | ⟨d, notes, hd, -, h⟩
  · exact ⟨[], nofun, by rw [h, List.append_nil]⟩
  · refine ⟨[d.withLabels notes], fun e he => ?_, h⟩
    rw [List.mem_singleton.1 he]
    exact hown _ hd.1

/-- The value behind a pointer goes unreported at a cast, and where the warning is switched off. -/
theorem logsAt_warnUnusedValue {reference : Bool} (hown : site ≠ .cast → reference = false →
      cx.arena.suppresses expr (.single .noUnusedValueWarning) = .ok false →
      Own (warning .unusedValue loc DiscardSite.unusedValue)) :
    LogsAt Own (warnUnusedValue site loc reference expr) cx := by
  refine (logsAt_ask fun cx => .ok cx).bind fun t u hget => ?_
  obtain ⟨-, rfl⟩ := ask_eq_ok_iff.1 hget
  split
  · rename_i hasked
    simp only [Bool.and_eq_true, decide_eq_true_eq, Bool.not_eq_true'] at hasked
    refine logsAt_query.bind (wlp_query.2 fun suppressed hsuppressed => ?_)
    cases suppressed with
    | true => exact logsAt_pure ()
    | false => exact logs_discard_warn (hown hasked.1.1 hasked.1.2 hsuppressed) cx
  · exact logsAt_pure ()

/-! ### One rule for each part of a reduction -/

theorem logsAt_voidCond {first third : NodeId} {second : Option NodeId} {P : Context → Prop}
    (hnone : second = none → P cx)
    (hsecond : ∀ op ∈ second, ∀ place, LogsAt Own (self (op, place)) cx ∧
      wlp (self (op, place)) (fun _ => P) cx)
    (hthird : ∀ place t, P t → LogsAt Own (self (third, place)) t) :
    LogsAt Own (voidCond self expr first second third loc site) cx := by
  refine logsAt_query.bind (wlp_query.2 fun effect _ => ?_)
  refine (LogsAt.mapM fun op hop => (hsecond op hop _).1).bind ?_
  have hafter : ∀ place, wlp (second.mapM fun op => self (op, place)) (fun _ => P) cx := by
    intro place
    rw [wlp_mapM]
    cases second with
    | none => exact hnone rfl
    | some op => exact (hsecond op rfl place).2
  refine (hafter _).mono fun newSecond t ht => ?_
  refine (hthird _ t ht).bind fun newThird u _ => ?_
  dsimp only
  split
  · exact logsAt_pure none
  split
  · exact logsAt_pure (some expr)
  · exact LogsAt.map (logs_edit _ u) some

theorem logsAt_voidComma {lhs rhs : NodeId} (hrhs : ∀ place, LogsAt Own (self (rhs, place)) cx) :
    LogsAt Own (voidComma self expr lhs rhs loc site) cx := by
  refine logsAt_query.bind (wlp_query.2 fun suppressed _ => ?_)
  refine (hrhs _).bind fun newRhs t _ => ?_
  dsimp only
  split
  · exact logsAt_pure none
  split
  · exact logsAt_pure (some expr)
  · exact LogsAt.map (logs_edit _ t) some

theorem logsAt_voidDeref {pointer type : NodeId}
    (hvolatile : ∀ reference, Logs Own (warnVolatile site loc reference type))
    (hunused : ∀ reference, cx.arena.isReference pointer = .ok reference →
      LogsAt Own (warnUnusedValue site loc reference expr) cx)
    (hignored : ∀ expr site, Logs Own (warnIgnored expr site)) :
    LogsAt Own (voidDeref expr pointer type loc site) cx := by
  refine logsAt_query.bind (wlp_query.2 fun reference href => ?_)
  refine logsAt_query.bind (wlp_query.2 fun volatile _ => ?_)
  split
  · exact LogsAt.bind (hvolatile reference cx) fun _ _ _ => logsAt_pure _
  · refine (hunused reference href).bind fun _ t _ => logsAt_query.bind fun kind u _ => ?_
    have hcall : ∀ asked, Logs Own (Pass.when asked (warnIgnored pointer site)) := by
      intro asked
      unfold Pass.when
      split
      · exact hignored pointer site
      · exact logs_ask fun _ => .ok ()
    exact LogsAt.bind (hcall _ u) fun _ _ _ => logsAt_pure _

/-- What is reported about a node whose value is discarded satisfies `Own`. -/
structure ReportsOf (Own : Diagnostic → Prop) (expr : NodeId) (n : Node) (loc : Span)
    (cx : Context) : Prop where
  deref : ∀ pointer type site, n.kind = .unary .deref pointer → n.type = some type →
    LogsAt Own (voidDeref expr pointer type loc site) cx
  var : ∀ payload type site, n.kind = .decl .var payload → n.type = some type →
    LogsAt Own (warnVariable payload.name type loc site) cx

theorem logsAt_voidByKind {n : Node} {type : NodeId} (hn : cx.arena.find? expr = some n)
    (ht : n.type = some type)
    (hcond : ∀ first second third, n.kind = .cond first second third →
      LogsAt Own (voidCond self expr first second third loc site) cx)
    (hcomma : ∀ lhs rhs, n.kind = .comma lhs rhs →
      LogsAt Own (voidComma self expr lhs rhs loc site) cx)
    (hreports : ReportsOf Own expr n loc cx)
    (hignored : ∀ expr site, Logs Own (warnIgnored expr site)) :
    LogsAt Own (voidByKind self expr type loc site) cx := by
  refine logsAt_query.bind (wlp_query.2 fun kind hkind => ?_)
  obtain ⟨m, hm, rfl⟩ := Arena.kindOf_eq_ok_iff.1 hkind
  cases hn.symm.trans hm
  split
  · rename_i hk
    exact hcond _ _ _ hk
  · rename_i hk
    exact hcomma _ _ hk
  · rename_i hk
    exact (hreports.deref _ _ _ hk ht).map some
  · exact LogsAt.bind (hignored expr site cx) fun _ _ _ => logsAt_pure _
  · exact LogsAt.bind (hignored expr site cx) fun _ _ _ => logsAt_pure _
  · rename_i hk
    exact (hreports.var _ _ _ hk ht).bind fun _ _ _ => logsAt_pure _
  · exact logsAt_pure _

theorem logsAt_voidTyped (hvalue : ∀ n type, cx.arena.find? expr = some n → n.type = some type →
      LogsAt Own (voidByKind self expr type loc site) cx) :
    LogsAt Own (voidTyped self expr loc site) cx := by
  refine logsAt_query.bind (wlp_query.2 fun type htype => ?_)
  obtain ⟨n, hn, ht⟩ := Arena.map_eq_ok_iff.1 htype
  cases type with
  | none => exact logsAt_pure expr
  | some type =>
    refine logsAt_query.bind fun void t hvoid => ?_
    obtain ⟨-, rfl⟩ := ask_eq_ok_iff.1 hvoid
    split
    · exact logsAt_pure expr
    refine (hvalue n type (Arena.node_eq_ok_iff.1 hn) ht).bind fun reduced t _ => ?_
    cases reduced with
    | none => exact logsAt_pure _
    | some expr => exact logsAt_query.bind fun _ _ _ => logsAt_pure _

/-- Neither the discarded use nor a read reports anything but errors. -/
theorem logsAt_voidNode (hdeep : ∀ span limit, Own (.tooDeeplyNested span limit))
    {P : NodeId → Context → Prop} (hdiscard : wlp (classifyDiscarded expr) P cx)
    (hrest : ∀ r t u, P r t → r ≠ .error → t.arena.Marked u.arena →
      u.inputLocation = t.inputLocation → LogsAt Own (voidTyped self r loc site) u) :
    LogsAt Own (voidNode self expr loc site) cx := by
  have hsilent : Twins fun {α} (p _ : Pass α) => Logs Own p := logs_twins hdeep
  refine LogsAt.bind (hsilent.classifyDiscarded expr cx) (hdiscard.mono fun r t hr => ?_)
  refine logsAt_query.bind (wlp_query.2 fun erroneous herr => ?_)
  cases erroneous with
  | true => exact logsAt_pure _
  | false =>
    have hne : r ≠ .error := by
      rintro rfl
      cases herr
    rw [if_neg Bool.false_ne_true]
    have hread : Logs Own (Pass.when (site == .cast) (recordRead r)) :=
      @Twins.when _ hsilent _ (recordRead r) (hsilent.recordRead r) _
    exact LogsAt.bind (hread t) ((wlp_read.and (passive_recordRead.when t)).mono
      fun _ u hu => hrest r t u hr hne hu.1 hu.2.inputLocation.symm)

theorem logsAt_toVoidStep (hdeep : ∀ span limit, Own (.tooDeeplyNested span limit))
    {P : Span → NodeId → Context → Prop} (hdiscard : ∀ loc level,
      cx.arena.locationOf expr cx.inputLocation = .ok loc →
      wlp (classifyDiscarded expr) (P loc) { cx with nesting := level })
    (hrest : ∀ loc r t u, P loc r t → r ≠ .error → t.arena.Marked u.arena →
      u.inputLocation = t.inputLocation → LogsAt Own (voidTyped self r loc site) u) :
    LogsAt Own (toVoidStep self (expr, site)) cx := by
  refine logsAt_query.bind fun erroneous t herr => ?_
  obtain ⟨-, rfl⟩ := ask_eq_ok_iff.1 herr
  split
  · exact logsAt_pure _
  refine (logsAt_ask _).bind (wlp_location.2 fun loc hloc => ?_)
  exact logsAt_nested hdeep fun level => logsAt_voidNode hdeep (hdiscard loc level hloc) (hrest loc)

/-- What one level reports, whatever the levels below it do. -/
theorem logsAt_toVoid_of_step (h : ∀ self, LogsAt Own (toVoidStep self (expr, site)) cx) :
    LogsAt Own (toVoid expr site) cx := by
  show LogsAt Own (unroll toVoidStep cx.nesting.room (expr, site)) cx
  cases cx.nesting.room with
  | zero => exact h _
  | succ room => exact h _

/-- What a reduction reports about a node whose use follows no operand. -/
theorem logsAt_toVoid_rests (hdeep : ∀ span limit, Own (.tooDeeplyNested span limit))
    (hignored : ∀ expr site, Logs Own (warnIgnored expr site)) {inner : NodeId} {n : Node}
    (hs : cx.arena.stripWrapper expr = .ok inner) (hn : cx.arena.find? inner = some n)
    (hrests : cx.arena.Rests n) (hloc : cx.arena.locationOf expr cx.inputLocation = .ok loc)
    (hreports : ∀ u m, cx.arena.Marked u.arena → u.arena.find? inner = some m →
      m.unread = n.unread → ReportsOf Own inner m loc u) :
    LogsAt Own (toVoid expr site) cx := by
  refine logsAt_toVoid_of_step fun self => logsAt_toVoidStep hdeep
    (P := fun loc' r t => loc' = loc ∧ Idles cx.arena inner r t.arena) (fun loc' level hloc' => ?_) ?_
  · have heq : loc' = loc := Except.ok.inj (hloc'.symm.trans hloc)
    have hidle : wlp (classifyDiscarded expr) (fun r t => Idles cx.arena inner r t.arena)
        { cx with nesting := level } := classifyDiscarded_rests hs hn hrests
    exact hidle.mono fun r t hr => ⟨heq, hr⟩
  · rintro _ r t u ⟨rfl, hr, ht⟩ hne hmark -
    obtain rfl := hr.resolve_right hne
    obtain ⟨m, hm, hmn⟩ := (ht.trans hmark).find? hn
    have hrests' : u.arena.Rests m := hrests.marked (ht.trans hmark) (congrArg Node.kind hmn :)
    refine logsAt_voidTyped fun m' type hm' htype => ?_
    cases hm.symm.trans hm'
    exact logsAt_voidByKind hm htype (fun _ _ _ h => absurd h (hrests'.cond _ _ _))
      (fun _ _ h => absurd h (hrests'.comma _ _)) (hreports u m (ht.trans hmark) hm hmn) hignored

/-! ### Where each node is reached -/

/-- Passes leave the input location. -/
theorem keepsInputLocation_twins : Twins fun {α} (p _ : Pass α) =>
    ∀ cx, wlp p (fun _ t => t.inputLocation = cx.inputLocation) cx where
  ask _ _ := wlp_ask.2 fun _ _ => rfl
  bind hp hf cx := by
    rw [wlp_bind]
    exact (hp cx).mono fun r t ht => (hf r t).mono fun _ _ hu => hu.trans ht
  edit _ _ := by
    rw [wlp_edit]
    exact fun _ _ _ => rfl
  nested hp cx := by
    exact wlp_level (fun inner _ => (hp { cx with nesting := inner }).mono fun _ _ ht _ _ => ht)
      fun _ _ => rfl

variable {P : Context → NodeId → Prop}

/-- What holds of a node in the first context holds of it in the second. -/
def Persists (P : Context → NodeId → Prop) (cx t : Context) : Prop := ∀ x, P cx x → P t x

theorem Persists.trans {t u : Context} (h : Persists P cx t) (h' : Persists P t u) :
    Persists P cx u := fun x hx => h' x (h x hx)

/-- A discarded use leaves what holds of nodes, and what is left of the expression has the property,
unless it is the error node.  What is reported about it then satisfies `Own`. -/
structure Discards (Own : Diagnostic → Prop) (P : Context → NodeId → Prop) (cx : Context)
    (loc : Span) (r : NodeId) (t : Context) : Prop where
  persists : Persists P cx t
  left : r ≠ .error → P t r
  reports : r ≠ .error → ∀ u n, P u r → t.arena.Marked u.arena →
    u.inputLocation = t.inputLocation → u.arena.find? r = some n → ReportsOf Own r n loc u

/-- Properties of nodes in contexts that all parts of a reduction keep, and under which everything
that is reported satisfies `Own`. -/
structure Guards (Own : Diagnostic → Prop) (P : Context → NodeId → Prop) : Prop where
  deep : ∀ span limit, Own (.tooDeeplyNested span limit)
  ignored : ∀ expr site, Logs Own (warnIgnored expr site)
  discard : ∀ {cx expr loc}, P cx expr → cx.arena.locationOf expr cx.inputLocation = .ok loc →
    wlp (classifyDiscarded expr) (Discards Own P cx loc) cx
  /-- The operands that are reduced with a node have the property if the node does. -/
  branches : ∀ {cx expr n}, P cx expr → cx.arena.find? expr = some n →
    ∀ op ∈ n.kind.branches, P cx op
  marked : ∀ {cx t}, cx.arena.Marked t.arena → t.inputLocation = cx.inputLocation → Persists P cx t
  build : ∀ {cx} other {kind : NodeKind} span, kind.isType = false → kind.accessesObject = false →
    wlp (edit (Arena.buildLike other kind span)) (fun _ => Persists P cx) cx

namespace Guards

variable (h : Guards Own P)
include h

/-- Only the arena and the input location matter. -/
theorem congr {t : Context} (harena : t.arena = cx.arena)
    (hinput : t.inputLocation = cx.inputLocation) : Persists P cx t :=
  h.marked (harena ▸ .refl) hinput

section Step

variable (hself : ∀ {p : NodeId × DiscardSite} {cx}, P cx p.1 →
  LogsAt Own (self p) cx ∧ wlp (self p) (fun _ => Persists P cx) cx)
include hself

theorem voidByKind {n : Node} {type : NodeId} (hexpr : P cx expr)
    (hn : cx.arena.find? expr = some n) :
    wlp (voidByKind self expr type loc site) (fun _ => Persists P cx) cx := by
  have hop := h.branches hexpr hn
  refine wlp_voidByKind hn (fun first second third hk => ?_) (fun lhs rhs hk => ?_)
    (fun pointer hk => ?_) fun _ _ _ _ => h.congr rfl rfl
  · rw [hk] at hop
    refine wlp_voidCond (P := fun _ => Persists P cx) (fun place => ?_) fun o t place ht => ?_
    · rw [wlp_mapM]
      cases second with
      | none => exact h.congr rfl rfl
      | some op => exact (hself (hop op (by simp [NodeKind.branches]))).2
    · refine (hself (ht third (hop third (by simp [NodeKind.branches])))).2.mono fun r u hu => ?_
      exact ⟨fun _ => ht.trans hu, fun _ _ _ => ht.trans hu,
        fun _ _ _ => wlp_map.2 ((h.build _ _ rfl rfl).mono fun _ _ hv => (ht.trans hu).trans hv)⟩
  · rw [hk] at hop
    refine wlp_voidComma fun place => ?_
    refine (hself (hop rhs (by simp [NodeKind.branches]))).2.mono fun r t ht => ?_
    exact ⟨fun _ => ht, fun _ _ => ht,
      fun _ _ => wlp_map.2 ((h.build _ _ rfl rfl).mono fun _ _ hv => ht.trans hv)⟩
  · exact wlp_voidDeref (fun _ _ => h.congr rfl rfl) fun _ _ => h.congr rfl rfl

theorem logsAt_voidByKind {n : Node} {type : NodeId} (hexpr : P cx expr)
    (hn : cx.arena.find? expr = some n) (ht : n.type = some type)
    (hreports : ReportsOf Own expr n loc cx) :
    LogsAt Own (Pass.voidByKind self expr type loc site) cx := by
  have hop := h.branches hexpr hn
  refine Pass.logsAt_voidByKind hn ht (fun first second third hk => ?_) (fun lhs rhs hk => ?_)
    hreports h.ignored
  · rw [hk] at hop
    refine logsAt_voidCond (P := Persists P cx) (fun _ => h.congr rfl rfl)
      (fun op hsecond place => ?_)
      fun place t ht => (hself (ht third (hop third (by simp [NodeKind.branches])))).1
    exact hself (hop op (by simp [NodeKind.branches, Option.mem_def.1 hsecond]))
  · rw [hk] at hop
    exact logsAt_voidComma fun place => (hself (hop rhs (by simp [NodeKind.branches]))).1

/-- One level of the reduction of any node, where the discarded use of the node establishes the
property. -/
theorem logsAt_toVoidStep (hdiscard : ∀ loc level,
      cx.arena.locationOf expr cx.inputLocation = .ok loc →
      wlp (classifyDiscarded expr) (Discards Own P cx loc) { cx with nesting := level }) :
    LogsAt Own (Pass.toVoidStep self (expr, site)) cx := by
  refine Pass.logsAt_toVoidStep h.deep hdiscard fun loc r t u ht hne hmark hinput => ?_
  have hr : P u r := h.marked hmark hinput r (ht.left hne)
  exact logsAt_voidTyped fun n type hn htype =>
    h.logsAt_voidByKind hself hr hn htype (ht.reports hne u n hr hmark hinput hn)

theorem voidNode (hexpr : P cx expr) (hloc : cx.arena.locationOf expr cx.inputLocation = .ok loc) :
    wlp (voidNode self expr loc site) (fun _ => Persists P cx) cx := by
  unfold Pass.voidNode
  rw [wlp_bind]
  refine (h.discard hexpr hloc).mono fun r t ht => ?_
  rw [wlp_bind, wlp_query]
  intro erroneous herr
  cases erroneous with
  | true => exact wlp_pure.2 ht.persists
  | false =>
    have hne : r ≠ .error := by
      rintro rfl
      cases herr
    rw [if_neg Bool.false_ne_true, wlp_bind]
    refine (wlp_read.and (passive_recordRead.when t)).mono fun _ u hu => ?_
    have hread : Persists P t u := h.marked hu.1 hu.2.inputLocation.symm
    refine wlp_voidTyped (fun _ _ _ => ht.persists.trans hread) fun n type hn _ _ => ?_
    refine (h.voidByKind hself (hread r (ht.left hne)) hn).mono fun o v hv => ?_
    have hend : Persists P cx v := (ht.persists.trans hread).trans hv
    exact ⟨fun e _ => wlp_collapse (fun _ => hend) fun _ => hend, fun _ => hend⟩

theorem toVoidStep (hexpr : P cx expr) :
    wlp (toVoidStep self (expr, site)) (fun _ => Persists P cx) cx := by
  have hstay : ∀ {t : Context}, t.arena = cx.arena → t.inputLocation = cx.inputLocation →
      Persists P cx t := h.congr
  unfold Pass.toVoidStep
  rw [wlp_bind, wlp_query]
  intro erroneous _
  split
  · exact wlp_pure.2 (hstay rfl rfl)
  rw [wlp_bind, wlp_location]
  intro loc hloc
  refine wlp_level (fun inner _ => ?_) fun _ _ => hstay rfl rfl
  have hinner : Persists P cx { cx with nesting := inner } := hstay rfl rfl
  exact (h.voidNode hself (hinner expr hexpr) hloc).mono fun r t ht _ _ =>
    (hinner.trans ht).trans (h.congr rfl rfl)

end Step

theorem discard_nested (hexpr : P cx expr) (loc : Span) (level : Nesting)
    (hloc : cx.arena.locationOf expr cx.inputLocation = .ok loc) :
    wlp (classifyDiscarded expr) (Discards Own P cx loc) { cx with nesting := level } := by
  have hlevel : Persists P cx { cx with nesting := level } := h.congr rfl rfl
  have hdiscards : wlp (classifyDiscarded expr) (Discards Own P { cx with nesting := level } loc)
      { cx with nesting := level } := h.discard (hlevel expr hexpr) hloc
  exact hdiscards.mono fun r t ht => ⟨hlevel.trans ht.persists, ht.left, ht.reports⟩

/-- What holds of a reduction so many levels deep. -/
theorem unroll (room : Nat) {p : NodeId × DiscardSite} (hp : P cx p.1) :
    LogsAt Own (unroll Pass.toVoidStep room p) cx ∧
      wlp (unroll Pass.toVoidStep room p) (fun _ => Persists P cx) cx := by
  induction room generalizing p cx with
  | zero =>
    exact ⟨h.logsAt_toVoidStep (fun _ => ⟨logsAt_throw _, wlp_throw⟩) (h.discard_nested hp),
      h.toVoidStep (fun _ => ⟨logsAt_throw _, wlp_throw⟩) hp⟩
  | succ room ih => exact ⟨h.logsAt_toVoidStep ih (h.discard_nested hp), h.toVoidStep ih hp⟩

/-- What a reduction reports, where the discarded use of the expression establishes the property. -/
theorem logsAt_toVoid_of (hdiscard : ∀ loc level,
      cx.arena.locationOf expr cx.inputLocation = .ok loc →
      wlp (classifyDiscarded expr) (Discards Own P cx loc) { cx with nesting := level }) :
    LogsAt Own (Pass.toVoid expr site) cx := by
  show LogsAt Own (ExprTree.unroll Pass.toVoidStep cx.nesting.room (expr, site)) cx
  cases cx.nesting.room with
  | zero => exact h.logsAt_toVoidStep (fun _ => ⟨logsAt_throw _, wlp_throw⟩) hdiscard
  | succ room => exact h.logsAt_toVoidStep (h.unroll room) hdiscard

theorem logsAt_toVoid (hexpr : P cx expr) : LogsAt Own (Pass.toVoid expr site) cx :=
  h.logsAt_toVoid_of (h.discard_nested hexpr)

end Guards

end Pass

end ExprTree
