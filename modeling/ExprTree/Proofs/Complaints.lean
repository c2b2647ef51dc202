import ExprTree.Proofs.ErrorReports
import ExprTree.Proofs.Resting
import ExprTree.Proofs.StateReports

/-!
# What is reported about a discarded value

The reduction of a volatile dereference, a volatile variable or a call reports what is wrong with
it, where the queue keeps such warnings.  What that is depends on the kind and the types of the
node, on the callee and on the place, and on no flag of the node.

* `Context.Tells` — a diagnostic with a code at a span has been added.
* `Arena.Ignores` — calls whose result must be used.
* `Pass.Complaint` — what is reported about a node.
* `Pass.tells_warnIgnored`, `Pass.tells_toVoid` — it is reported.
-/

namespace ExprTree

/-- Notes do not say where a diagnostic is. -/
theorem Diagnostic.primarySpan?_withLabels {d : Diagnostic} {span : Span}
    (hd : d.primarySpan? = some span) (notes : List Label) :
    (d.withLabels notes).primarySpan? = some span := by
  obtain ⟨label, hlabel, rfl⟩ := Option.map_eq_some_iff.1 hd
  rw [Diagnostic.primarySpan?, Diagnostic.withLabels, List.find?_append, hlabel]
  rfl

/-- A diagnostic with this code at this span has been added. -/
def Context.Tells (code : Code) (span : Span) (cx t : Context) : Prop :=
  ∃ ds, HasContext.diagnostics t = HasContext.diagnostics cx ++ ds ∧
    ∃ d ∈ ds, d.code = code ∧ d.primarySpan? = some span

/-- The queue keeps what it kept before, after the diagnostics that were there. -/
structure Context.Continues (cx t : Context) : Prop where
  config_eq : t.queue.config = cx.queue.config
  inputLocation_eq : t.inputLocation = cx.inputLocation
  appends : HasContext.diagnostics cx <+: HasContext.diagnostics t

namespace Context

variable {code : Code} {span : Span} {cx t u : Context}

theorem Continues.trans (h : cx.Continues t) (h' : t.Continues u) : cx.Continues u :=
  ⟨h'.config_eq.trans h.config_eq, h'.inputLocation_eq.trans h.inputLocation_eq,
    h.appends.trans h'.appends⟩

theorem Continues.keepsWarning (h : cx.Continues t) (hkeeps : cx.queue.keepsWarning code = true) :
    t.queue.keepsWarning code = true := by
  unfold Queue.keepsWarning Queue.isEnabled
  rw [h.config_eq]
  exact hkeeps

theorem Tells.after (h : Tells code span t u) (ht : cx.Continues t) : Tells code span cx u := by
  obtain ⟨ds, hds, d, hd, hkey⟩ := h
  obtain ⟨es, hes⟩ := ht.appends
  exact ⟨es ++ ds, by rw [hds, ← hes, List.append_assoc], d, List.mem_append_right es hd, hkey⟩

end Context

/-- A call ignores what it returns although that must be used. -/
def Arena.Ignores (a : Arena) (call : NodeId) : Prop :=
  ∃ n callee args result function demand, a.find? call = some n ∧
    n.kind = .call (some callee) args ∧ a.callResult? callee = .ok (some result) ∧
    a.calledFunction? callee = .ok function ∧ a.mustUse? function result = some demand

/-- Reads do not matter. -/
theorem Arena.Ignores.marked {a b : Arena} {call : NodeId} (h : a.Ignores call) (hab : a.Marked b) :
    b.Ignores call := by
  obtain ⟨n, callee, args, result, function, demand, hn, hk, hresult, hfunction, hdemand⟩ := h
  have hsame := hab.sameButReads
  have hdemand' : b.mustUse? function result = a.mustUse? function result :=
    Except.ok.inj (hsame.eq (q := fun a => .ok (a.mustUse? function result)) fun _ => rfl).symm
  obtain ⟨m, hm, hmn⟩ := hab.find? hn
  exact ⟨m, callee, args, result, function, demand, hm, (congrArg Node.kind hmn :).trans hk,
    (hsame.eq (q := (·.callResult? callee)) (·.callResult?_unread callee)).symm.trans hresult,
    (hsame.eq (q := (·.calledFunction? callee)) (·.calledFunction?_unread callee)).symm.trans
      hfunction,
    hdemand'.trans hdemand⟩

/-- What evaluates such a call is the call or a temporary. -/
theorem Arena.Ignores.kind_of_discarded {a : Arena} {expr call : NodeId} {n : Node}
    (h : a.Ignores call) (hn : a.find? expr = some n) (hcall : a.discardedCall expr = .ok call) :
    (∃ slot initial, n.kind = .target slot initial) ∨
      ∃ callee args, n.kind = .call (some callee) args := by
  obtain ⟨m, callee, args, -, -, -, hm, hk, -⟩ := h
  have hcall := Except.ok.inj ((map_kindOf_of_find? hn).symm.trans hcall)
  split at hcall
  · rename_i hk
    exact .inl ⟨_, _, hk⟩
  · cases hcall
    cases hn.symm.trans hm
    exact .inr ⟨callee, args, hk⟩

namespace Pass

open ExprTree.Action HasContext Reading

variable {cx t : Context} {expr inner : NodeId} {n : Node} {loc span : Span} {site : DiscardSite}
  {code : Code}

/-- What is reported about a node of some kind and type whose value is discarded, whatever its
flags: the code, and the span where the node is at `loc`. -/
inductive Complaint (a : Arena) (input : Span) (site : DiscardSite) (expr : NodeId) (k : NodeKind)
    (type : NodeId) (loc : Span) : Code → Span → Prop
  | incompleteTarget {pointer : NodeId} (hk : k = .unary .deref pointer)
    (hvolatile : a.isVolatile type = .ok true) (hcomplete : a.isComplete type = .ok false) :
    Complaint a input site expr k type loc .incompleteTarget loc
  | untouchedReference {pointer : NodeId} (hk : k = .unary .deref pointer)
    (hvolatile : a.isVolatile type = .ok true) (hcomplete : a.isComplete type = .ok true)
    (href : a.isReference pointer = .ok true) :
    Complaint a input site expr k type loc .untouchedReference loc
  | addressableTarget {pointer : NodeId} (hk : k = .unary .deref pointer)
    (hvolatile : a.isVolatile type = .ok true) (hcomplete : a.isComplete type = .ok true)
    (href : a.isReference pointer = .ok false) (haddressable : a.isAddressable type = .ok true) :
    Complaint a input site expr k type loc .addressableTarget loc
  | incompleteVariable {payload : Decl} (hk : k = .decl .var payload)
    (hvolatile : a.isVolatile type = .ok true) (hcomplete : a.isComplete type = .ok false) :
    Complaint a input site expr k type loc .incompleteVariable loc
  /-- A call, or a temporary that a call initializes. -/
  | ignoredResult {call : NodeId} {span : Span} (hsite : site ≠ .cast)
    (hcall : a.discardedCall expr = .ok call) (hignores : a.Ignores call)
    (hloc : a.locationOf call input = .ok span) :
    Complaint a input site expr k type loc .ignoredResult span
  /-- A call that is left of a dereference. -/
  | ignoredPointer {pointer : NodeId} {span : Span} (hsite : site ≠ .cast)
    (hk : k = .unary .deref pointer) (hvolatile : a.isVolatile type = .ok false)
    (hignores : a.Ignores pointer) (hloc : a.locationOf pointer input = .ok span) :
    Complaint a input site expr k type loc .ignoredResult span

/-- Reads do not matter. -/
theorem Complaint.marked {a b : Arena} {input : Span} {k : NodeKind} {type : NodeId}
    (h : Complaint a input site expr k type loc code span) (hab : a.Marked b) :
    Complaint b input site expr k type loc code span := by
  have hsame := hab.sameButReads
  have hvolatile : b.isVolatile type = a.isVolatile type :=
    (hsame.eq (q := (·.isVolatile type)) (·.isVolatile_unread type)).symm
  have hcomplete : b.isComplete type = a.isComplete type :=
    (hsame.eq (q := (·.isComplete type)) (·.isComplete_unread type)).symm
  have haddressable : b.isAddressable type = a.isAddressable type :=
    (hsame.eq (q := (·.isAddressable type)) (·.isAddressable_unread type)).symm
  have href : ∀ pointer, b.isReference pointer = a.isReference pointer := fun pointer =>
    (hsame.eq (q := (·.isReference pointer)) (·.isReference_unread pointer)).symm
  have hcall : b.discardedCall expr = a.discardedCall expr :=
    (hsame.eq (q := (·.discardedCall expr)) (·.discardedCall_unread expr)).symm
  have hloc : ∀ id, b.locationOf id input = a.locationOf id input := fun id =>
    (hsame.eq (q := (·.locationOf id input)) (·.locationOf_unread id input)).symm
  cases h with
  | incompleteTarget hk hv hc =>
    exact .incompleteTarget hk (hvolatile.trans hv) (hcomplete.trans hc)
  | untouchedReference hk hv hc hr =>
    exact .untouchedReference hk (hvolatile.trans hv) (hcomplete.trans hc) ((href _).trans hr)
  | addressableTarget hk hv hc hr ha =>
    exact .addressableTarget hk (hvolatile.trans hv) (hcomplete.trans hc) ((href _).trans hr)
      (haddressable.trans ha)
  | incompleteVariable hk hv hc =>
    exact .incompleteVariable hk (hvolatile.trans hv) (hcomplete.trans hc)
  | ignoredResult hsite hc hignores hl =>
    exact .ignoredResult hsite (hcall.trans hc) (hignores.marked hab) ((hloc _).trans hl)
  | ignoredPointer hsite hk hv hignores hl =>
    exact .ignoredPointer hsite hk (hvolatile.trans hv) (hignores.marked hab) ((hloc _).trans hl)

/-! ### Warnings that are kept -/

theorem wlp_warn (hkeeps : cx.queue.keepsWarning code = true) (message : String) :
    wlp (warn code loc message) (fun accepted t => accepted = true ∧
      t.queue.lastAccepted = true ∧
      diagnostics t = diagnostics cx ++ [warning code loc message]) cx := by
  have hkept : (cx.queue.offerWarning (warning code loc message)).1 = true := by
    rw [Queue.offerWarning,
      if_pos (show cx.queue.keepsWarning (warning code loc message).code = true from hkeeps)]
  have hlast := cx.queue.lastAccepted_offerWarning (warning code loc message)
  have hcx := cx.queue.diagnostics_offerWarning (warning code loc message)
  rw [hkept] at hlast hcx
  rintro _ _ ⟨⟩
  exact ⟨hkept, hlast, hcx⟩

theorem tells_warn (hkeeps : cx.queue.keepsWarning code = true) (message : String) :
    wlp (discard (warn code loc message)) (fun _ => cx.Tells code loc) cx := by
  rw [wlp_discard]
  refine (wlp_warn hkeeps message).mono fun _ t ht => ?_
  exact ⟨_, ht.2.2, _, List.mem_singleton.2 rfl, rfl, rfl⟩

/-- A warning and what explains it. -/
theorem tells_warn_annotated {p : Pass Unit} (hp : Annotates p)
    (hkeeps : cx.queue.keepsWarning code = true) (message : String) :
    wlp (warn code loc message >>= fun accepted => Pass.when accepted p)
      (fun _ => cx.Tells code loc) cx := by
  rw [wlp_bind]
  refine (wlp_warn hkeeps message).mono ?_
  rintro _ t ⟨rfl, hlast, ht⟩ r u hrun
  obtain ⟨-, notes, -, hu⟩ := hp t _ _ hlast ht
  rw [last_eq_of_ok (show p t = .ok r u from hrun)] at hu
  exact ⟨_, hu, _, List.mem_singleton.2 rfl, rfl, Diagnostic.primarySpan?_withLabels rfl notes⟩

theorem tells_warnVolatile {type : NodeId} {reference : Bool}
    (hkeeps : cx.queue.keepsWarning code = true)
    (hcode : code = .incompleteTarget ∧ cx.arena.isComplete type = .ok false ∨
      cx.arena.isComplete type = .ok true ∧ (code = .untouchedReference ∧ reference = true ∨
        code = .addressableTarget ∧ reference = false ∧ cx.arena.isAddressable type = .ok true)) :
    wlp (warnVolatile site loc reference type) (fun _ => cx.Tells code loc) cx := by
  unfold warnVolatile
  rw [wlp_bind, wlp_query]
  intro spelled _
  rw [wlp_bind, wlp_query]
  intro complete hcomplete
  rcases hcode with ⟨rfl, h⟩ | ⟨h, ⟨rfl, rfl⟩ | ⟨rfl, rfl, haddressable⟩⟩ <;>
    cases hcomplete.symm.trans h
  · exact tells_warn hkeeps _
  · exact tells_warn hkeeps _
  · simp only [Bool.not_true, Bool.false_eq_true, if_false]
    rw [wlp_bind, wlp_query, haddressable]
    rintro _ ⟨⟩
    exact tells_warn hkeeps _

theorem tells_warnVariable {name : Name} {type : NodeId}
    (hkeeps : cx.queue.keepsWarning .incompleteVariable = true)
    (hvolatile : cx.arena.isVolatile type = .ok true)
    (hcomplete : cx.arena.isComplete type = .ok false) :
    wlp (warnVariable name type loc site) (fun _ => cx.Tells .incompleteVariable loc) cx := by
  unfold warnVariable
  rw [wlp_bind, wlp_query, hvolatile]
  rintro _ ⟨⟩
  rw [if_pos rfl, wlp_bind, wlp_query, hcomplete]
  rintro _ ⟨⟩
  rw [Bool.not_false, if_pos rfl, wlp_bind, wlp_query]
  intro spelled _
  rw [wlp_bind, wlp_get]
  exact tells_warn hkeeps _

/-- A call that ignores what it returns is reported, unless it is cast. -/
theorem tells_warnIgnored {call : NodeId} (hkeeps : cx.queue.keepsWarning .ignoredResult = true)
    (hsite : site ≠ .cast) (hcall : cx.arena.discardedCall expr = .ok call)
    (hignores : cx.arena.Ignores call)
    (hloc : cx.arena.locationOf call cx.inputLocation = .ok span) :
    wlp (warnIgnored expr site) (fun _ => cx.Tells .ignoredResult span) cx := by
  obtain ⟨n, callee, args, result, function, demand, hn, hk, hresult, hfunction, hdemand⟩ :=
    hignores
  have hkind : cx.arena.kindOf call = .ok (.call (some callee) args) :=
    (Arena.map_node_of_find? hn).trans (congrArg Except.ok hk)
  unfold warnIgnored
  rw [wlp_bind, wlp_query, hcall]
  rintro _ ⟨⟩
  rw [wlp_bind, wlp_query, hkind]
  rintro _ ⟨⟩
  dsimp only
  rw [wlp_bind, wlp_query, hresult]
  rintro _ ⟨⟩
  dsimp only
  rw [wlp_when, if_pos (bne_iff_ne.2 hsite)]
  unfold warnIgnoredCall
  rw [wlp_bind, wlp_query, hfunction]
  rintro _ ⟨⟩
  rw [wlp_bind, wlp_location]
  intro loc hloc'
  obtain rfl : span = loc := Except.ok.inj (hloc.symm.trans hloc')
  rw [wlp_bind, wlp_query]
  rintro _ ⟨⟩
  rw [hdemand]
  have h := annotates_notes
  cases demand with
  | function function reason =>
    dsimp only [warnIgnoredFunction]
    rw [wlp_bind, wlp_query]
    exact fun name _ => tells_warn_annotated (h.noteAt _ _) hkeeps _
  | type reason =>
    dsimp only [warnIgnoredType]
    rw [wlp_bind, wlp_query]
    exact fun spelled _ =>
      tells_warn_annotated (.bind (h.noteFunction _) fun _ => h.noteType _ _) hkeeps _

/-! ### Reductions -/

/-- Passes report behind what has been reported, and leave what the queue keeps. -/
theorem continues {α : Type} {p : Pass α}
    (hlaw : ∀ {P : ∀ {α : Type}, Pass α → Prop}, Law P → P p)
    (hinput : wlp p (fun _ t => t.inputLocation = cx.inputLocation) cx) :
    wlp p (fun _ => cx.Continues) cx := by
  intro r t hrun
  have hcounts : cx.Counts t := hlaw keepsErrors_law cx r t hrun
  have hadds : Law (OnlyAdds fun _ => True) := onlyAdds_law fun _ _ => trivial
  have hprefix := (hlaw hadds).appends cx
  rw [last_eq_of_ok hrun] at hprefix
  exact ⟨hcounts.config_eq, hinput r t hrun, hprefix⟩

/-- A volatile target is reported before the dereference stays. -/
theorem tells_voidDeref_volatile {pointer type : NodeId}
    (hvolatile : cx.arena.isVolatile type = .ok true)
    (hwarn : ∀ reference, cx.arena.isReference pointer = .ok reference →
      wlp (warnVolatile site loc reference type) (fun _ => cx.Tells code span) cx) :
    wlp (voidDeref expr pointer type loc site) (fun _ => cx.Tells code span) cx := by
  unfold voidDeref
  rw [wlp_bind, wlp_query]
  intro reference href
  rw [wlp_bind, wlp_query, hvolatile]
  rintro _ ⟨⟩
  rw [if_pos rfl, wlp_bind]
  exact (hwarn reference href).mono fun _ _ ht => wlp_pure.2 ht

/-- A call that is left of a dereference is reported after the unused value. -/
theorem tells_voidDeref_call {pointer type : NodeId}
    (hkeeps : cx.queue.keepsWarning .ignoredResult = true) (hsite : site ≠ .cast)
    (hvolatile : cx.arena.isVolatile type = .ok false) (hignores : cx.arena.Ignores pointer)
    (hloc : cx.arena.locationOf pointer cx.inputLocation = .ok span) :
    wlp (voidDeref expr pointer type loc site) (fun _ => cx.Tells .ignoredResult span) cx := by
  obtain ⟨m, callee, args, -, -, -, hm, hk, -⟩ := id hignores
  have hkind : cx.arena.kindOf pointer = .ok (.call (some callee) args) :=
    (Arena.map_node_of_find? hm).trans (congrArg Except.ok hk)
  have hcall : cx.arena.discardedCall pointer = .ok pointer := by
    rw [Arena.discardedCall, hkind]
    rfl
  unfold voidDeref
  rw [wlp_bind, wlp_query]
  intro reference _
  rw [wlp_bind, wlp_query, hvolatile]
  rintro _ ⟨⟩
  rw [if_neg Bool.false_ne_true, wlp_bind]
  have hunused := @quiet_warnUnusedValue site loc reference expr
  refine (hunused cx |>.and (continues
    (fun h => h.warnUnusedValue site site trivial .rfl loc reference expr)
    (hunused.wlp fun _ _ => rfl))).mono ?_
  rintro _ t ⟨ht, hcontinues⟩
  have harena : t.arena = cx.arena := by rw [ht]
  rw [wlp_bind, wlp_query, harena, hkind]
  rintro _ ⟨⟩
  rw [wlp_bind, wlp_when, if_pos (show (NodeKind.call (some callee) args).isCall = true from rfl)]
  refine (tells_warnIgnored (hcontinues.keepsWarning hkeeps) hsite (harena ▸ hcall)
    (harena ▸ hignores) ?_).mono fun _ u hu => wlp_pure.2 (hu.after hcontinues)
  rw [harena, hcontinues.inputLocation_eq, hloc]

/-- What is complained of is reported. -/
theorem tells_voidByKind {type : NodeId} {self : NodeId × DiscardSite → Pass NodeId}
    (hkeeps : cx.queue.keepsWarning code = true) (hn : cx.arena.find? expr = some n)
    (h : Complaint cx.arena cx.inputLocation site expr n.kind type loc code span) :
    wlp (voidByKind self expr type loc site) (fun _ => cx.Tells code span) cx := by
  have hkind : cx.arena.kindOf expr = .ok n.kind := Arena.map_node_of_find? hn
  unfold voidByKind
  rw [wlp_bind, wlp_query, hkind]
  rintro _ ⟨⟩
  cases h with
  | incompleteTarget hk hvolatile hcomplete =>
    rw [hk, wlp_map]
    exact tells_voidDeref_volatile hvolatile fun _ _ =>
      tells_warnVolatile hkeeps (.inl ⟨rfl, hcomplete⟩)
  | untouchedReference hk hvolatile hcomplete href =>
    rw [hk, wlp_map]
    exact tells_voidDeref_volatile hvolatile fun reference href' =>
      tells_warnVolatile hkeeps
        (.inr ⟨hcomplete, .inl ⟨rfl, Except.ok.inj (href'.symm.trans href)⟩⟩)
  | addressableTarget hk hvolatile hcomplete href haddressable =>
    rw [hk, wlp_map]
    exact tells_voidDeref_volatile hvolatile fun reference href' =>
      tells_warnVolatile hkeeps (.inr ⟨hcomplete, .inr ⟨rfl, Except.ok.inj (href'.symm.trans href),
        haddressable⟩⟩)
  | incompleteVariable hk hvolatile hcomplete =>
    rw [hk, wlp_bind]
    exact (tells_warnVariable hkeeps hvolatile hcomplete).mono fun _ _ ht => wlp_pure.2 ht
  | ignoredResult hsite hcall hignores hloc =>
    have hwarn := tells_warnIgnored hkeeps hsite hcall hignores hloc
    rcases hignores.kind_of_discarded hn hcall with ⟨slot, initial, hk⟩ | ⟨callee, args, hk⟩ <;>
    · rw [hk, wlp_bind]
      exact hwarn.mono fun _ _ ht => wlp_pure.2 ht
  | ignoredPointer hsite hk hvolatile hignores hloc =>
    rw [hk, wlp_map]
    exact tells_voidDeref_call hkeeps hsite hvolatile hignores hloc

/-- What comes after the discarded use and the read still reports what was complained of before
them, since neither changes more than reads. -/
theorem tells_voidTyped {type : NodeId} {self : NodeId × DiscardSite → Pass NodeId}
    (hn : cx.arena.find? inner = some n) (htype : n.type = some type)
    (hvoid : cx.arena.isVoidType type = .ok false)
    (hkeeps : cx.queue.keepsWarning code = true)
    (h : Complaint cx.arena cx.inputLocation site inner n.kind type loc code span)
    (hmark : cx.arena.Marked t.arena) (ht : cx.Continues t) :
    wlp (voidTyped self inner loc site) (fun _ => cx.Tells code span) t := by
  obtain ⟨m, hm, hmn⟩ := hmark.find? hn
  have hmtype : m.type = some type := (congrArg Node.type hmn :).trans htype
  have hvoid' : t.arena.isVoidType type = .ok false :=
    (hmark.sameButReads.eq (q := (·.isVoidType type)) (·.isVoidType_unread type)).symm.trans hvoid
  refine wlp_voidTyped (fun m' hm' hless => ?_) fun m' type' hm' htype' _ => ?_
  · cases hm.symm.trans hm'
    cases hvoid'.symm.trans (hless type hmtype)
  · cases hm.symm.trans hm'
    cases htype'.symm.trans hmtype
    have hcomplaint : Complaint t.arena t.inputLocation site inner m.kind type loc code span := by
      have hk : m.kind = n.kind := (congrArg Node.kind hmn :)
      rw [ht.inputLocation_eq, hk]
      exact h.marked hmark
    refine (tells_voidByKind (ht.keepsWarning hkeeps) hm hcomplaint).mono fun o u hu => ?_
    exact ⟨fun _ _ => wlp_collapse (fun _ => hu.after ht) fun _ => hu.after ht,
      fun _ => hu.after ht⟩

theorem continues_classifyDiscarded : wlp (classifyDiscarded expr) (fun _ => cx.Continues) cx :=
  continues (fun h => h.classifyDiscarded expr) (keepsInputLocation_twins.classifyDiscarded expr _)

theorem continues_when_recordRead (b : Bool) :
    wlp (Pass.when b (recordRead expr)) (fun _ => cx.Continues) cx :=
  continues (fun h => @Composes.when _ h.toComposes _ (recordRead expr) (h.recordRead expr) _)
    ((passive_recordRead.when cx).mono fun _ _ ht => ht.inputLocation.symm)

/-- A node whose use follows no operand is what its discarded use leaves, so it is what is complained
of; the error node is all that may come instead. -/
theorem tells_voidNode {type : NodeId} {self : NodeId × DiscardSite → Pass NodeId}
    (hs : cx.arena.stripWrapper expr = .ok inner) (hn : cx.arena.find? inner = some n)
    (hrests : cx.arena.Rests n) (htype : n.type = some type)
    (hvoid : cx.arena.isVoidType type = .ok false)
    (hkeeps : cx.queue.keepsWarning code = true)
    (h : Complaint cx.arena cx.inputLocation site inner n.kind type loc code span) :
    wlp (voidNode self expr loc site) (fun r t => r ≠ .error → cx.Tells code span t) cx := by
  have hidle : wlp (classifyDiscarded expr) (fun r t => Idles cx.arena inner r t.arena) cx :=
    classifyDiscarded_rests hs hn hrests
  unfold voidNode
  rw [wlp_bind]
  refine (hidle.and continues_classifyDiscarded).mono ?_
  rintro r t ⟨⟨hr, hmark⟩, ht⟩
  rw [wlp_bind, wlp_query]
  intro erroneous herr
  cases erroneous with
  | true => exact wlp_pure.2 fun hne => absurd rfl hne
  | false =>
    have hne : r ≠ .error := by
      rintro rfl
      cases herr
    obtain rfl := hr.resolve_right hne
    rw [if_neg Bool.false_ne_true, wlp_bind]
    refine (wlp_read.and (continues_when_recordRead _)).mono fun _ u ⟨hread, hu⟩ => ?_
    exact (tells_voidTyped hn htype hvoid hkeeps h (hmark.trans hread) (ht.trans hu)).mono
      fun _ _ hv _ => hv

/-- A node whose use follows no operand is reported where it is complained of, unless the answer is
the error node: the expression is erroneous then, or nested too deeply. -/
theorem tells_toVoid {type : NodeId} (hs : cx.arena.stripWrapper expr = .ok inner)
    (hn : cx.arena.find? inner = some n) (hrests : cx.arena.Rests n) (htype : n.type = some type)
    (hvoid : cx.arena.isVoidType type = .ok false)
    (hloc : cx.arena.locationOf expr cx.inputLocation = .ok loc)
    (hkeeps : cx.queue.keepsWarning code = true)
    (h : Complaint cx.arena cx.inputLocation site inner n.kind type loc code span) :
    wlp (toVoid expr site) (fun r t => r ≠ .error → cx.Tells code span t) cx := by
  refine wlp_recursively_of_step fun self => ?_
  unfold toVoidStep
  rw [wlp_bind, wlp_query]
  intro erroneous _
  split
  · exact wlp_pure.2 fun hne => absurd rfl hne
  rw [wlp_bind, wlp_location]
  intro loc' hloc'
  obtain rfl : loc = loc' := Except.ok.inj (hloc.symm.trans hloc')
  refine wlp_level (fun level _ => ?_) fun _ _ hne => absurd rfl hne
  have hbody : wlp (voidNode self expr loc site) (fun r t => r ≠ .error → cx.Tells code span t)
      { cx with nesting := level } := tells_voidNode hs hn hrests htype hvoid hkeeps h
  exact hbody.mono fun r t ht _ _ => ht

end Pass

end ExprTree
