import ExprTree.Proofs.Complaints
import ExprTree.Proofs.SpanSources

/-!
# Suppressed warnings

Flags of a node switch warnings off.  The warning about an unused value heeds them: it is only given
for dereferences without the flags, wherever in an expression they are.  No other warning about a
discarded value heeds the flags of the node it is about.

* `Node.Unsuppressed` — dereferences whose values may be reported as unused.
* `Arena.Follows` — arenas in which only dereferences of references are new.
* `Pass.AboutDereference` — reports about such a dereference, at a node on the way to it.
* `Pass.guards_following` — what is reported as unused anywhere in an expression.
* `Pass.logsAt_suppressed` — what is reported as unused about a suppressed node.
* `Pass.suppressed_reports` — what flags do to the reports of a reduction.
-/

namespace ExprTree

theorem NodeFlags.has_of_not_intersects {a b : NodeFlags} {f : Flag} (h : a.intersects b = false)
    (hf : b.has f = true) : a.has f = false := by
  have hzero : a.inter b = .empty := by
    have hbits : (a.inter b).bits = 0 := by simpa [intersects] using h
    exact congrArg NodeFlags.mk hbits
  have hboth : (a.inter b).has f = false := by rw [hzero, has_empty]
  simpa [hf] using hboth

/-- A dereference whose value may be reported as unused. -/
structure Node.Unsuppressed (n : Node) : Prop where
  deref : ∃ pointer, n.kind = .unary .deref pointer
  noWarning : n.flags.has .noWarning = false
  noUnusedValueWarning : n.flags.has .noUnusedValueWarning = false

namespace Arena

variable {a b : Arena} {id : NodeId} {n m : Node}

theorem flags_of_not_suppresses (hn : a.find? id = some n)
    (h : a.suppresses id (.single .noUnusedValueWarning) = .ok false) :
    n.flags.has .noWarning = false ∧ n.flags.has .noUnusedValueWarning = false := by
  rw [suppresses, flagsOf, map_node_of_find? hn] at h
  have hnone := Except.ok.inj h
  exact ⟨NodeFlags.has_of_not_intersects hnone (by decide),
    NodeFlags.has_of_not_intersects hnone (by decide)⟩

/-- An arena has evolved from another, and only dereferences of references are new in it. -/
structure Follows (a b : Arena) : Prop where
  evolves : a.Evolves b
  deref : ∀ id n pointer, b.find? id = some n → n.kind = .unary .deref pointer →
    a.find? id = none → b.isReference pointer = .ok true

theorem Follows.refl (a : Arena) : a.Follows a :=
  ⟨.refl a, fun _ _ _ hn _ hnone => by cases hn.symm.trans hnone⟩

theorem Follows.change {f : Node → Node} (h : a.Follows b) (hn : b.find? id = some n)
    (hb : n.Becomes (f n)) (hf : ∀ pointer, (f n).kind = .unary .deref pointer →
      a.find? id = none → b.isReference pointer = .ok true) : a.Follows (b.change id f) := by
  have hev : b.Evolves (b.change id f) := evolves_change hn hb
  refine ⟨h.evolves.trans hev, fun other m pointer hm hk hnone => ?_⟩
  rcases find?_change_cases hn hm with ⟨rfl, rfl⟩ | hm
  · exact hev.isReference (hf pointer hk hnone)
  · exact hev.isReference (h.deref other m pointer hm hk hnone)

theorem Follows.append (h : a.Follows b) (hev : b.Evolves (b.append m))
    (hm : ∀ pointer, m.kind = .unary .deref pointer → b.isReference pointer = .ok true) :
    a.Follows (b.append m) := by
  refine ⟨h.evolves.trans hev, fun other n pointer hn hk hnone => ?_⟩
  rcases find?_append_cases hn with ⟨rfl, rfl⟩ | hn
  · exact hev.isReference (hm pointer hk)
  · exact hev.isReference (h.deref other n pointer hn hk hnone)

/-- A dereference that is not suppressed, of a pointer that is no reference, was there before. -/
theorem Follows.unsuppressed (h : a.Follows b) {pointer : NodeId} (hn : b.find? id = some n)
    (hk : n.kind = .unary .deref pointer) (href : b.isReference pointer = .ok false)
    (hs : b.suppresses id (.single .noUnusedValueWarning) = .ok false) :
    ∃ m, a.find? id = some m ∧ m.Unsuppressed := by
  obtain ⟨hwarning, hvalue⟩ := flags_of_not_suppresses hn hs
  cases hm : a.find? id with
  | none => cases href.symm.trans (h.deref id n pointer hn hk hm)
  | some m =>
    obtain ⟨n', hn', hmn⟩ := h.evolves.node id m hm
    cases hn.symm.trans hn'
    have hkind : n.kind = m.kind :=
      (NodeKind.eq_of_skeleton hmn.skeleton_eq.symm (by rw [hk]; rfl)).symm
    exact ⟨m, rfl, ⟨pointer, hkind ▸ hk⟩,
      (hmn.flag_eq _ (by decide) (by decide) (by decide)).symm.trans hwarning,
      (hmn.flag_eq _ (by decide) (by decide) (by decide)).symm.trans hvalue⟩

end Arena

namespace Reading

open Arena

/-- The reading of the arenas that follow a given one.  Nothing is said about what takes the place
of what. -/
def following (a : Arena) : Reading Unit where
  Sound b _ := a.Follows b
  Fits b _ id k := ∀ pointer, k = .unary .deref pointer → a.find? id = none →
    b.isReference pointer = .ok true
  Stands _ _ _ _ := True
  Same _ _ _ _ := True
  Extends _ _ _ _ := True

theorem following_lawful (a : Arena) : (following a).Lawful where
  extends_refl _ _ := trivial
  extends_trans _ _ := trivial
  fits_mono h hfit pointer hk hnone := h.1.isReference (hfit pointer hk hnone)
  stands_mono _ _ := trivial
  same_mono _ _ := trivial
  stands_refl _ _ _ := trivial
  stands_trans _ _ := trivial
  same_of_stands _ := trivial
  same_trans _ _ := trivial
  fits_self h hn pointer hk hnone := h.deref _ _ pointer hn hk hnone
  fits_rewritten _ hk _ pointer hd _ := absurd hd (hk.ne_deref pointer)
  unwrap _ _ _ := trivial
  touch h hn hk _ _ hb _ :=
    ⟨h.change hn hb fun pointer hd hnone => h.deref _ _ pointer hn (hk ▸ hd) hnone, trivial⟩
  rebuild h hn hfit hk hflags := ⟨h.change hn (becomes_rebuilt hk hflags) hfit, trivial⟩
  dereference := by
    rintro b _ expr pointer value target span flags h _ _ _ hv _ c hev
    refine ⟨(), h.append hev ?_, trivial, trivial⟩
    rintro _ ⟨⟩
    exact isReference_eq_true_iff.2 ⟨_, hv⟩
  reference _ _ _ _ := trivial
  access _ _ _ _ _ := trivial
  reduce h _ hk _ _ hev :=
    ⟨(), h.append hev fun pointer hd => absurd hd (hk.ne_deref pointer), trivial, trivial⟩
  nothing _ _ := trivial

end Reading

namespace Pass

open ExprTree.Action HasContext Reading

variable {a : Arena} {cx : Context} {expr : NodeId} {loc input : Span} {site : DiscardSite}

/-! ### Unused values -/

/-- A diagnostic is about a dereference of `a` that is not suppressed.  Where no handle that is read
along with `expr` dangles, the dereference is read along with `expr`, and the diagnostic is where a
node on the paths from `expr` to the dereference is, or at the input location if the span of that
node is unknown.  A handle that dangles may come to lead elsewhere, when a node is built there. -/
def AboutDereference (a : Arena) (expr : NodeId) (input : Span) (d : Diagnostic) : Prop :=
  ∃ x n span, a.find? x = some n ∧ n.Unsuppressed ∧ d.primarySpan? = some (span.orElse input) ∧
    (a.Intact expr → a.SpanBetween expr x span)

/-- An arena that follows another, under an input location, and a node in it that has come from
below an expression. -/
structure FollowsAt (a : Arena) (expr : NodeId) (input : Span) (cx : Context) (w : NodeId) :
    Prop where
  follows : a.Follows cx.arena
  input_eq : cx.inputLocation = input
  stems : a.Intact expr → a.StemsFrom expr cx.arena w

/-- A discarded use keeps the property.  If a node of the first arena is left, the node whose value
is discarded is where some node on the paths to it was. -/
theorem followsAt_classifyDiscarded {w : NodeId} (h : FollowsAt a expr input cx w) :
    wlp (classifyDiscarded w) (fun r t => Persists (FollowsAt a expr input) cx t ∧
      (r ≠ .error → FollowsAt a expr input t r ∧ ((a.find? r).isSome = true → a.Intact expr →
        ∀ n, cx.arena.find? w = some n → a.SpanBetween expr r n.span))) cx := by
  have hstems : wlp (classifyDiscarded w) (fun r t => a.Intact expr →
      (∀ y, a.StemsFrom expr cx.arena y → a.StemsFrom expr t.arena y) ∧
      (r ≠ .error → a.StemsFrom expr t.arena r ∧ ((a.find? r).isSome = true →
        ∀ n, cx.arena.find? w = some n → a.SpanBetween expr r n.span))) cx := fun r t hrun hexpr =>
    stemsFrom_classifyDiscarded h.follows.evolves (h.stems hexpr) r t hrun
  refine ((classifyDiscarded_places (following_lawful a) w cx (x := ()) ⟨h.follows, trivial⟩).and
    ((keepsInputLocation_twins.classifyDiscarded w cx).and hstems)).mono ?_
  rintro r t ⟨⟨_, ht, -, -⟩, hinput, hr⟩
  have hinput' : t.inputLocation = input := hinput.trans h.input_eq
  refine ⟨fun y hy => ⟨ht, hinput', fun hexpr => (hr hexpr).1 y (hy.stems hexpr)⟩, fun hne => ?_⟩
  exact ⟨⟨ht, hinput', fun hexpr => ((hr hexpr).2 hne).1⟩, fun hx hexpr => ((hr hexpr).2 hne).2 hx⟩

/-- A node from which a dereference is left is an expression. -/
theorem isExpression_of_classifyDiscarded {w : NodeId} {n : Node}
    (hn : cx.arena.find? w = some n) :
    wlp (classifyDiscarded w) (fun r _ => r ≠ .error → ∀ m pointer, cx.arena.find? r = some m →
      m.kind = .unary .deref pointer → n.kind.isExpression = true) cx := by
  intro r t hrun hne m pointer hm hk
  by_contra hexpr
  have hidle := classifyDiscarded_of_not_isExpression hn (Bool.eq_false_iff.2 hexpr) r t hrun
  obtain rfl : r = w := hidle.1.resolve_right hne
  cases hm.symm.trans hn
  rw [hk] at hexpr
  exact hexpr rfl

/-- A dereference that a discarded use leaves is reported where the node is whose value is
discarded. -/
theorem aboutDereference_left {w r : NodeId} {l m : Node} {message : String}
    (h : FollowsAt a expr input cx w) (hl : cx.arena.find? w = some l)
    (hloc : cx.arena.locationOf w cx.inputLocation = .ok loc) (hm : a.find? r = some m)
    (hplain : m.Unsuppressed) (hspan : a.Intact expr → a.SpanBetween expr r l.span)
    (hexpression : ∀ n pointer, cx.arena.find? r = some n → n.kind = .unary .deref pointer →
      l.kind.isExpression = true) :
    AboutDereference a expr input (warning .unusedValue loc message) := by
  obtain ⟨pointer, hk⟩ := hplain.deref
  -- the dereference was there before the use, so the node is an expression
  obtain ⟨n, hn, hnm⟩ := h.follows.evolves.node r m hm
  have hkind : n.kind = .unary .deref pointer :=
    (NodeKind.eq_of_skeleton hnm.skeleton_eq (by rw [hk]; rfl)).trans hk
  rw [Arena.locationOf, Arena.map_node_of_find? hl, if_pos (hexpression n pointer hn hkind),
    h.input_eq] at hloc
  cases hloc
  exact ⟨r, m, l.span, hm, hplain, rfl, hspan⟩

theorem guards_following (a : Arena) (expr : NodeId) (input : Span) :
    Guards (fun d => d.code = .unusedValue → AboutDereference a expr input d)
      (FollowsAt a expr input) where
  deep _ _ := nofun
  ignored _ _ := logs_warnIgnored fun d hd hcode => by cases hd.symm.trans hcode
  branches h hn op hop := ⟨h.follows, h.input_eq, fun hexpr =>
    (h.stems hexpr).operand hn (Node.mem_readOperands_of_branches hop)⟩
  marked {cx t} hmark hinput _ h :=
    ⟨(keeps_of_marked (following_lawful a) hmark () h.follows).1, hinput.trans h.input_eq,
      fun hexpr => (h.stems hexpr).marked hmark⟩
  build {cx} other kind span hk hacc := by
    rw [wlp_edit]
    refine Arena.wlp_buildLike fun m hm => Arena.wlp_build fun flags _ => ?_
    have hev := Arena.evolves_append (m := ⟨kind, m.type, flags, span⟩) hk
      fun _ ht => .inr ⟨other, m, hm, ht⟩
    refine fun _ h => ⟨h.follows.append hev fun pointer hd => ?_, h.input_eq,
      fun hexpr => (h.stems hexpr).append⟩
    rw [show kind = .unary .deref pointer from hd] at hacc
    cases hacc
  discard {cx w loc} h hloc := by
    obtain ⟨l, hl, -⟩ := Arena.map_eq_ok_iff.1 hloc
    rw [Arena.node_eq_ok_iff] at hl
    refine ((followsAt_classifyDiscarded h).and (isExpression_of_classifyDiscarded hl)).mono ?_
    rintro r t ⟨⟨hpersists, hleft⟩, hexpression⟩
    refine ⟨hpersists, fun hne => (hleft hne).1,
      fun hne u n hu _ _ hn => ⟨fun pointer type site hk _ => ?_, fun payload type site _ _ => ?_⟩⟩
    · refine logsAt_voidDeref (fun reference => logs_warnVolatile ?_) (fun reference href => ?_)
        fun _ _ => logs_warnIgnored fun d hd hcode => by cases hd.symm.trans hcode
      · rintro code message (rfl | rfl | rfl) hcode <;> cases hcode
      · refine logsAt_warnUnusedValue fun _ hpointer hs _ => ?_
        obtain ⟨m, hm, hplain⟩ := hu.follows.unsuppressed hn hk (hpointer ▸ href) hs
        exact aboutDereference_left h hl hloc hm hplain
          (fun hi => (hleft hne).2 (Option.isSome_of_mem hm) hi l hl) (hexpression hne)
    · exact logs_warnVariable (fun message hcode => by cases hcode) u

/-- Nothing is reported as unused about a node whose use follows no operand, where warnings or
warnings about unused values are switched off for the node. -/
theorem logsAt_suppressed {inner : NodeId} {n : Node} (hs : cx.arena.stripWrapper expr = .ok inner)
    (hn : cx.arena.find? inner = some n) (hrests : cx.arena.Rests n)
    (hflags : n.flags.has .noWarning = true ∨ n.flags.has .noUnusedValueWarning = true)
    (hloc : cx.arena.locationOf expr cx.inputLocation = .ok loc) :
    LogsAt (·.code ≠ .unusedValue) (toVoid expr site) cx := by
  have hignored : ∀ expr site, Logs (·.code ≠ .unusedValue) (warnIgnored expr site) :=
    fun _ _ => logs_warnIgnored fun d hd hcode => by cases hd.symm.trans hcode
  refine logsAt_toVoid_rests (fun _ _ => nofun) hignored hs hn hrests hloc fun u m _ hm hmn =>
    ⟨fun pointer type site _ _ => ?_, fun payload type site _ _ => ?_⟩
  · refine logsAt_voidDeref (fun reference => logs_warnVolatile ?_) (fun reference _ => ?_) hignored
    · rintro code message (rfl | rfl | rfl) <;> exact nofun
    · refine logsAt_warnUnusedValue fun _ _ hsuppresses => ?_
      obtain ⟨hwarning, hvalue⟩ := Arena.flags_of_not_suppresses hm hsuppresses
      have hsame : ∀ f : Flag, f ≠ .read → m.flags.has f = n.flags.has f := by
        intro f hf
        rw [← m.has_unread hf, hmn, n.has_unread hf]
      rw [hsame _ (by decide)] at hwarning hvalue
      rcases hflags with hflag | hflag
      · cases hflag.symm.trans hwarning
      · cases hflag.symm.trans hvalue
  · exact logs_warnVariable (fun message => nofun) u

/-- Flags of a node decide about one warning alone.  Away from casts, what a reduction reports as
unused is a dereference that is not suppressed, however deep in the expression it is, at the
location of a node on the way to it.  Of a node whose use follows no operand everything else is
reported whether it is suppressed or not, and so is a call whose result must be used. -/
theorem suppressed_reports (cx : Context) (expr : NodeId) (site : DiscardSite) :
    (∀ d ∈ (toVoid expr site).added cx, d.code = .unusedValue →
      site ≠ .cast ∧ AboutDereference cx.arena expr cx.inputLocation d) ∧
    (∀ inner n loc, cx.arena.stripWrapper expr = .ok inner → cx.arena.find? inner = some n →
      cx.arena.Rests n → cx.arena.locationOf expr cx.inputLocation = .ok loc →
      (n.flags.has .noWarning = true ∨ n.flags.has .noUnusedValueWarning = true →
        ∀ d ∈ (toVoid expr site).added cx, d.code ≠ .unusedValue) ∧
      (∀ type code span r t, n.type = some type → cx.arena.isVoidType type = .ok false →
        Complaint cx.arena cx.inputLocation site inner n.kind type loc code span →
        cx.queue.keepsWarning code = true → toVoid expr site cx = .ok r t → r ≠ .error →
        ∃ d ∈ (toVoid expr site).added cx, d.code = code ∧ d.primarySpan? = some span)) ∧
    (∀ call span t, site ≠ .cast → cx.arena.discardedCall expr = .ok call →
      cx.arena.Ignores call → cx.arena.locationOf call cx.inputLocation = .ok span →
      cx.queue.keepsWarning .ignoredResult = true → warnIgnored expr site cx = .ok () t →
      ∃ d ∈ (warnIgnored expr site).added cx,
        d.code = .ignoredResult ∧ d.primarySpan? = some span) := by
  have hadded : ∀ {α : Type} {p : Pass α} {r : α} {t : Context} {code : Code} {span : Span},
      p cx = .ok r t → cx.Tells code span t →
        ∃ d ∈ p.added cx, d.code = code ∧ d.primarySpan? = some span := by
    rintro α p r t code span hrun ⟨ds, hds, h⟩
    rwa [added_eq ((congrArg diagnostics (last_eq_of_ok hrun)).trans hds)]
  refine ⟨fun d hd hcode => ⟨?_, ?_⟩,
    fun inner n loc hs hn hrests hloc => ⟨fun hflags => ?_, ?_⟩, ?_⟩
  · rintro rfl
    rcases (logs_cast expr).added cx d hd with h | h
    · rw [Diagnostic.isInaccessible, hcode] at h
      cases h
    · cases hcode.symm.trans h
  · have hguards := guards_following cx.arena expr cx.inputLocation
    have hstart : FollowsAt cx.arena expr cx.inputLocation cx expr :=
      ⟨.refl _, rfl, Arena.stemsFrom_self⟩
    exact (hguards.logsAt_toVoid hstart).added d hd hcode
  · exact (logsAt_suppressed hs hn hrests hflags hloc).added
  · intro type code span r t htype hvoid h hkeeps hrun hne
    exact hadded hrun (tells_toVoid hs hn hrests htype hvoid hloc hkeeps h r t hrun hne)
  · intro call span t hsite hcall hignores hloc hkeeps hrun
    exact hadded hrun (tells_warnIgnored hkeeps hsite hcall hignores hloc () t hrun)

end Pass

/-- A variable of volatile incomplete type, a dereference of such a type, a call of a function whose
result must be used, and a dereference of another pointer; all of them are suppressed. -/
def Arena.suppressed : Arena :=
  let all := (NodeFlags.single .noWarning).union
    ((NodeFlags.single .noUnusedValueWarning).union (.single .noUnusedResultWarning))
  { Arena.initial with
    nodes := Arena.initial.nodes ++ #[⟨.recordType none none none, none, .single .volatile, .unknown⟩,
      ⟨.decl .var (.named ⟨1⟩), some ⟨6⟩, all, ⟨1, 2⟩⟩,
      ⟨.pointerType ⟨6⟩, none, .empty, .unknown⟩,
      ⟨.decl .var (.named ⟨2⟩), some ⟨8⟩, .empty, ⟨3, 4⟩⟩,
      ⟨.unary .deref ⟨9⟩, some ⟨6⟩, all, ⟨5, 7⟩⟩,
      ⟨.functionType .intType .empty, none, .empty, .unknown⟩,
      ⟨.decl .func (.named ⟨3⟩), some ⟨11⟩, .empty, ⟨8, 9⟩⟩,
      ⟨.call (some ⟨12⟩) .empty, some .intType, all, ⟨10, 13⟩⟩,
      ⟨.pointerType .intType, none, .empty, .unknown⟩,
      ⟨.decl .var (.named ⟨2⟩), some ⟨14⟩, .empty, ⟨14, 15⟩⟩,
      ⟨.unary .deref ⟨15⟩, some .intType, all, ⟨16, 18⟩⟩]
    attributes := #[(⟨12⟩, ⟨⟨4⟩, []⟩)]
    names := ⟨#["", "int", "size_t", "f", "nodiscard"]⟩ }

namespace Pass

open ExprTree.Action HasContext Reading

/-- The dereference of the other pointer is not reported as unused; the variable and the call are
reported. -/
theorem suppressed_reports_each :
    let cx := { Context.ofArena .suppressed .standard with inputLocation := ⟨30, 31⟩ }
    (∀ d ∈ (toVoid ⟨16⟩ .statement).added cx, d.code ≠ .unusedValue) ∧
      (∃ d ∈ (toVoid ⟨7⟩ .statement).added cx,
        d.code = .incompleteVariable ∧ d.primarySpan? = some ⟨30, 31⟩) ∧
      (∃ d ∈ (warnIgnored ⟨13⟩ .statement).added cx,
        d.code = .ignoredResult ∧ d.primarySpan? = some ⟨10, 13⟩) := by
  intro cx
  obtain ⟨-, hderef, -⟩ := suppressed_reports cx ⟨16⟩ .statement
  obtain ⟨-, hvariable, -⟩ := suppressed_reports cx ⟨7⟩ .statement
  obtain ⟨-, -, hcall⟩ := suppressed_reports cx ⟨13⟩ .statement
  refine ⟨?_, ?_, ?_⟩
  · have hpointer : cx.arena.isReference ⟨15⟩ = .ok false := by decide +kernel
    exact (hderef ⟨16⟩ _ ⟨16, 18⟩ (by decide +kernel) rfl (Arena.rests_deref rfl hpointer)
      (by decide +kernel)).1 (.inl (by decide +kernel))
  · obtain ⟨t, hrun⟩ := answer?_eq_some_iff.1
      (show (toVoid ⟨7⟩ .statement).answer? cx = some .void by decide +kernel)
    exact (hvariable ⟨7⟩ _ ⟨30, 31⟩ (by decide +kernel) rfl (Arena.rests_decl rfl)
      (by decide +kernel)).2 ⟨6⟩ _ _ _ t rfl (by decide +kernel)
      (.incompleteVariable rfl (by decide +kernel) (by decide +kernel)) (by decide +kernel) hrun
      (by decide)
  · obtain ⟨t, hrun⟩ := answer?_eq_some_iff.1
      (show (warnIgnored ⟨13⟩ .statement).answer? cx = some () by decide +kernel)
    refine hcall ⟨13⟩ _ t (by decide) (by decide +kernel) ?_ (by decide +kernel) (by decide +kernel)
      hrun
    exact ⟨_, ⟨12⟩, _, .intType, some ⟨12⟩, .function ⟨12⟩ "", rfl, rfl, by decide +kernel,
      by decide +kernel, by decide +kernel⟩

/-- The variable, the dereference and the call are reported although all warnings are switched off
for them. -/
theorem not_suppressed :
    let cx := { Context.ofArena .suppressed .standard with inputLocation := ⟨30, 31⟩ }
    (∀ id ∈ [⟨7⟩, ⟨10⟩, ⟨13⟩], cx.arena.suppresses id .empty = .ok true) ∧
      ((toVoid ⟨7⟩ .statement).added cx).map Diagnostic.key =
        [(.incompleteVariable, some ⟨30, 31⟩)] ∧
      ((toVoid ⟨10⟩ .statement).added cx).map Diagnostic.key =
        [(.incompleteTarget, some ⟨5, 7⟩)] ∧
      ((toVoid ⟨13⟩ .statement).added cx).map Diagnostic.key =
        [(.ignoredResult, some ⟨10, 13⟩)] ∧
      ((warnIgnored ⟨13⟩ .statement).added cx).map Diagnostic.key =
        [(.ignoredResult, some ⟨10, 13⟩)] := by
  intro cx
  refine ⟨?_, ?_, ?_, ?_, ?_⟩ <;> decide +kernel

end Pass

end ExprTree
