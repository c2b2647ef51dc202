import ExprTree.Proofs.Coupling
import ExprTree.Proofs.ErrorPaths
import ExprTree.Proofs.VoidReturns

/-!
# Errors in reduced expressions

An erroneous expression is reduced to the error node, and so is one that leads to an error.  What is
left of any other is not erroneous, as long as every dereference of an erroneous pointer is itself
erroneous.  A dereference that is not gives way to its pointer like any other.

* `Arena.ErrorsRise` — arenas in which dereferences of erroneous pointers are erroneous.
* `Reading.rising`, `Reading.rising_lawful` — passes leave them so.
* `Pass.toVoid_rising` — what is left in such arenas.
* `Pass.toVoid_deref_erroneous` — what is left of a dereference of an erroneous pointer.
* `Pass.toVoid_errors` — all cases.
-/

namespace ExprTree

namespace Arena

variable {a b : Arena} {n m : Node} {id : NodeId}

/-- The error node marks errors. -/
def MarksErrors (a : Arena) : Prop :=
  ∃ n, a.find? .error = some n ∧ n.kind = .errorMark ∧ n.type = some .error

/-- The node is no dereference of an erroneous pointer, unless it has no type or the error type. -/
def RisesAt (a : Arena) (n : Node) : Prop :=
  ∀ pointer type, n.kind = .unary .deref pointer → n.type = some type → type ≠ .error →
    a.isErroneous pointer = .ok false

instance (a : Arena) (n : Node) : Decidable (a.RisesAt n) :=
  decidable_of_iff (∀ pointer ∈ pointer? n, ∀ type ∈ n.type, type ≠ .error →
      a.isErroneous pointer = .ok false)
    ⟨fun h pointer type hk ht => h pointer (pointer?_eq_some_iff.2 hk) type ht,
      fun h pointer hp type ht => h pointer type (pointer?_eq_some_iff.1 hp) ht⟩

/-- Dereferences of erroneous pointers are erroneous, and the void value is not. -/
structure ErrorsRise (a : Arena) : Prop where
  node : ∀ id n, a.find? id = some n → a.RisesAt n
  error : a.MarksErrors
  void : a.isErroneous .void = .ok false

theorem MarksErrors.mono (hab : a.Evolves b) (h : a.MarksErrors) : b.MarksErrors := by
  obtain ⟨n, hn, hk, ht⟩ := h
  obtain ⟨m, hm, hnm⟩ := hab.node _ n hn
  exact ⟨m, hm, hk ▸ NodeKind.eq_of_skeleton hnm.skeleton_eq (by rw [hk]; rfl),
    hnm.type_eq.trans ht⟩

/-- What is erroneous refers to nothing. -/
theorem MarksErrors.isErroneous_of_referent? (h : a.MarksErrors) {target : NodeId}
    (hr : a.referent? id = some target) : a.isErroneous id = .ok false := by
  obtain ⟨e, he, hek, het⟩ := h
  obtain ⟨n, t, m, hn, ht, hm, hk⟩ := referent?_eq_some_iff.1 hr
  have herror : t ≠ .error := by
    rintro rfl
    cases he.symm.trans hm
    cases hek.symm.trans hk
  refine isErroneous_eq_false_iff.2 ⟨?_, some t, map_eq_ok_iff.2 ⟨n, node_eq_ok_iff.2 hn, ht⟩, ?_⟩
  · rintro rfl
    cases he.symm.trans hn
    exact herror (Option.some.inj (ht.symm.trans het))
  · exact fun h => herror (Option.some.inj h)

theorem RisesAt.congr (h : a.RisesAt n) (hk : m.kind = n.kind) (ht : m.type = n.type) :
    a.RisesAt m := by
  unfold RisesAt
  rw [hk, ht]
  exact h

theorem RisesAt.mono (hab : a.Evolves b) (h : a.RisesAt n) : b.RisesAt n :=
  fun pointer type hk ht hne => hab.isErroneous (h pointer type hk ht hne)

/-- It is enough to look at nodes that are new or changed. -/
theorem ErrorsRise.of_evolves (h : a.ErrorsRise) (hab : a.Evolves b)
    (hnode : ∀ id m, b.find? id = some m → a.find? id = some m ∨ a.RisesAt m) : b.ErrorsRise where
  node id m hm := ((hnode id m hm).elim (h.node id m) fun hm => hm).mono hab
  error := h.error.mono hab
  void := hab.isErroneous h.void

theorem ErrorsRise.change {f : Node → Node} (h : a.ErrorsRise) (hn : a.find? id = some n)
    (hb : n.Becomes (f n)) (hf : a.RisesAt (f n)) : (a.change id f).ErrorsRise := by
  refine h.of_evolves (evolves_change hn hb) fun other m hm => ?_
  rcases find?_change_cases hn hm with ⟨rfl, rfl⟩ | hm
  · exact .inr hf
  · exact .inl hm

theorem ErrorsRise.append (h : a.ErrorsRise) (hev : a.Evolves (a.append m)) (hm : a.RisesAt m) :
    (a.append m).ErrorsRise := by
  refine h.of_evolves hev fun other n hn => ?_
  rcases find?_append_cases hn with ⟨rfl, rfl⟩ | hn
  · exact .inr hm
  · exact .inl hn

/-- What is left of a dereference of a pointer that is no reference, when its value is discarded. -/
def derefRemains (a : Arena) (expr pointer type : NodeId) : Except Fault NodeId := do
  let kept := if ← a.isVolatile type then expr else pointer
  return if ← a.hasEffect kept then kept else .void

theorem derefRemains_eq {expr pointer type : NodeId} {volatile effect : Bool}
    (hvolatile : a.isVolatile type = .ok volatile)
    (heffect : a.hasEffect (if volatile then expr else pointer) = .ok effect) :
    a.derefRemains expr pointer type =
      .ok (if effect then if volatile then expr else pointer else .void) :=
  bind_eq_ok_iff.2 ⟨volatile, hvolatile, bind_eq_ok_iff.2 ⟨effect, heffect, rfl⟩⟩

theorem derefRemains_unread (a : Arena) (expr pointer type : NodeId) :
    a.unread.derefRemains expr pointer type = a.derefRemains expr pointer type := by
  simp only [derefRemains, isVolatile_unread, hasEffect_unread]

end Arena

namespace Reading

open Arena

/-- Arenas in which errors rise.  Nothing is said about what takes the place of what. -/
def rising : Reading Unit where
  Sound a _ := a.ErrorsRise
  Fits a _ id k := ∃ n, a.find? id = some n ∧ a.RisesAt { n with kind := k }
  Stands _ _ _ _ := True
  Same _ _ _ _ := True
  Extends _ _ _ _ := True

theorem rising_lawful : rising.Lawful where
  extends_refl _ _ := trivial
  extends_trans _ _ := trivial
  fits_mono := by
    rintro a _ b _ id k ⟨hev, -⟩ ⟨n, hn, hrise⟩
    obtain ⟨m, hm, hnm⟩ := hev.node id n hn
    exact ⟨m, hm, (hrise.mono hev).congr rfl hnm.type_eq⟩
  stands_mono _ _ := trivial
  same_mono _ _ := trivial
  stands_refl _ _ _ := trivial
  stands_trans _ _ := trivial
  same_of_stands _ := trivial
  same_trans _ _ := trivial
  fits_self h hn := ⟨_, hn, h.node _ _ hn⟩
  fits_rewritten := fun ⟨n, hn, _⟩ hk _ =>
    ⟨n, hn, fun pointer _ hd => absurd hd (hk.ne_deref pointer)⟩
  unwrap _ _ _ := trivial
  touch h hn hk ht _ hb _ := ⟨h.change hn hb ((h.node _ _ hn).congr hk ht), trivial⟩
  rebuild := by
    rintro a _ id n k flags h hn ⟨m, hm, hrise⟩ hk hflags
    cases hn.symm.trans hm
    exact ⟨h.change hn (becomes_rebuilt hk hflags) (hrise.congr rfl rfl), trivial⟩
  dereference := by
    rintro a _ expr pointer value target span flags h _ _ _ hv _ b hev
    refine ⟨(), h.append hev ?_, trivial, trivial⟩
    rintro _ _ ⟨⟩ _ _
    -- its pointer is a reference
    exact h.error.isErroneous_of_referent? hv
  reference _ _ _ _ := trivial
  access _ _ _ _ _ := trivial
  reduce h _ hk _ _ hev :=
    ⟨(), h.append hev fun pointer _ hd => absurd hd (hk.ne_deref pointer), trivial, trivial⟩
  nothing _ _ := trivial

end Reading

namespace Pass

open ExprTree.Action Reading

variable {cx : Context} {expr pointer type r : NodeId} {n : Node} {loc : Span}
  {site : DiscardSite} {self : NodeId × DiscardSite → Pass NodeId}

/-! ### Where errors rise -/

/-- The answer is the error node, or not erroneous. -/
def Unerroneous (r : NodeId) (t : Context) : Prop := r = .error ∨ t.arena.isErroneous r = .ok false

/-- The same for a reduction that may have no answer. -/
def OffersUnerroneous (o : Option NodeId) (t : Context) : Prop :=
  ∀ e, o = some e → t.arena.isErroneous e = .ok false

/-- A node with the type of another is erroneous only if the other is. -/
theorem buildLike_unerroneous {other : NodeId} {kind : NodeKind} {span : Span}
    (h : cx.arena.MarksErrors) (hother : cx.arena.isErroneous other = .ok false) :
    wlp (some <$> edit (Arena.buildLike other kind span)) OffersUnerroneous cx := by
  rw [wlp_map, wlp_edit]
  refine Arena.wlp_buildLike fun m hm => Arena.wlp_build fun flags _ => ?_
  rintro _ ⟨⟩
  obtain ⟨e, he, -⟩ := h
  obtain ⟨-, type, ht, hne⟩ := Arena.isErroneous_eq_false_iff.1 hother
  obtain ⟨m', hm', rfl⟩ := Arena.map_eq_ok_iff.1 ht
  cases hm.symm.trans (Arena.node_eq_ok_iff.1 hm')
  refine Arena.isErroneous_eq_false_iff.2 ⟨?_, m.type, ?_, hne⟩
  · exact (Arena.ne_size_of_isSome (by rw [he]; rfl)).symm
  · exact Arena.map_eq_ok_iff.2 ⟨_, Arena.node_eq_ok_iff.2 (Arena.find?_append_new ..), rfl⟩

/-- A dereference gives way to its pointer, which is not erroneous where errors rise. -/
theorem voidDeref_unerroneous (hx : cx.arena.ErrorsRise)
    (hexpr : cx.arena.isErroneous expr = .ok false) (hn : cx.arena.find? expr = some n)
    (hk : n.kind = .unary .deref pointer) (ht : n.type = some type) :
    wlp (voidDeref expr pointer type loc site) (fun r t => t.arena.isErroneous r = .ok false)
      cx := by
  have hpointer : cx.arena.isErroneous pointer = .ok false := by
    refine hx.node expr n hn pointer type hk ht ?_
    rintro rfl
    obtain ⟨-, type, htype, hne⟩ := Arena.isErroneous_eq_false_iff.1 hexpr
    cases htype.symm.trans (Arena.map_eq_ok_iff.2 ⟨n, Arena.node_eq_ok_iff.2 hn, ht⟩)
    exact hne rfl
  exact wlp_voidDeref (fun _ _ => hexpr) fun _ _ => hpointer

section Void

variable (hself : ∀ p t y, rising.Sound t.arena y →
  wlp (self p) (fun r u => rising.Reduces t y p.1 r u ∧ Unerroneous r u) t)
include hself

theorem voidCond_unerroneous {first third : NodeId} {second : Option NodeId}
    (hx : cx.arena.ErrorsRise) (hexpr : cx.arena.isErroneous expr = .ok false) :
    wlp (voidCond self expr first second third loc site) OffersUnerroneous cx := by
  refine wlp_voidCond (fun place => mapM_reaches rising_lawful (P := fun _ _ _ _ => True) hx
    fun op _ => (hself (op, place) cx () hx).mono fun _ _ h => h.1) ?_
  rintro o t place ⟨_, ht, hl, -⟩
  refine (hself _ t () ht).mono ?_
  rintro r u ⟨⟨_, hu, hl', -⟩, hr⟩
  refine ⟨fun _ => nofun, fun _ _ _ => ?_, fun _ hne _ =>
    buildLike_unerroneous hu.error (hr.resolve_left hne)⟩
  rintro _ ⟨⟩
  exact (hl.1.trans hl'.1).isErroneous hexpr

theorem voidComma_unerroneous {lhs rhs : NodeId} (hx : cx.arena.ErrorsRise)
    (hexpr : cx.arena.isErroneous expr = .ok false) :
    wlp (voidComma self expr lhs rhs loc site) OffersUnerroneous cx := by
  refine wlp_voidComma fun place => (hself _ cx () hx).mono ?_
  rintro r t ⟨⟨_, ht, hl, -⟩, hr⟩
  refine ⟨fun _ => nofun, fun _ _ => ?_, fun hne _ =>
    buildLike_unerroneous ht.error (hr.resolve_left hne)⟩
  rintro _ ⟨⟩
  exact hl.1.isErroneous hexpr

theorem voidByKind_unerroneous (hx : cx.arena.ErrorsRise)
    (hexpr : cx.arena.isErroneous expr = .ok false) (hn : cx.arena.find? expr = some n)
    (ht : n.type = some type) :
    wlp (voidByKind self expr type loc site) OffersUnerroneous cx := by
  refine wlp_voidByKind hn (fun _ _ _ _ => voidCond_unerroneous hself hx hexpr)
    (fun _ _ _ => voidComma_unerroneous hself hx hexpr) (fun _ hk => ?_) fun _ _ _ _ => ?_
  · refine (voidDeref_unerroneous hx hexpr hn hk ht).mono fun r t hr => ?_
    rintro _ ⟨⟩
    exact hr
  · rintro _ ⟨⟩
    exact hexpr

theorem voidNode_unerroneous (cx : Context) (hx : cx.arena.ErrorsRise) :
    wlp (voidNode self expr loc site) Unerroneous cx := by
  refine wlp_voidNode_of_not_erroneous
    (classifyDiscarded_places rising_lawful expr cx (x := ()) ⟨hx, trivial⟩)
    (fun _ _ _ => .inl rfl) ?_
  rintro r t u ⟨_, ht, -, -⟩ herr hmark
  obtain ⟨hu, hlu⟩ := keeps_of_marked rising_lawful hmark () ht
  have hr : u.arena.isErroneous r = .ok false := hlu.1.isErroneous herr
  refine wlp_voidTyped (fun _ _ _ => .inr hr) fun n type hn hnt _ => ?_
  have hoffers : wlp (voidByKind self r type loc site) (rising.Offers u () r) u :=
    Reading.voidByKind_offers rising_lawful
      (fun p t y hy => (hself p t y hy.sound).mono fun _ _ h => h.1) ⟨hu, trivial⟩ hn hnt
  refine (hoffers.and (voidByKind_unerroneous hself hu hr hn hnt)).mono ?_
  rintro o v ⟨⟨_, hv, -, -⟩, ho⟩
  refine ⟨fun e he => ?_, fun _ => .inl rfl⟩
  exact wlp_collapse (fun _ => .inr (ho e he)) fun _ => .inr hv.void

theorem toVoidStep_unerroneous (cx : Context) (hx : cx.arena.ErrorsRise) :
    wlp (toVoidStep self (expr, site))
      (fun r t => rising.Reduces cx () expr r t ∧ Unerroneous r t) cx :=
  (toVoidStep_reduces rising_lawful cx (fun p t y hy => (hself p t y hy.sound).mono
    fun _ _ h => h.1) ⟨hx, trivial⟩).and
    (wlp_toVoidStep (Q := fun r b => r = .error ∨ b.isErroneous r = .ok false) (.inl rfl)
      fun _ inner => voidNode_unerroneous hself { cx with nesting := inner } hx)

end Void

/-- Where dereferences of erroneous pointers are erroneous, they are so after a reduction, and what
it leaves is not erroneous. -/
theorem toVoid_rising (h : cx.arena.ErrorsRise) :
    wlp (toVoid expr site) (fun r t => Unerroneous r t ∧ t.arena.ErrorsRise) cx := by
  refine (wlp_recursively_admits (R := rising) (x := ()) Prod.fst
    (P := fun cx x (p : NodeId × DiscardSite) r t => rising.Reduces cx x p.1 r t ∧ Unerroneous r t)
    (fun _ hself _ cx _ hx => toVoidStep_unerroneous (fun p t y hy => hself p t y ⟨hy, trivial⟩)
      cx hx.sound) (expr, site) cx ⟨h, trivial⟩).mono ?_
  rintro r t ⟨⟨_, ht, -⟩, hr⟩
  exact ⟨hr, ht⟩

/-! ### Erroneous pointers -/

/-- An erroneous expression is answered with the error node, and nothing else happens. -/
theorem toVoid_erroneous (h : cx.arena.isErroneous expr = .ok true) :
    toVoid expr site cx = .ok .error cx := by
  have hquery : query (·.isErroneous expr) cx = .ok true cx := ask_eq_ok_iff.2 ⟨h, rfl⟩
  have hstep : ∀ self, toVoidStep self (expr, site) cx = .ok .error cx := fun self =>
    (bind_eq_of_ok hquery).trans rfl
  show unroll toVoidStep cx.nesting.room (expr, site) cx = _
  cases cx.nesting.room with
  | zero => exact hstep _
  | succ room => exact hstep _

/-- Where there is room for a level, a part runs a level deeper. -/
theorem wlp_nested_of_room {α : Type} {span : Span} {overflow : α} {body : Pass α}
    {Q : α → Context → Prop} (hroom : 0 < cx.nesting.room)
    (hbody : ∀ inner, cx.nesting.enter = .ok inner → inner.room + 1 = cx.nesting.room →
      wlp body (fun r t => t.nesting = inner ∧ Q r { t with nesting := cx.nesting })
        { cx with nesting := inner }) : wlp (nested span overflow body) Q cx := by
  refine wlp_level (fun inner hinner => (hbody inner hinner
    (Nesting.room_of_enter hinner).symm).mono ?_) fun e he => ?_
  · rintro r t ⟨ht, hr⟩ outer houter
    rw [ht, Nesting.leave_of_enter hinner] at houter
    cases houter
    exact hr
  · exact absurd (Nesting.room_of_refused he).1 hroom.ne'

/-- A question that reads do not change. -/
theorem answer_eq {α : Type} {t : Context} (h : cx.Agrees t) (q : Arena → Except Fault α)
    (hq : ∀ a : Arena, q a.unread = q a) : q t.arena = q cx.arena :=
  (h.arena.eq hq).symm

theorem find?_of_agrees {t : Context} (h : cx.Agrees t) (hn : cx.arena.find? expr = some n) :
    ∃ m, t.arena.find? expr = some m ∧ m.unread = n.unread := by
  have hsame : (t.arena.find? expr).map Node.unread = some n.unread := by
    rw [← Arena.find?_unread, ← h.arena, Arena.find?_unread, hn]
    rfl
  exact Option.map_eq_some_iff.1 hsame

/-- Answering the expression itself, in a context that agrees with the one before. -/
def Stalls (cx : Context) (expr r : NodeId) (t : Context) : Prop := r = expr ∧ cx.Agrees t

theorem wlp_nested_stalls {span : Span} {overflow : NodeId} {body : Pass NodeId}
    (hroom : 0 < cx.nesting.room)
    (hbody : ∀ inner : Nesting, inner.room + 1 = cx.nesting.room →
      wlp body (Stalls { cx with nesting := inner } expr) { cx with nesting := inner }) :
    wlp (nested span overflow body) (Stalls cx expr) cx := by
  refine wlp_nested_of_room hroom fun inner _ hinner => (hbody inner hinner).mono ?_
  rintro r t ⟨hr, ht⟩
  exact ⟨ht.nesting.symm, hr, ht.arena, ht.inputLocation, rfl⟩

section Deref

variable (hn : cx.arena.find? expr = some n) (hk : n.kind = .unary .deref pointer)
include hn hk

theorem classifyUse_deref {mode : UseMode} (hmode : mode.rejectBuiltin = false)
    (hp : cx.arena.isReference pointer ≠ .ok true) (hroom : 0 < cx.nesting.room) :
    wlp (classifyUse expr mode) (Stalls cx expr) cx := by
  refine wlp_recursively_of_step fun self => ?_
  refine wlp_classifyUseStep_cases (fun _ => ⟨rfl, .refl cx⟩) (fun _ hrejected => ?_)
    fun _ _ => (passive_recordRead.when cx).mono fun _ t ht span => ?_
  · rw [Arena.isRejected, hmode] at hrejected
    cases hrejected
  have hlevel : wlp (nested span .error (classifyNode self expr mode)) (Stalls t expr) t := by
    refine wlp_nested_stalls (ht.nesting ▸ hroom) fun inner _ => ?_
    refine wlp_classifyNode fun m hm => ?_
    obtain ⟨m', hm', hmn⟩ := find?_of_agrees ht hn
    cases hm'.symm.trans hm
    have hmk : m.kind = .unary .deref pointer := (congrArg Node.kind hmn).trans hk
    refine
      { component := fun _ _ h => by cases hmk.symm.trans h
        comma := fun _ _ _ h => by cases hmk.symm.trans h
        cond := fun _ _ _ h => by cases hmk.symm.trans h
        reference := fun pointer' h href => ?_
        wrapper := fun _ h => by cases hmk.symm.trans h
        transparent := fun _ _ h hop _ => ?_
        keep := fun _ _ => ⟨rfl, .refl _⟩ }
    · cases hmk.symm.trans h
      have hsame := answer_eq ht (·.isReference pointer) (·.isReference_unread pointer)
      exact absurd (hsame.symm.trans href) hp
    · cases hmk.symm.trans h
      cases hop
  exact hlevel.mono fun r u hu => ⟨hu.1, ht.trans hu.2⟩

theorem classifyDiscarded_deref (hp : cx.arena.isReference pointer ≠ .ok true)
    (hroom : 2 ≤ cx.nesting.room) : wlp (classifyDiscarded expr) (Stalls cx expr) cx := by
  refine wlp_recursively_of_step fun self => ?_
  unfold classifyDiscardedStep
  rw [wlp_bind, wlp_query]
  intro inner hinner
  -- a dereference is no location wrapper
  obtain rfl : expr = inner := by
    have hstrip := (Arena.map_node_of_find? (f := fun n => n.wrapped?.getD expr) hn).symm.trans hinner
    rw [Node.wrapped?_deref hk] at hstrip
    exact Except.ok.inj hstrip
  rw [wlp_bind, wlp_query]
  intro span _
  refine wlp_nested_stalls (by omega) fun level hlevel => ?_
  have hroom : 0 < level.room := by omega
  have hnode : ({ cx with nesting := level } : Context).arena.find? expr = some n := hn
  have huse : wlp (discardedRvalueUse expr) (Stalls { cx with nesting := level } expr)
      { cx with nesting := level } := by
    unfold discardedRvalueUse rvalueUseAt
    rw [wlp_bind, wlp_get]
    exact classifyUse_deref hnode hk rfl hp hroom
  refine wlp_classifyDiscardedNode fun m hm => ?_
  cases hn.symm.trans hm
  exact
    { cond := fun _ _ _ h => by cases hk.symm.trans h
      comma := fun _ _ h => by cases hk.symm.trans h
      use := fun _ _ => huse
      keep := fun _ _ => ⟨rfl, .refl _⟩ }

/-- The access goes, unless it is volatile. -/
theorem voidByKind_deref :
    wlp (voidByKind self expr type loc site)
      (fun o t => ∃ volatile, cx.arena.isVolatile type = .ok volatile ∧
        o = some (if volatile then expr else pointer) ∧ t = { cx with queue := t.queue }) cx := by
  refine wlp_voidByKind hn (fun _ _ _ h => ?_) (fun _ _ h => ?_) (fun _ h => ?_)
    fun _ _ h => absurd hk (h pointer)
  · cases hk.symm.trans h
  · cases hk.symm.trans h
  · cases hk.symm.trans h
    exact wlp_voidDeref (fun hv _ => ⟨true, hv, rfl, rfl⟩) fun hv _ => ⟨false, hv, rfl, rfl⟩

/-- So does what is left without an effect. -/
theorem voidTyped_deref (ht : n.type = some type) (hvoid : cx.arena.isVoidType type = .ok false) :
    wlp (voidTyped self expr loc site)
      (fun r t => cx.arena.derefRemains expr pointer type = .ok r ∧
        t = { cx with queue := t.queue }) cx := by
  refine wlp_voidTyped (fun m hm hless => ?_) fun m type' hm hmt _ => ?_
  · cases hn.symm.trans hm
    cases hvoid.symm.trans (hless type ht)
  · cases hn.symm.trans hm
    cases ht.symm.trans hmt
    refine (voidByKind_deref hn hk).mono ?_
    rintro _ t ⟨volatile, hvolatile, rfl, hqueue⟩
    have harena : t.arena = cx.arena := by rw [hqueue]
    refine ⟨?_, nofun⟩
    rintro _ ⟨⟩
    exact wlp_collapse (fun heff => ⟨Arena.derefRemains_eq hvolatile (harena ▸ heff), hqueue⟩)
      fun heff => ⟨Arena.derefRemains_eq hvolatile (harena ▸ heff), hqueue⟩

theorem voidNode_deref (ht : n.type = some type) (hp : cx.arena.isReference pointer ≠ .ok true)
    (herror : cx.arena.isErroneous expr = .ok false) (hvoid : cx.arena.isVoidType type = .ok false)
    (hroom : 2 ≤ cx.nesting.room) :
    wlp (voidNode self expr loc site)
      (fun r t => cx.Agrees t ∧ cx.arena.derefRemains expr pointer type = .ok r) cx := by
  unfold voidNode
  rw [wlp_bind]
  refine (classifyDiscarded_deref hn hk hp hroom).mono ?_
  rintro r t ⟨hr, hcx⟩
  subst r
  rw [wlp_bind, wlp_query]
  intro erroneous herr
  -- all that has happened so far are reads, which change no answer
  have hsame := answer_eq hcx (fun a => a.isErroneous expr) (·.isErroneous_unread expr)
  cases (hsame.trans herror).symm.trans herr
  rw [if_neg Bool.false_ne_true, wlp_bind]
  refine (passive_recordRead.when t).mono fun _ u htu => ?_
  have hu : cx.Agrees u := hcx.trans htu
  obtain ⟨m, hm, hmn⟩ := find?_of_agrees hu hn
  have hvoid' := (answer_eq hu (·.isVoidType type) (·.isVoidType_unread type)).trans hvoid
  have hremains := answer_eq hu (·.derefRemains expr pointer type)
    (·.derefRemains_unread expr pointer type)
  refine (voidTyped_deref hm ((congrArg Node.kind hmn).trans hk)
    ((congrArg Node.type hmn).trans ht) hvoid').mono ?_
  rintro r v ⟨hr, hv⟩
  exact ⟨hu.trans (hv ▸ ⟨rfl, rfl, rfl⟩), hremains.symm.trans hr⟩

end Deref

/-- Where nothing overflows, a dereference of an erroneous pointer with another type than the error
type gives way to its pointer like any other. -/
theorem toVoid_deref_erroneous (hmark : cx.arena.MarksErrors) (hn : cx.arena.find? expr = some n)
    (hk : n.kind = .unary .deref pointer) (ht : n.type = some type) (hne : type ≠ .error)
    (hvoid : cx.arena.isVoidType type = .ok false)
    (hpointer : cx.arena.isErroneous pointer = .ok true) (hroom : 3 ≤ cx.nesting.room) :
    wlp (toVoid expr site) (fun r _ => cx.arena.derefRemains expr pointer type = .ok r) cx := by
  have hp : cx.arena.isReference pointer ≠ .ok true := by
    intro hp
    obtain ⟨target, hr⟩ := Arena.isReference_eq_true_iff.1 hp
    cases hpointer.symm.trans (hmark.isErroneous_of_referent? hr)
  have herror : cx.arena.isErroneous expr = .ok false := by
    refine Arena.isErroneous_eq_false_iff.2 ⟨?_, some type,
      Arena.map_eq_ok_iff.2 ⟨n, Arena.node_eq_ok_iff.2 hn, ht⟩, fun h => hne (Option.some.inj h)⟩
    rintro rfl
    obtain ⟨e, he, hek, -⟩ := hmark
    cases hn.symm.trans he
    cases hk.symm.trans hek
  refine wlp_recursively_of_step fun self => ?_
  unfold toVoidStep
  rw [wlp_bind, wlp_query]
  intro erroneous herr
  cases herror.symm.trans herr
  rw [if_neg Bool.false_ne_true, wlp_bind, wlp_location]
  intro loc _
  refine wlp_nested_of_room (by omega) fun inner _ hinner => ?_
  have hinner' : 2 ≤ inner.room := by omega
  have hnode : ({ cx with nesting := inner } : Context).arena.find? expr = some n := hn
  refine (voidNode_deref hnode hk ht hp herror hvoid hinner').mono ?_
  rintro r t ⟨hagree, hr⟩
  exact ⟨hagree.nesting.symm, hr⟩

/-! ### All cases -/

/-- What a reduction leaves of errors.  An erroneous expression is answered with the error node, and
neither the context nor what was reported changes.  Where dereferences of erroneous pointers are
erroneous the answer is the error node or not erroneous, and they still are so afterwards.  Where
nodes have the types that their operands give them, an expression that leads to an error, with or
without a location wrapper around it, is answered with the error node.  A dereference of an
erroneous pointer that is not erroneous gives way to its pointer, unless the access is volatile.
In a sound arena the reduction returns. -/
theorem toVoid_errors (cx : Context) (expr : NodeId) (site : DiscardSite) :
    (cx.arena.isErroneous expr = .ok true → toVoid expr site cx = .ok .error cx) ∧
    (cx.arena.ErrorsRise → ∀ r t, toVoid expr site cx = .ok r t →
      (r = .error ∨ t.arena.isErroneous r = .ok false) ∧ t.arena.ErrorsRise) ∧
    (cx.arena.TracksErrors → ∀ inner, cx.arena.stripWrapper expr = .ok inner →
      cx.arena.LeadsToError inner → ∀ r t, toVoid expr site cx = .ok r t → r = .error) ∧
    (cx.arena.MarksErrors → 3 ≤ cx.nesting.room → ∀ n pointer type,
      cx.arena.find? expr = some n → n.kind = .unary .deref pointer → n.type = some type →
      type ≠ .error → cx.arena.isVoidType type = .ok false →
      cx.arena.isErroneous pointer = .ok true → ∀ r t, toVoid expr site cx = .ok r t →
      cx.arena.derefRemains expr pointer type = .ok r) ∧
    (cx.arena.Sound → (cx.arena.find? expr).isSome = true →
      ∃ r t, toVoid expr site cx = .ok r t) := by
  refine ⟨toVoid_erroneous, fun h => toVoid_rising h, fun ha inner hstrip h =>
    toVoid_leadsToError ha hstrip h, fun hmark hroom n pointer type hn hk ht hne hvoid hp =>
    toVoid_deref_erroneous hmark hn hk ht hne hvoid hp hroom, fun hsound hexpr => ?_⟩
  obtain ⟨r, t, hrun, -⟩ := toVoid_sound site hsound hexpr
  exact ⟨r, t, hrun⟩

end Pass

/-- The arena of `x ? *f() : x`, its last node, where the call and its dereference are erroneous. -/
def Arena.erroneousBranch : Arena :=
  { Arena.initial with
    nodes := Arena.initial.nodes ++ #[⟨.decl .var (.named ⟨1⟩), some .intType, .empty, .unknown⟩,
      ⟨.call none .empty, some .error, .single .effect, ⟨5, 8⟩⟩,
      ⟨.unary .deref ⟨7⟩, some .error, .single .effect, ⟨4, 8⟩⟩,
      ⟨.cond ⟨6⟩ (some ⟨8⟩) ⟨6⟩, some .intType, .single .effect, ⟨0, 11⟩⟩] }

/-- The same arena with another dereference of the call, whose type is `int`. -/
def Arena.erroneousPointer : Arena :=
  Arena.erroneousBranch.append ⟨.unary .deref ⟨7⟩, some .intType, .single .effect, ⟨12, 16⟩⟩

namespace Pass

open ExprTree.Action

/-- The erroneous dereference makes the conditional an error.  The other dereference gives way to
the call. -/
theorem toVoid_errors_call :
    let cx := Context.ofArena .erroneousBranch .standard
    let cx' := Context.ofArena .erroneousPointer .standard
    toVoid ⟨8⟩ .statement cx = .ok .error cx ∧
      (∃ t, toVoid ⟨9⟩ .statement cx = .ok .error t ∧ t.arena.ErrorsRise) ∧
      ∃ t, toVoid ⟨10⟩ .statement cx' = .ok ⟨7⟩ t := by
  intro cx cx'
  have hrise : cx.arena.ErrorsRise :=
    ⟨Arena.forall_find?_iff.2 (by decide +kernel), ⟨_, rfl, rfl, rfl⟩, by decide⟩
  have hpaths : cx.arena.TracksErrors := by decide +kernel
  have hclosed : cx.arena.Closed := by decide +kernel
  have hclosed' : cx'.arena.Closed := by decide +kernel
  have herror : cx.arena.isErroneous ⟨8⟩ = .ok true := by decide +kernel
  have hleads : cx.arena.LeadsToError ⟨9⟩ := by
    refine .branch rfl (fun h => ?_) (List.mem_cons_self ..) (by decide +kernel)
      (.erroneous herror)
    exact absurd (h .intType rfl) (by decide +kernel)
  refine ⟨(toVoid_errors cx ⟨8⟩ .statement).1 herror, ?_, ?_⟩
  · obtain ⟨-, hrises, hfinds, -, hreturns⟩ := toVoid_errors cx ⟨9⟩ .statement
    obtain ⟨r, t, hrun⟩ := hreturns (hclosed.sound (by decide +kernel)) (by decide)
    obtain rfl := hfinds hpaths ⟨9⟩ (by decide +kernel) hleads r t hrun
    exact ⟨t, hrun, (hrises hrise _ t hrun).2⟩
  · obtain ⟨-, -, -, hderef, hreturns⟩ := toVoid_errors cx' ⟨10⟩ .statement
    obtain ⟨r, t, hrun⟩ := hreturns (hclosed'.sound (by decide +kernel)) (by decide)
    have hr := hderef ⟨_, rfl, rfl, rfl⟩ (by decide) _ ⟨7⟩ .intType rfl rfl rfl (by decide)
      (by decide +kernel) (by decide +kernel) r t hrun
    have hcall : cx'.arena.derefRemains ⟨10⟩ ⟨7⟩ .intType = .ok ⟨7⟩ := by decide +kernel
    cases hr.symm.trans hcall
    exact ⟨t, hrun⟩

/-- What is left of the other dereference is erroneous, and its value is reported as unused. -/
theorem not_toVoid_unerroneous :
    Arena.erroneousPointer.isErroneous ⟨7⟩ = .ok true ∧
      Arena.erroneousPointer.kindOf ⟨10⟩ = .ok (.unary .deref ⟨7⟩) ∧
      ∃ t, toVoid ⟨10⟩ .statement (.ofArena .erroneousPointer .standard) = .ok ⟨7⟩ t ∧
        t.arena.isErroneous ⟨7⟩ = .ok true ∧
        t.queue.diagnostics.toList.map (·.code) = [.unusedValue] := by
  refine ⟨by decide +kernel, by decide +kernel, ?_⟩
  have hanswer : (toVoid ⟨10⟩ .statement).answer? (.ofArena .erroneousPointer .standard) =
      some ⟨7⟩ := by decide +kernel
  obtain ⟨t, hrun⟩ := answer?_eq_some_iff.1 hanswer
  refine ⟨t, hrun, ?_, ?_⟩ <;> rw [← last_eq_of_ok hrun] <;> decide +kernel

end Pass

end ExprTree
