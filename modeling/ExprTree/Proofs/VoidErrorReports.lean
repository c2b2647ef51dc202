import ExprTree.Proofs.ErrorPaths
import ExprTree.Proofs.ErrorReports
import ExprTree.Proofs.Intact
import ExprTree.Proofs.VoidEffects

/-!
# Reductions report their errors

Where all errors are kept, the reduction of an expression answers with the error node only after an
error has been reported, unless an erroneous node is read along with the expression.  For its
discarded use exchanges operands for others of the same type, so what stands in its place is not
erroneous, if dereferences and location wrappers are typed by their operands and no handle dangles.

* `Arena.Untainted` — a set of nodes that are there, typed, not erroneous, and lead to one another.
* `Reading.untainted`, `Reading.untainted_lawful` — passes keep such sets, which only new nodes join.
* `Pass.errors_reported` — uses and reductions.
* `Pass.not_errors_reported` — what may happen to a handle that dangles.
-/

namespace ExprTree

namespace Arena

variable {a b : Arena} {S T : NodeId → Prop} {id : NodeId} {n m : Node}

/-- A node that has the type its operands give it, which is not the error node. -/
structure Sane (a : Arena) (n : Node) : Prop where
  typed : a.Typed n
  pointer : ∀ pointer, n.kind = .unary .deref pointer → (a.find? pointer).isSome = true
  type : n.type ≠ some .error

/-- The nodes of a set are there, and what is read along with them is in it; none of them is
erroneous, and all have the types that their operands give them. -/
structure Untainted (a : Arena) (S : NodeId → Prop) : Prop where
  complete : a.Complete S
  sane : ∀ id n, S id → a.find? id = some n → a.Sane n
  error : ¬ S .error

theorem Sane.congr (h : a.Sane n) (hk : m.kind = n.kind) (ht : m.type = n.type)
    (hf : m.flags.has .locationWrapper = n.flags.has .locationWrapper) : a.Sane m where
  typed := h.typed.congr hk ht hf
  pointer pointer hm := h.pointer pointer (hk ▸ hm)
  type := ht ▸ h.type

theorem Sane.mono (hab : a.Evolves b) (h : a.Sane n) : b.Sane n where
  typed := h.typed.mono hab.typesAgree h.pointer
  pointer pointer hk := hab.isSome (h.pointer pointer hk)
  type := h.type

theorem Untainted.not_erroneous (h : a.Untainted S) (hid : S id) : a.isErroneous id ≠ .ok true := by
  intro herr
  obtain ⟨n, hn, -⟩ := h.complete id hid
  rcases isErroneous_eq_true_iff.1 herr with rfl | htype
  · exact h.error hid
  · obtain ⟨m, hm, ht⟩ := map_eq_ok_iff.1 htype
    cases (node_eq_ok_iff.2 hn).symm.trans hm
    exact (h.sane id n hid hn).type ht

theorem Untainted.change {f : Node → Node} (h : a.Untainted S) (hn : a.find? id = some n)
    (hb : n.Becomes (f n)) (hreads : S id → ∀ op ∈ (f n).readOperands, S op)
    (hf : S id → a.Sane (f n)) : (a.change id f).Untainted S where
  complete := h.complete.change hn hreads
  sane other m hother hm := by
    have hev := evolves_change hn hb
    rcases find?_change_cases hn hm with ⟨rfl, rfl⟩ | hold
    · exact (hf hother).mono hev
    · exact (h.sane other m hother hold).mono hev
  error := h.error

/-- A node is appended, and the set grows by that node at most. -/
theorem Untainted.append (h : a.Untainted S) (hT : (a.append m).Complete T)
    (hev : a.Evolves (a.append m)) (hm : ∀ id, T id → S id ∨ id = ⟨a.size⟩)
    (hnew : T ⟨a.size⟩ → (a.append m).Sane m) (herror : T .error → S .error) :
    (a.append m).Untainted T where
  complete := hT
  sane id n hid hn := by
    rcases find?_append_cases hn with ⟨rfl, rfl⟩ | hold
    · exact hnew hid
    · have hS : S id := (hm id hid).resolve_right (ne_size_of_isSome (Option.isSome_of_mem hold))
      exact (h.sane id n hS hold).mono hev
  error hid := h.error (herror hid)

end Arena

namespace Reading

open Arena

/-- The reading by untainted sets, which only new nodes join. -/
def untainted : Reading (NodeId → Prop) where
  Sound a S := a.Untainted S
  Fits a S id k := complete.Fits a S id k ∧
    ∀ n, a.find? id = some n → S id → a.Sane { n with kind := k }
  Stands a S s r := complete.Stands a S s r ∧ (S s → a.SameType s r)
  Same _ _ _ _ := True
  Extends a S b T := a.Grows S b T

variable {a b : Arena} {S T : NodeId → Prop} {expr pointer value target s r : NodeId} {n : Node}
  {k k' : NodeKind} {flags : NodeFlags} {span : Span}

theorem untainted_fits_mono (h : untainted.Leads a S b T) (hfit : untainted.Fits a S expr k) :
    untainted.Fits b T expr k := by
  refine ⟨complete_fits_mono h hfit.1, fun m hm hexpr => ?_⟩
  obtain ⟨⟨n, hn, -⟩, hsane⟩ := hfit
  obtain ⟨m', hm', hnm⟩ := h.1.node expr n hn
  cases hm.symm.trans hm'
  exact ((hsane n hn (h.2.old expr (Option.isSome_of_mem hn) hexpr)).mono h.1).congr rfl
    hnm.type_eq hnm.locationWrapper_eq

theorem untainted_stands_mono (h : untainted.Leads a S b T) (hs : untainted.Stands a S s r) :
    untainted.Stands b T s r := by
  refine ⟨complete_stands_mono h hs.1, fun hT => ?_⟩
  rcases hs.1 with rfl | ⟨hsome, -⟩
  · exact .refl b s
  · exact (hs.2 (h.2.old s hsome hT)).mono h.1

theorem untainted_stands_trans {t : NodeId} (h : untainted.Stands a S s r)
    (h' : untainted.Stands a S r t) : untainted.Stands a S s t :=
  ⟨complete_stands_trans h.1 h'.1, fun hs => (h.2 hs).trans (h'.2 (complete_stand h.1 hs))⟩

/-- Exchanged operands are read along with the node, so they have the types of the old ones. -/
theorem untainted_fits_rewritten (hfit : untainted.Fits a S expr k)
    (hk : k.Rewritten (untainted.Stands a S) k') : untainted.Fits a S expr k' := by
  refine ⟨complete_fits_rewritten hfit.1 (hk.imp fun _ _ => And.left), fun n hn hexpr => ?_⟩
  obtain ⟨⟨m, hm, hreads⟩, hsane⟩ := hfit
  cases hn.symm.trans hm
  have hold := hsane n hn hexpr
  refine ⟨⟨fun pointer _ hd _ => absurd hd (hk.ne_deref pointer), fun operand' hw => ?_⟩,
    fun pointer hd => absurd hd (hk.ne_deref pointer), hold.type⟩
  obtain ⟨operand, hw, hs⟩ := Node.wrapped?_rewritten hk hw
  exact (hs.2 (hreads hexpr operand (Node.wrapped?_mem_readOperands hw))).typeOf
    (hold.typed.wrapper operand hw)

theorem untainted_unwrap (h : a.Untainted S) (hn : a.find? expr = some n)
    (hw : n.wrapped? = some value) : untainted.Stands a S expr value :=
  ⟨complete_lawful.unwrap h.complete hn hw, fun hexpr => .inr ⟨n.type,
    map_eq_ok_iff.2 ⟨n, node_eq_ok_iff.2 hn, rfl⟩, (h.sane expr n hexpr hn).typed.wrapper value hw⟩⟩

theorem untainted_rebuild (h : a.Untainted S) (hn : a.find? expr = some n)
    (hfit : untainted.Fits a S expr k) (hk : k.skeleton = n.kind.skeleton)
    (hflags : a.derivedFlags { n with kind := k } = .ok flags) :
    (a.change expr fun n => { n with kind := k, flags := n.flags.union flags }).Untainted S := by
  have hb := becomes_rebuilt hk hflags
  have hw := hb.locationWrapper_eq
  obtain ⟨⟨m, hm, hreads⟩, hsane⟩ := hfit
  cases hn.symm.trans hm
  refine h.change hn hb (fun hexpr op hop => hreads hexpr op ?_)
    fun hexpr => (hsane n hn hexpr).congr rfl rfl hw
  rwa [← Node.readOperands_congr (n := { n with kind := k })
    (m := { n with kind := k, flags := n.flags.union flags }) rfl hw]

theorem untainted_dereference (h : a.Untainted S)
    (hfit : untainted.Fits a S expr (.unary .deref pointer))
    (hs : untainted.Stands a S pointer value) (hv : a.referent? value = some target)
    (hev : a.Evolves (a.append ⟨.unary .deref value, some target, flags, span⟩)) :
    let b := a.append ⟨.unary .deref value, some target, flags, span⟩
    untainted.Sound b (joined a S expr) ∧ untainted.Extends a S b (joined a S expr) ∧
      untainted.Stands b (joined a S expr) expr ⟨a.size⟩ := by
  intro b
  have hnew : complete.Sound b (joined a S expr) ∧ complete.Extends a S b (joined a S expr) ∧
      complete.Stands b (joined a S expr) expr ⟨a.size⟩ :=
    complete_dereference h.complete hfit.1 hs.1
  obtain ⟨hcomplete, hgrows, hstand⟩ := hnew
  obtain ⟨⟨n, hn, hreads⟩, hsane⟩ := hfit
  have hsize : ∀ {id}, S id → id ≠ ⟨a.size⟩ := fun hid => ne_size_of_isSome (h.complete.isSome hid)
  -- the old dereference has the type that the new one gets
  have htype : S expr → n.type = some target := fun hexpr => by
    have hpointer := hs.2 (hreads hexpr pointer (List.mem_singleton_self _))
    exact (hsane n hn hexpr).typed.deref pointer target rfl (hpointer.referent?.symm.trans hv)
  have hmem : joined a S expr ⟨a.size⟩ → S expr := by
    rintro (hid | ⟨hexpr, -⟩)
    · exact absurd rfl (hsize hid)
    · exact hexpr
  refine ⟨h.append hcomplete hev (fun _ => Or.imp_right And.right) (fun hid => ⟨⟨?_, ?_⟩, ?_, ?_⟩)
    ?_, hgrows, hstand, fun hid => ?_⟩
  · rintro _ _ ⟨⟩ hr
    exact (hev.referent? hv).symm.trans hr
  · intro operand hw
    cases (Node.wrapped?_deref rfl).symm.trans hw
  · rintro _ ⟨⟩
    exact hev.isSome (isSome_of_referent? hv)
  · rw [← htype (hmem hid)]
    exact (hsane n hn (hmem hid)).type
  · rintro (hid | ⟨-, hid⟩)
    · exact hid
    · exact absurd hid (ne_size_of_isSome (isSome_error (Option.isSome_of_mem hn)))
  · have hexpr : S expr := by
      rcases hid with hexpr | ⟨hexpr, -⟩ <;> exact hexpr
    refine .inr ⟨some target, hev.typeOf (map_eq_ok_iff.2 ⟨n, node_eq_ok_iff.2 hn, htype hexpr⟩), ?_⟩
    exact map_eq_ok_iff.2 ⟨_, node_eq_ok_iff.2 (find?_append_new ..), rfl⟩

theorem untainted_lawful : untainted.Lawful where
  extends_refl := complete_lawful.extends_refl
  extends_trans h h' := h.trans h'
  fits_mono := untainted_fits_mono
  stands_mono := untainted_stands_mono
  same_mono _ h := h
  stands_refl a _ s := ⟨.inl rfl, fun _ => .refl a s⟩
  stands_trans := untainted_stands_trans
  same_of_stands _ := trivial
  same_trans _ h := h
  fits_self h hn := ⟨complete_lawful.fits_self h.complete hn, fun m hm hexpr => by
    cases hn.symm.trans hm
    exact h.sane _ _ hexpr hn⟩
  fits_rewritten hfit hk _ := untainted_fits_rewritten hfit hk
  unwrap := untainted_unwrap
  touch h hn hk ht hf hb _ := by
    have hw := hf .locationWrapper (by decide)
    refine ⟨h.change hn hb (fun hid => ?_) fun hid => (h.sane _ _ hid hn).congr hk ht hw,
      grows_change⟩
    rw [Node.readOperands_congr hk hw]
    exact h.complete.reads hid hn
  rebuild h hn hfit hk hflags := ⟨untainted_rebuild h hn hfit hk hflags, grows_change⟩
  dereference h hfit hs _ hv _ hev := ⟨_, untainted_dereference h hfit hs hv hev⟩
  reference hfit hs hp hv := by
    refine ⟨complete_lawful.reference hfit.1 hs.1 hp hv, fun hexpr => ?_⟩
    obtain ⟨⟨n, hn, hreads⟩, -⟩ := hfit
    have hpointer := hs.2 (hreads hexpr _ (List.mem_singleton_self _))
    exact absurd (hpointer.referent?.symm.trans hv) hp
  access _ _ _ _ _ := trivial
  reduce h _ _ _ _ hev :=
    ⟨_, h.append (h.complete.append (fun _ hid => hid) fun _ => .inl) hev (fun _ => .inl)
      (fun hid => absurd rfl (ne_size_of_isSome (h.complete.isSome hid))) id,
      grows_append (fun _ hid => hid) fun _ => .inl, trivial⟩
  nothing _ _ := trivial

end Reading

namespace Pass

open ExprTree.Action Reading

variable {S : NodeId → Prop} {cx : Context} {expr : NodeId} {loc : Span} {site : DiscardSite}
  {self : NodeId × DiscardSite → Pass NodeId}

/-- A reduction keeps untainted sets, and what is left of an expression in one is audible. -/
def Speaks (cx : Context) (expr r : NodeId) (t : Context) : Prop :=
  ∀ S, cx.arena.Untainted S → untainted.Reduces cx S expr r t ∧ (S expr → Audible cx r t)

/-- The same for a reduction that may have no answer. -/
def Proposes (cx : Context) (o : Option NodeId) (t : Context) : Prop :=
  (∀ e, o = some e → e ≠ .error) ∧ (o = none → Audible cx .error t)

theorem proposes_some (h : expr ≠ .error) (t : Context) : Proposes cx (some expr) t :=
  ⟨fun _ he => Option.some.inj he ▸ h, nofun⟩

/-- A new node is not the error node. -/
theorem proposes_buildLike {t : Context} {other : NodeId} {kind : NodeKind} {span : Span} :
    wlp (some <$> edit (Arena.buildLike other kind span)) (Proposes cx) t := by
  rw [wlp_map, wlp_edit]
  refine Arena.wlp_buildLike fun m hm => Arena.wlp_build fun _ _ => proposes_some ?_ _
  exact (Arena.ne_size_of_isSome (Arena.isSome_error (Option.isSome_of_mem hm))).symm

section Void

variable (hself : ∀ p cx, True → wlp (self p) (fun r t => cx.Counts t ∧ Speaks cx p.1 r t) cx)
include hself

theorem proposes_voidCond {first third : NodeId} {second : Option NodeId}
    (hx : cx.arena.Untainted S) (hexpr : expr ≠ .error)
    (hreads : ∀ op ∈ second.toList ++ [third], S op) :
    wlp (voidCond self expr first second third loc site) (Proposes cx) cx := by
  have hthird : S third := hreads third (by simp)
  refine wlp_voidCond (P := fun o t => cx.Counts t ∧ (∃ T, t.arena.Untainted T ∧ T third) ∧
    (o = some .error → Audible cx .error t)) (fun place => ?_) ?_
  · rw [wlp_mapM]
    cases second with
    | none => exact ⟨.refl cx, ⟨S, hx, hthird⟩, nofun⟩
    | some op =>
      refine (hself (op, place) cx trivial).mono fun r t ⟨hcounts, hr⟩ => ?_
      obtain ⟨⟨T, hT, hl, -⟩, haudible⟩ := hr S hx
      exact ⟨hcounts, ⟨T, hT, hl.2.mem third hthird⟩,
        fun he => Option.some.inj he ▸ haudible (hreads op (by simp))⟩
  · rintro o t place ⟨hcounts, ⟨T, hT, hthird⟩, ho⟩
    refine (hself (third, place) t trivial).mono fun r u ⟨hcounts', hr⟩ => ?_
    refine ⟨?_, fun _ _ _ => proposes_some hexpr u, fun _ _ _ => proposes_buildLike⟩
    rintro (he | he)
    · exact ⟨nofun, fun _ hconfig _ =>
        Nat.lt_of_lt_of_le (ho he hconfig rfl) hcounts'.errorCount_le⟩
    · exact ⟨nofun, fun _ => he ▸ ((hr T hT).2 hthird).after hcounts⟩

theorem proposes_voidByKind {n : Node} {type : NodeId} (hx : cx.arena.Untainted S) (hexpr : S expr)
    (hn : cx.arena.find? expr = some n) :
    wlp (voidByKind self expr type loc site) (Proposes cx) cx := by
  have hne : expr ≠ .error := fun he => hx.error (he ▸ hexpr)
  have hreads : ∀ op ∈ n.readOperands, S op := hx.complete.reads hexpr hn
  refine wlp_voidByKind hn (fun first second third hk => ?_) (fun lhs rhs hk => ?_)
    (fun pointer hk => ?_) fun _ _ _ _ => proposes_some hne _
  · exact proposes_voidCond hself hx hne fun op hop => hreads op (by
      simpa only [Node.readOperands, hk] using hop)
  · refine wlp_voidComma fun place => (hself (rhs, place) cx trivial).mono fun r t hr => ?_
    have haudible := (hr.2 S hx).2 (hreads rhs (Node.mem_readOperands_comma hk))
    exact ⟨fun he => ⟨by simp, fun _ => he ▸ haudible⟩, fun _ _ => proposes_some hne t,
      fun _ _ => proposes_buildLike⟩
  · have hpointer : S pointer := hreads pointer (Node.mem_readOperands_unary hk rfl)
    exact wlp_voidDeref (fun _ _ => proposes_some hne _)
      fun _ _ => proposes_some (fun he => hx.error (he ▸ hpointer)) _

theorem audible_voidTyped (hx : cx.arena.Untainted S) (hexpr : S expr) :
    wlp (voidTyped self expr loc site) (Audible cx) cx := by
  have hne : expr ≠ .error := fun he => hx.error (he ▸ hexpr)
  refine wlp_voidTyped (fun _ _ _ => audible_of_ne hne) fun n type hn _ _ => ?_
  refine (proposes_voidByKind hself hx hexpr hn).mono fun o t ho => ⟨fun e he => ?_, ho.2⟩
  exact wlp_collapse (fun _ => audible_of_ne (ho.1 e he)) fun _ => audible_of_ne (by decide)

theorem audible_voidNode (cx : Context) (hx : cx.arena.Untainted S) (hexpr : S expr) :
    wlp (voidNode self expr loc site) (Audible cx) cx := by
  have hunread : ¬ cx.arena.ReadAlong expr .error := fun h =>
    hx.error (Arena.enclosed_of_reads (fun _ hid _ hn => hx.complete.reads hid hn) hexpr _ h)
  unfold voidNode
  rw [wlp_bind]
  refine ((audible_classifyDiscarded (hx.complete.isSome hexpr) hunread).and
    ((keepsErrors_law.classifyDiscarded expr cx).and
      (classifyDiscarded_places untainted_lawful expr cx ⟨hx, trivial⟩))).mono ?_
  rintro r t ⟨haudible, hcounts, T, hT, hl, hr⟩
  -- what stands in the place of the expression is in the set, unless it is the error node
  have hmem : r ≠ .error → T r := fun hne => complete_stand (hr hne).1 (hl.2.mem expr hexpr)
  rw [wlp_bind, wlp_query]
  intro erroneous herr
  cases erroneous with
  | true =>
    refine wlp_pure.2 ?_
    by_cases he : r = .error
    · exact he ▸ haudible
    · exact absurd herr (hT.not_erroneous (hmem he))
  | false =>
    have hne : r ≠ .error := by
      rintro rfl
      cases herr
    have hread : KeepsErrors (when (site == .cast) (recordRead r)) :=
      @Composes.when _ keepsErrors_law.toComposes _ (recordRead r) (keepsErrors_law.recordRead r) _
    rw [if_neg Bool.false_ne_true, wlp_bind]
    refine (wlp_read.and (hread t)).mono fun _ u ⟨hmark, hcounts'⟩ => ?_
    obtain ⟨hu, -⟩ := keeps_of_marked untainted_lawful hmark T hT
    exact (audible_voidTyped hself hu (hmem hne)).mono
      fun _ _ hv => hv.after (hcounts.trans hcounts')

theorem speaks_toVoidStep (cx : Context) :
    wlp (toVoidStep self (expr, site)) (Speaks cx expr) cx := by
  refine wlp_forall.2 fun S hx => ?_
  refine (toVoidStep_reduces untainted_lawful cx (fun p t T hT =>
    (hself p t trivial).mono fun _ _ hr => (hr.2 T hT.sound).1) ⟨hx, trivial⟩).and ?_
  by_cases hexpr : S expr
  · refine wlp.mono (P := Audible cx) ?_ fun _ _ hr _ => hr
    unfold toVoidStep
    rw [wlp_bind, wlp_query]
    intro erroneous herr
    cases erroneous with
    | true => exact absurd herr (hx.not_erroneous hexpr)
    | false =>
      rw [if_neg Bool.false_ne_true, wlp_bind, wlp_location]
      exact fun loc _ => audible_nested fun level =>
        audible_voidNode hself { cx with nesting := level } hx hexpr
  · exact fun _ _ _ h => absurd h hexpr

end Void

/-- The reduction of an expression in an untainted set. -/
theorem speaks_toVoid : wlp (toVoid expr site) (Speaks cx expr) cx :=
  (wlp_recursively_keeping (P := fun _ _ => True)
    (Q := fun cx (p : NodeId × DiscardSite) => Speaks cx p.1) (fun _ => keepsErrors_law.toVoidStep)
    (fun _ hself _ cx _ => speaks_toVoidStep hself cx) trivial).mono fun _ _ hr => hr.2

/-- An expression with which no erroneous node is read is in an untainted set, if no handle that is
read along dangles and all nodes have the types that their operands give them. -/
theorem untainted_readAlong (hread : ∀ x, cx.arena.ReadAlong expr x → ∃ n,
      cx.arena.find? x = some n ∧ cx.arena.Typed n ∧ cx.arena.isErroneous x ≠ .ok true) :
    cx.arena.Untainted (cx.arena.ReadAlong expr) where
  complete id hid := by
    obtain ⟨n, hn, -⟩ := hread id hid
    exact ⟨n, hn, fun op hop => hid.tail ⟨n, hn, hop⟩⟩
  sane id n hid hn := by
    obtain ⟨m, hm, htyped, herr⟩ := hread id hid
    cases hn.symm.trans hm
    refine ⟨htyped, fun pointer hk => ?_, fun ht => herr ?_⟩
    · have hstep : cx.arena.ReadOperand id pointer :=
        ⟨n, hn, Node.mem_readOperands_unary hk rfl⟩
      obtain ⟨p, hp, -⟩ := hread pointer (hid.tail hstep)
      exact Option.isSome_of_mem hp
    · exact Arena.isErroneous_eq_true_iff.2 (.inr (Arena.map_eq_ok_iff.2
        ⟨n, Arena.node_eq_ok_iff.2 hn, ht⟩))
  error hid := by
    obtain ⟨-, -, -, herr⟩ := hread _ hid
    exact herr (Arena.isErroneous_eq_true_iff.2 (.inl rfl))

/-- A use that answers has looked at the node, unless it is the error node. -/
theorem isSome_of_classifyUse {mode : UseMode} (hexpr : expr ≠ .error) :
    wlp (classifyUse expr mode) (fun _ _ => (cx.arena.find? expr).isSome = true) cx := by
  refine wlp_recursively_of_step fun self => ?_
  unfold classifyUseStep
  rw [wlp_bind, wlp_query]
  intro erroneous herr
  rw [Arena.isErroneous, if_neg hexpr] at herr
  obtain ⟨_, htype, -⟩ := Arena.map_eq_ok_iff.1 herr
  obtain ⟨n, hn, -⟩ := Arena.map_eq_ok_iff.1 htype
  exact fun _ _ _ => Option.isSome_of_mem (Arena.node_eq_ok_iff.1 hn)

theorem isSome_of_classifyDiscarded :
    wlp (classifyDiscarded expr) (fun _ _ => (cx.arena.find? expr).isSome = true) cx := by
  refine wlp_recursively_of_step fun self => ?_
  unfold classifyDiscardedStep
  rw [wlp_bind, wlp_query]
  intro inner hs
  obtain ⟨n, hn, -⟩ := Arena.map_eq_ok_iff.1 hs
  exact fun _ _ _ => Option.isSome_of_mem (Arena.node_eq_ok_iff.1 hn)

/-- Where all errors are kept, the error node is never a silent answer: if a use, a discarded use or
a reduction answers with it, then an error has been reported, or an erroneous node was read along
with the expression.  A reduction needs that no handle that is read along dangles, and that
dereferences of references and location wrappers have the types that their operands give them. -/
theorem errors_reported (cx : Context) (expr : NodeId) (hqueue : cx.queue.config = .unlimited) :
    (∀ mode t, classifyUse expr mode cx = .ok .error t → cx.queue.errorCount < t.queue.errorCount ∨
      ∃ x, cx.arena.ReadAlong expr x ∧ cx.arena.isErroneous x = .ok true) ∧
    (∀ t, classifyDiscarded expr cx = .ok .error t → cx.queue.errorCount < t.queue.errorCount ∨
      ∃ x, cx.arena.ReadAlong expr x ∧ cx.arena.isErroneous x = .ok true) ∧
    (cx.arena.Intact expr →
      (∀ x n, cx.arena.ReadAlong expr x → cx.arena.find? x = some n → cx.arena.Typed n) →
      ∀ site t, toVoid expr site cx = .ok .error t → cx.queue.errorCount < t.queue.errorCount ∨
        ∃ x, cx.arena.ReadAlong expr x ∧ cx.arena.isErroneous x = .ok true) := by
  -- without an erroneous node the error node itself is not read
  have hunread : (¬ ∃ x, cx.arena.ReadAlong expr x ∧ cx.arena.isErroneous x = .ok true) →
      ¬ cx.arena.ReadAlong expr .error := fun hnone h => hnone ⟨_, h, rfl⟩
  refine ⟨fun mode t hrun => or_iff_not_imp_right.2 fun hnone => ?_,
    fun t hrun => or_iff_not_imp_right.2 fun hnone => ?_,
    fun hintact htyped site t hrun => or_iff_not_imp_right.2 fun hnone => ?_⟩
  · have hne : expr ≠ .error := fun he => hunread hnone (he ▸ .refl)
    exact audible_classifyUse (isSome_of_classifyUse hne _ t hrun) (hunread hnone) _ t hrun hqueue rfl
  · exact audible_classifyDiscarded (isSome_of_classifyDiscarded _ t hrun) (hunread hnone) _ t hrun
      hqueue rfl
  · have hset : cx.arena.Untainted (cx.arena.ReadAlong expr) := untainted_readAlong fun x hx => by
      obtain ⟨n, hn⟩ := Option.isSome_iff_exists.1 (hintact x hx)
      exact ⟨n, hn, htyped x n hx hn, fun herr => hnone ⟨x, hx, herr⟩⟩
    exact (speaks_toVoid .error t hrun _ hset).2 .refl hqueue rfl

/-- With room for one level, the reduction of `c ? *f() : x` ends with a report. -/
theorem errors_reported_tooDeep :
    let cx := Context.ofArena .conditional ⟨1, .unlimited⟩
    ∃ t, toVoid ⟨11⟩ .statement cx = .ok .error t ∧ 0 < t.queue.errorCount := by
  intro cx
  obtain ⟨t, ht⟩ := answer?_eq_some_iff.1
    (show (toVoid ⟨11⟩ .statement).answer? cx = some .error by decide +kernel)
  have hread : cx.arena.Enclosed (· ∈ [⟨8⟩, ⟨9⟩, ⟨10⟩, ⟨11⟩]) ⟨11⟩ :=
    Arena.enclosed_of_reads (by decide +kernel) (by decide)
  have htyped : ∀ x n, cx.arena.find? x = some n → cx.arena.Typed n :=
    Arena.forall_find?_iff.2 (by decide +kernel)
  have hthere : ∀ x ∈ [⟨8⟩, ⟨9⟩, ⟨10⟩, (⟨11⟩ : NodeId)], (cx.arena.find? x).isSome = true ∧
      cx.arena.isErroneous x ≠ .ok true := by decide +kernel
  refine ⟨t, ht, ((errors_reported cx ⟨11⟩ rfl).2.2 (fun x hx => (hthere x (hread x hx)).1)
    (fun x n _ => htyped x n) .statement t ht).resolve_right ?_⟩
  rintro ⟨x, hx, herr⟩
  exact (hthere x (hread x hx)).2 herr

end Pass

namespace Arena

/-- The arena of the conditional `c ? (f(), 0) : (f(), x)`, whose last node it is.  The type of the
void value has been made the error node.  The comma of the third branch is in two location wrappers,
and its right operand leads to the node that is built next. -/
def danglingComma : Arena :=
  { Arena.initial with
    nodes := (Arena.initial.nodes.set! 1 ⟨.voidConst, some .error, .empty, .unknown⟩) ++ #[
      ⟨.call none .empty, some .intType, .single .effect, .unknown⟩,
      ⟨.intConst 0, some .intType, .empty, .unknown⟩,
      ⟨.comma ⟨6⟩ ⟨7⟩, some .intType, .single .effect, .unknown⟩,
      ⟨.comma ⟨6⟩ ⟨13⟩, some .intType, .single .effect, .unknown⟩,
      ⟨.unary .viewConvert ⟨9⟩, some .intType, .ofList [.effect, .locationWrapper], ⟨1, 2⟩⟩,
      ⟨.unary .viewConvert ⟨10⟩, some .intType, .ofList [.effect, .locationWrapper], ⟨1, 2⟩⟩,
      ⟨.cond ⟨7⟩ (some ⟨8⟩) ⟨11⟩, some .intType, .single .effect, .unknown⟩] }

end Arena

namespace Pass

open ExprTree.Action

/-- The comma that is left of the second branch is erroneous, and takes the place of the dangling
handle before the third branch is reduced: the answer is the error node, without a report. -/
theorem not_errors_reported :
    let cx := Context.ofArena .danglingComma ⟨16, .unlimited⟩
    (∀ x n, cx.arena.find? x = some n → cx.arena.Typed n) ∧
      (∀ x, cx.arena.ReadAlong ⟨12⟩ x → cx.arena.isErroneous x ≠ .ok true) ∧
      ∃ t, toVoid ⟨12⟩ .statement cx = .ok .error t ∧ t.queue = cx.queue := by
  intro cx
  have hread : cx.arena.Enclosed (· ∈ [⟨7⟩, ⟨8⟩, ⟨9⟩, ⟨10⟩, ⟨11⟩, ⟨12⟩, ⟨13⟩]) ⟨12⟩ :=
    Arena.enclosed_of_reads (by decide +kernel) (by decide)
  have hclean : ∀ x ∈ [⟨7⟩, ⟨8⟩, ⟨9⟩, ⟨10⟩, ⟨11⟩, ⟨12⟩, (⟨13⟩ : NodeId)],
      cx.arena.isErroneous x ≠ .ok true := by decide +kernel
  obtain ⟨t, ht⟩ := answer?_eq_some_iff.1
    (show (toVoid ⟨12⟩ .statement).answer? cx = some .error by decide +kernel)
  have hqueue : ((toVoid ⟨12⟩ .statement).last cx).queue = cx.queue := by decide +kernel
  refine ⟨Arena.forall_find?_iff.2 (by decide +kernel), fun x hx => hclean x (hread x hx), t, ht, ?_⟩
  rwa [last_eq_of_ok ht] at hqueue

end Pass

end ExprTree
