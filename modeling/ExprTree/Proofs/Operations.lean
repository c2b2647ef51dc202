import ExprTree.Arena.Offset
import ExprTree.Proofs.VoidReturns
import ExprTree.Proofs.WalkReturns

/-!
# Operations on closed arenas

In a closed arena whose texts and conversions end, no operation on a node ends in a fault, and each
leaves a closed arena with all the nodes that were there.  A reduction exchanges operands, which can
close a chain of conversions where a pointer loses its type on the way; a walk depends on a visitor
that leaves the levels of recursion alone.

* `Arena.Supplies` — what a builder makes of a closed arena.
* `Arena.returns_offsetPointer` — the address of an element.
* `Pass.Tidy`, `Pass.Delivers` — passes that return and leave a closed arena.
* `Pass.operations_return` — all operations.
* `Pass.operations_fault` — a reduction and a walk that do not return.
-/

namespace ExprTree

/-! ### Builders -/

namespace Arena

open ExprTree.Action

variable {a b c : Arena} {s r id base index type : NodeId} {kind : NodeKind} {loc : Span}

/-- A closed arena with a node, and with all nodes that were there. -/
structure Supplies (a : Arena) (r : NodeId) (b : Arena) : Prop where
  closed : b.Closed
  mem : (b.find? r).isSome = true
  kept : ∀ id, (a.find? id).isSome = true → (b.find? id).isSome = true

theorem Supplies.self (h : a.Closed) (hid : (a.find? id).isSome = true) : a.Supplies id a :=
  ⟨h, hid, fun _ h => h⟩

theorem Supplies.trans (h : a.Supplies s b) (h' : b.Supplies r c) : a.Supplies r c :=
  ⟨h'.closed, h'.mem, fun id hid => h'.kept id (h.kept id hid)⟩

theorem append_supplies {m : Node} (h : a.Closed) (hholds : a.Holds m.kind)
    (htype : ∀ t, m.type = some t → (a.find? t).isSome = true) :
    a.Supplies ⟨a.size⟩ (a.append m) :=
  ⟨h.append hholds fun t ht => find?_isSome_append (htype t ht), by rw [find?_append_new]; rfl,
    fun _ => find?_isSome_append⟩

/-- The operands of a kind without operand lists are there. -/
theorem holds_of_nodes (hnodes : ∀ x ∈ kind.nodes, (a.find? x).isSome = true)
    (hslices : kind.slices = []) : a.Holds kind :=
  ⟨hnodes, hslices ▸ nofun⟩

theorem addConst_supplies {value : Int64} (h : a.Closed) (htype : (a.find? type).isSome = true) :
    a.Supplies (a.addConst (.intConst value) type).1 (a.addConst (.intConst value) type).2 :=
  append_supplies h (holds_of_nodes nofun rfl) fun _ ht => Option.some.inj ht ▸ htype

theorem build_supplies {type : Option NodeId} (h : a.Closed) (hholds : a.Holds kind)
    (htype : ∀ t, type = some t → (a.find? t).isSome = true) :
    wlp (build kind type loc) a.Supplies a :=
  wlp_build fun _ _ => append_supplies h hholds htype

theorem returns_build {type : Option NodeId} (h : a.Closed) (hholds : a.Holds kind)
    (htype : ∀ t, type = some t → (a.find? t).isSome = true) :
    Returns (build kind type loc) a.Supplies a :=
  (faultless_build hholds htype).of_wlp (build_supplies h hholds htype)

theorem returns_buildLike {other : NodeId} (h : a.Closed) (hholds : a.Holds kind)
    (hother : (a.find? other).isSome = true) : Returns (buildLike other kind loc) a.Supplies a :=
  (faultless_buildLike h hholds hother).of_wlp
    (wlp_buildLike fun n hn => build_supplies h hholds (h.type other n hn))

/-! ### The address of an element -/

theorem Closed.stride? (h : a.Closed) (hbase : (a.find? base).isSome = true) :
    ∃ o, a.stride? base = .ok o := by
  obtain ⟨n, hn⟩ := Option.isSome_iff_exists.1 hbase
  have htype : a.typeOf base = .ok n.type := map_node_of_find? hn
  simp only [Arena.stride?, htype, bind, Except.bind]
  cases ht : n.type with
  | none => exact ⟨none, rfl⟩
  | some pointer =>
    obtain ⟨target, htarget, hmem⟩ := h.indirectTarget? (h.type base n hn pointer ht)
    simp only [htarget]
    split
    · exact ⟨none, rfl⟩
    cases target with
    | none => exact ⟨none, rfl⟩
    | some element =>
      obtain ⟨m, hm⟩ := Option.isSome_iff_exists.1 (hmem element rfl)
      obtain ⟨size, hsize⟩ : ∃ size, a.sizeInBytes element = .ok size :=
        ⟨_, map_kindOf_of_find? hm⟩
      simp only [hsize]
      split
      · exact ⟨none, rfl⟩
      · cases size <;> exact ⟨_, rfl⟩

theorem returns_foldConvert (h : a.Closed) (hindex : (a.find? index).isSome = true)
    (htype : (a.find? type).isSome = true) :
    Returns (foldConvert index type loc) a.Supplies a := by
  obtain ⟨n, hn⟩ := Option.isSome_iff_exists.1 hindex
  refine returns_ask (node_eq_ok_iff.2 hn) ?_
  split
  · exact returns_pure (.self h hindex)
  split
  · exact ⟨_, _, rfl, addConst_supplies h htype⟩
  · refine returns_build h (holds_of_nodes (fun x hx => ?_) rfl) fun _ ht =>
      Option.some.inj ht ▸ htype
    exact List.mem_singleton.1 hx ▸ hindex

theorem returns_foldMult {factor : Int64} (h : a.Closed)
    (hindex : (a.find? index).isSome = true) (htype : (a.find? type).isSome = true) :
    Returns (foldMult index factor type loc) a.Supplies a := by
  obtain ⟨n, hn⟩ := Option.isSome_iff_exists.1 hindex
  unfold foldMult
  split
  · exact returns_pure (.self h hindex)
  refine returns_ask (kindOf_eq_ok_iff.2 ⟨n, hn, rfl⟩) ?_
  split
  · exact ⟨_, _, rfl, addConst_supplies h htype⟩
  · have hfactor : a.Supplies (a.addConst (.intConst factor) type).1
        (a.addConst (.intConst factor) type).2 := addConst_supplies h htype
    refine returns_bind ⟨_, _, rfl, ?_⟩
    refine (returns_build hfactor.closed (holds_of_nodes (fun x hx => ?_) rfl) fun _ ht =>
      Option.some.inj ht ▸ hfactor.kept type htype).mono fun _ _ hb => hfactor.trans hb
    rcases List.mem_pair.1 hx with rfl | rfl
    · exact hfactor.kept x hindex
    · exact hfactor.mem

/-- The address of an element is built, or there is none. -/
theorem returns_offsetPointer (h : a.Closed) (hsize : (a.find? .sizeType).isSome = true)
    (hbase : (a.find? base).isSome = true) (hindex : (a.find? index).isSome = true) :
    Returns (offsetPointer base index loc)
      (fun r b => r = .error ∧ b = a ∨ a.Supplies r b) a := by
  unfold offsetPointer
  split
  · exact returns_pure (.inl ⟨rfl, rfl⟩)
  obtain ⟨stride, hstride⟩ := h.stride? hbase
  refine returns_ask hstride ?_
  cases stride with
  | none => exact returns_pure (.inl ⟨rfl, rfl⟩)
  | some stride =>
    refine returns_bind ((returns_foldConvert h hindex hsize).mono fun i b hb => ?_)
    refine returns_bind ((returns_foldMult hb.closed hb.mem (hb.kept _ hsize)).mono
      fun offset c hc => ?_)
    have hrun := hb.trans hc
    obtain ⟨n, hn⟩ := Option.isSome_iff_exists.1 hc.mem
    refine returns_ask (kindOf_eq_ok_iff.2 ⟨n, hn, rfl⟩) ?_
    split
    · exact returns_pure (.inr ⟨hrun.closed, hrun.kept base hbase, hrun.kept⟩)
    · refine (returns_buildLike hrun.closed (holds_of_nodes (fun x hx => ?_) rfl)
        (hrun.kept base hbase)).mono fun _ _ hd => .inr (hrun.trans hd)
      rcases List.mem_pair.1 hx with rfl | rfl
      · exact hrun.kept x hbase
      · exact hrun.mem

end Arena

/-! ### Passes -/

namespace Pass

open ExprTree.Action

variable {cx : Context} {expr r : NodeId} {t : Context}

/-- A pass returns and leaves a closed arena with all nodes that were there, and the depths as they
were. -/
def Tidy {α : Type} (p : Pass α) (cx : Context) : Prop :=
  Returns p (fun _ t => cx.Keeps Arena.Closed t) cx

/-- A pass does so, and the answer is a node of the arena or the error node. -/
def Delivers (p : Pass NodeId) (cx : Context) : Prop :=
  Returns p (fun r t => cx.Keeps Arena.Closed t ∧ (r ≠ .error → (t.arena.find? r).isSome = true)) cx

theorem delivers_of_staysClosed {p : Pass NodeId} (hp : Faultless p cx)
    (hclosed : wlp p (StaysClosed cx expr) cx) (hbalanced : Balanced p)
    (hexpr : (cx.arena.find? expr).isSome = true) : Delivers p cx := by
  refine (hp.of_wlp (hclosed.and (hbalanced.restores cx))).mono ?_
  rintro r t ⟨⟨hev, hclosed, hr⟩, hdepth⟩
  exact ⟨⟨hclosed, fun _ => hev.isSome, hdepth⟩, fun hne => (hr hne).isSome (hev.isSome hexpr)⟩

theorem delivers_classifyUse {mode : UseMode} (h : cx.arena.Spellable)
    (hexpr : (cx.arena.find? expr).isSome = true) : Delivers (classifyUse expr mode) cx :=
  delivers_of_staysClosed (faultless_classifyUse h hexpr) (closed_classifyUse h.closed)
    (balanced_law.classifyUse expr mode) hexpr

theorem delivers_classifyDiscarded (h : cx.arena.Spellable)
    (hexpr : (cx.arena.find? expr).isSome = true) : Delivers (classifyDiscarded expr) cx :=
  delivers_of_staysClosed (faultless_classifyDiscarded h hexpr) (closed_classifyDiscarded h.closed)
    (balanced_law.classifyDiscarded expr) hexpr

theorem delivers_toVoid {site : DiscardSite} (h : cx.arena.Chained)
    (hexpr : (cx.arena.find? expr).isSome = true) : Delivers (toVoid expr site) cx :=
  delivers_of_staysClosed (faultless_toVoid h hexpr) (closed_toVoid h.spellable.closed)
    (balanced_law.toVoid expr site) hexpr

theorem tidy_recordRead (h : cx.arena.Closed) (hexpr : (cx.arena.find? expr).isSome = true) :
    Tidy (recordRead expr) cx := by
  refine ((faultless_recordRead (h.intact hexpr)).of_wlp ((closed_recordRead h).and
    ((balanced_law.recordRead expr).restores cx))).mono ?_
  rintro _ t ⟨⟨hev, hclosed⟩, hdepth⟩
  exact ⟨hclosed, fun _ => hev.isSome, hdepth⟩

theorem dereference_supplies (h : cx.arena.Closed)
    (hexpr : (cx.arena.find? expr).isSome = true) :
    wlp (dereference expr) (fun r t => cx.arena.Supplies r t.arena) cx := by
  refine wlp_dereference (fun _ => .self h hexpr) fun target htarget => ?_
  refine (closed_recordRead h).mono fun _ t ⟨hev, hclosed⟩ span _ => ?_
  have htype : (t.arena.find? target).isSome = true :=
    hclosed.isSome_referent (hev.referent? htarget)
  have hread : cx.arena.Supplies expr t.arena := ⟨hclosed, hev.isSome hexpr, fun _ => hev.isSome⟩
  refine (Arena.build_supplies hclosed (Arena.holds_of_nodes (fun x hx => ?_) rfl) fun _ ht =>
    Option.some.inj ht ▸ htype).mono fun _ _ hb => hread.trans hb
  exact List.mem_singleton.1 hx ▸ hread.mem

theorem delivers_dereference (h : cx.arena.Closed) (hexpr : (cx.arena.find? expr).isSome = true) :
    Delivers (dereference expr) cx := by
  refine ((faultless_dereference h hexpr).of_wlp ((dereference_supplies h hexpr).and
    ((balanced_law.dereference expr).restores cx))).mono ?_
  rintro r t ⟨hr, hdepth⟩
  exact ⟨⟨hr.closed, hr.kept, hdepth⟩, fun _ => hr.mem⟩

theorem tidy_warnIgnored {site : DiscardSite} (h : cx.arena.Spellable)
    (hstrip : cx.arena.Strippable) (hexpr : (cx.arena.find? expr).isSome = true) :
    Tidy (warnIgnored expr site) cx :=
  (reports_warnIgnored h hstrip hexpr).returns rfl fun _ _ => ⟨h.closed, fun _ h => h, rfl, rfl⟩

theorem delivers_offsetPointer {index : NodeId} {loc : Span} (h : cx.arena.Closed)
    (hsize : (cx.arena.find? .sizeType).isSome = true)
    (hexpr : (cx.arena.find? expr).isSome = true)
    (hindex : (cx.arena.find? index).isSome = true) :
    Delivers (edit (Arena.offsetPointer expr index loc)) cx := by
  refine returns_edit ((Arena.returns_offsetPointer h hsize hexpr hindex).mono ?_)
  rintro r b (⟨rfl, rfl⟩ | hb)
  · exact ⟨.refl h, fun hne => absurd rfl hne⟩
  · exact ⟨⟨hb.closed, hb.kept, rfl, rfl⟩, fun _ => hb.mem⟩

/-- In an arena in which no handle dangles, every text ends and no chain of conversions comes back,
every operation on a node returns, in every mode and context, and leaves a closed arena with all
nodes that were there.  A reduction does where moreover no chain of conversions comes back over a
pointer that can lose its type, and a walk does where the calls of its visitor do and leave the
depths as they were. -/
theorem operations_return (cx : Context) (expr : NodeId) (h : cx.arena.Spellable)
    (hstrip : cx.arena.Strippable) (hsize : (cx.arena.find? .sizeType).isSome = true)
    (hexpr : (cx.arena.find? expr).isSome = true) :
    (∀ mode : UseMode, Delivers (classifyUse expr mode) cx) ∧
    (∀ (loc : Span) (reject : Bool), Delivers (rvalueUseAt expr loc reject) cx) ∧
    Delivers (rvalueUse expr) cx ∧
    (∀ read : Bool, Delivers (lvalueUse expr read) cx) ∧
    Delivers (classifyDiscarded expr) cx ∧
    Tidy (recordRead expr) cx ∧
    Delivers (dereference expr) cx ∧
    ((∀ id, ¬ Relation.TransGen cx.arena.Turns id id) →
      ∀ site : DiscardSite, Delivers (toVoid expr site) cx) ∧
    (∀ site : DiscardSite, Tidy (warnIgnored expr site) cx) ∧
    (∀ (index : NodeId) (loc : Span), (cx.arena.find? index).isSome = true →
      Delivers (edit (Arena.offsetPointer expr index loc)) cx) ∧
    ∀ {σ : Type} {K : Arena → Prop} {v : Visitor σ} (user : σ) (visited : Option Visited),
      (∀ a, K a → a.Closed) → v.Careful K → K cx.arena →
        Walk.Careful K (walkTree v expr) ⟨user, visited, cx⟩ ∧
        ∀ descend, Walk.Careful K (walkLanguage v expr descend) ⟨user, visited, cx⟩ := by
  have huse : ∀ mode : UseMode, Delivers (classifyUse expr mode) cx := fun _ =>
    delivers_classifyUse h hexpr
  exact ⟨huse, fun _ _ => huse _, huse _, fun _ => returns_bind ⟨cx, cx, rfl, huse _⟩,
    delivers_classifyDiscarded h hexpr, tidy_recordRead h.closed hexpr,
    delivers_dereference h.closed hexpr, fun hturns _ => delivers_toVoid (h.chained hturns) hexpr,
    fun _ => tidy_warnIgnored h hstrip hexpr,
    fun _ _ hindex => delivers_offsetPointer h.closed hsize hexpr hindex,
    fun _ _ hK hv hcx => ⟨Walk.careful_walkTree hK hv hcx hexpr, fun _ =>
      Walk.careful_walkLanguage hK hv hcx hexpr⟩⟩

end Pass

/-- A visitor that records a read of every node. -/
def Visitor.reading : Visitor Unit := fun id => do
  liftM (Pass.recordRead id)
  return ⟨none, true⟩

theorem Visitor.careful_reading : Visitor.reading.Careful Arena.Closed := fun _ _ _ h hid =>
  Action.returns_bind (Action.returns_liftM
    ((Pass.tidy_recordRead h hid).mono fun _ _ ht => Action.returns_pure ht))

namespace Pass

/-- A comma that contains itself is reduced, and walked with a visitor that records reads. -/
theorem operations_return_selfComma :
    let cx := Context.ofArena .selfComma .standard
    Arena.selfComma.Sound ∧ Delivers (toVoid ⟨6⟩ .statement) cx ∧
      Walk.Careful Arena.Closed (walkTree .reading ⟨6⟩) ⟨(), none, cx⟩ := by
  intro cx
  have hclosed : Arena.selfComma.Closed := by decide +kernel
  have hsound : Arena.selfComma.Sound := hclosed.sound (by decide +kernel)
  obtain ⟨-, -, -, -, -, -, -, hvoid, -, -, hwalk⟩ := operations_return cx ⟨6⟩
    hsound.spellable hsound.chained.strippable (by decide) (by decide)
  exact ⟨hsound, hvoid hsound.not_turns .statement,
    (hwalk () none (fun _ h => h) Visitor.careful_reading hclosed).1⟩

end Pass

/-- A conversion of a dereference whose pointer is a location wrapper with another type than its
operand, which is the value of the conversion; and a conditional that uses the conversion as an
object before it calls it. -/
def Arena.mistyped : Arena :=
  { Arena.initial with
    nodes := Arena.initial.nodes ++ #[
      ⟨.functionType .intType .empty, none, .empty, .unknown⟩,
      ⟨.pointerType ⟨6⟩, none, .empty, .unknown⟩,
      ⟨.referenceType ⟨7⟩, none, .empty, .unknown⟩,
      ⟨.unary .deref ⟨12⟩, some ⟨7⟩, .empty, .unknown⟩,
      ⟨.unary .nop ⟨9⟩, some ⟨7⟩, .empty, .unknown⟩,
      ⟨.unary .nonLvalue ⟨10⟩, some ⟨7⟩, .empty, .unknown⟩,
      ⟨.unary .viewConvert ⟨11⟩, some ⟨8⟩, .single .locationWrapper, .unknown⟩,
      ⟨.componentRef ⟨10⟩ .void, some .intType, .empty, .unknown⟩,
      ⟨.call (some ⟨10⟩) .empty, some .intType, .empty, .unknown⟩,
      ⟨.cond .void (some ⟨13⟩) ⟨14⟩, some .intType, .empty, .unknown⟩] }

/-- A visitor that starts the levels of recursion anew. -/
def Visitor.restarting : Visitor Unit := fun _ => do
  modify fun (user, cx) => (user, { cx with nesting := .ofLimit Nesting.standardLimit })
  return ⟨none, true⟩

namespace Pass

/-- Two operations that end in a fault although no handle dangles, every text ends and no chain of
conversions comes back.  In the course of the reduction of the conditional the value takes the place
of the dereference, so that the conversions of the callee have no end.  A walk leaves a level that
has not been entered when its visitor starts the levels anew, even if it leaves the arena as it
was. -/
theorem operations_fault :
    let cx := Context.ofArena .mistyped .standard
    (Arena.mistyped.Spellable ∧ Arena.mistyped.Strippable) ∧
      (toVoid ⟨15⟩ .statement).fault? cx = some .endless ∧
      (∀ id s, Action.Returns (Visitor.restarting id) (fun _ t => t.2.arena = s.2.arena) s) ∧
      (walkTree .restarting ⟨15⟩).fault? ⟨(), none, cx⟩ = some .unbalancedExit := by
  have hclosed : Arena.mistyped.Closed := by decide +kernel
  refine ⟨⟨hclosed.spellable (by decide +kernel), ?_⟩, by decide +kernel, fun _ _ => ?_,
    by decide +kernel⟩
  · exact Arena.not_transGen_of_older Node.converted? (by decide +kernel)
  · exact ⟨_, _, rfl, rfl⟩

end Pass

end ExprTree
