import ExprTree.Arena.Offset
import ExprTree.Proofs.Builders
import ExprTree.Proofs.Closed
import ExprTree.Proofs.Balance
import ExprTree.Proofs.Reduction
import ExprTree.Proofs.WalkLaws

/-!
# Stored operand lists

All operand lists of an arena lie one behind the other, and a node has only a slice of them.  Lists
are stored behind the others and none is ever changed, so whatever a slice holds once, it holds in
every later state of the arena.

* `Arena.Persists` — the lists of an arena stay, and so do the slices in nodes that keep their kind.
* `Arena.Changes`, `Arena.Changes.sustains` — builders and changes in place.
* `Pass.Preserves`, `Walk.preserves_walks` — passes and walks.
* `Context.Later` — the states after any run of these.
* `Arena.lists_persist` — operand lists in all later states.
-/

namespace ExprTree

namespace NodeKind

variable {k : NodeKind}

/-- What has operand lists has no operand that a pass may exchange. -/
theorem isExchangeable_of_slices (h : k.slices ≠ []) : k.isExchangeable = false := by
  cases k <;> first | exact absurd rfl h | rfl

theorem mapDecl_of_slices (h : k.slices ≠ []) (f : Decl → Decl) : k.mapDecl f = k := by
  cases k <;> first | exact absurd rfl h | rfl

end NodeKind

namespace Arena

open ExprTree.Action

variable {kept : NodeId → Prop} {a b c : Arena} {r : NodeSlice} {ids : List NodeId}

/-! ### Lists that stay -/

/-- The operand lists of one arena are in another where they were, and so are the slices in those
nodes that are to keep their kinds. -/
structure Persists (kept : NodeId → Prop) (a b : Arena) : Prop where
  lists : a.lists.toList <+: b.lists.toList
  kind : ∀ id n, kept id → a.find? id = some n → n.kind.slices ≠ [] →
    ∃ m, b.find? id = some m ∧ m.kind = n.kind

namespace Persists

protected theorem refl (a : Arena) : a.Persists kept a where
  lists := List.prefix_rfl
  kind _ n _ hn _ := ⟨n, hn, rfl⟩

theorem trans (h : a.Persists kept b) (h' : b.Persists kept c) : a.Persists kept c where
  lists := h.lists.trans h'.lists
  kind id n hid hn hslices := by
    obtain ⟨m, hm, hmn⟩ := h.kind id n hid hn hslices
    obtain ⟨k, hk, hkm⟩ := h'.kind id m hid hm (hmn ▸ hslices)
    exact ⟨k, hk, hkm.trans hmn⟩

/-- A slice holds what it held. -/
theorem list (h : a.Persists kept b) (hr : a.list r = .ok ids) : b.list r = .ok ids := by
  obtain ⟨more, hmore⟩ := h.lists
  unfold Arena.list at hr ⊢
  split
  · rename_i hempty
    rwa [if_pos hempty] at hr
  · rename_i hempty
    rw [if_neg hempty] at hr
    split at hr
    · rename_i hstop
      cases hr
      have hold : r.stop ≤ a.lists.toList.length := hstop
      have hnew : r.stop ≤ b.lists.size := by
        rw [← Array.length_toList, ← hmore, List.length_append]
        omega
      rw [if_pos hnew]
      simp only [Array.toList_extract, ← hmore, List.extract_eq_take_drop, ← List.drop_take,
        List.take_append_of_le_length hold]
    · cases hr

/-- Passes store no lists. -/
theorem of_evolves (h : a.Evolves b) : a.Persists kept b where
  lists := by rw [h.lists_eq]
  kind id n _ hn hslices := by
    obtain ⟨m, hm, hnm⟩ := h.node id n hn
    exact ⟨m, hm, NodeKind.eq_of_skeleton hnm.skeleton_eq
      (NodeKind.isExchangeable_of_slices hslices)⟩

end Persists

/-! ### Builders and changes in place -/

/-- An action whose runs leave the lists as they are, wherever they end. -/
def Sustains {α : Type} (kept : NodeId → Prop) (p : Action Arena α) : Prop :=
  ∀ a : Arena, a.Persists kept (p.last a)

section Sustains

variable {α β : Type} {kind : NodeKind} {type : Option NodeId} {span : Span} {id : NodeId}

theorem sustains_ask (question : Arena → Except Fault α) : Sustains kept (ask question) := by
  intro a
  rw [last_ask]
  exact .refl a

theorem Sustains.bind {p : Action Arena α} {f : α → Action Arena β} (hp : Sustains kept p)
    (hf : ∀ r, Sustains kept (f r)) : Sustains kept (p >>= f) := by
  intro a
  have hp := hp a
  rw [last_bind]
  split
  · rename_i r b hrun
    rw [last_eq_of_ok hrun] at hp
    exact hp.trans (hf r b)
  · rename_i hrun
    rwa [last_eq_of_error hrun] at hp

theorem sustains_pure (r : α) : Sustains kept (pure r) := sustains_ask fun _ => .ok r

/-- What touches neither nodes nor lists. -/
theorem sustains_aside {f : Arena → α × Arena}
    (h : ∀ a, (f a).2.nodes = a.nodes ∧ (f a).2.lists = a.lists) : Sustains kept (modifyGet f) := by
  intro a
  have hfind : ∀ id, (f a).2.find? id = a.find? id := fun id => by
    rw [find?, (h a).1]
    rfl
  exact ⟨by rw [← (h a).2]; exact List.prefix_rfl, fun id n _ hn _ => ⟨n, (hfind id).trans hn, rfl⟩⟩

theorem sustains_intern {s : String} : Sustains kept (modifyGet (·.intern s)) :=
  sustains_aside fun _ => ⟨rfl, rfl⟩

theorem sustains_alloc : Sustains kept (modifyGet (·.alloc kind type span)) :=
  fun _ => ⟨List.prefix_rfl, fun _ n _ hn _ => ⟨n, find?_append_of_some hn, rfl⟩⟩

/-- A list is stored behind the others. -/
theorem persists_allocList (a : Arena) (ids : List NodeId) :
    a.Persists kept (a.allocList ids).2 := by
  unfold allocList
  split
  · exact .refl a
  · refine ⟨?_, fun id n _ hn _ => ⟨n, hn, rfl⟩⟩
    rw [Array.toList_appendList]
    exact List.prefix_append _ _

theorem sustains_allocList : Sustains kept (modifyGet (·.allocList ids)) :=
  fun a => persists_allocList a ids

theorem sustains_update {f : Node → Node}
    (h : kept id → ∀ n, n.kind.slices ≠ [] → (f n).kind = n.kind) :
    Sustains kept (update id f) := by
  intro a
  unfold last update
  by_cases hid : id.index < a.size
  · rw [if_pos hid]
    refine ⟨List.prefix_rfl, fun other n hother hn hslices => ?_⟩
    have hm := find?_change a id f other
    by_cases ho : other = id
    · subst ho
      rw [if_pos rfl, hn] at hm
      exact ⟨f n, hm, h hother n hslices⟩
    · rw [if_neg ho, hn] at hm
      exact ⟨n, hm, rfl⟩
  · rw [if_neg hid]
    exact .refl a

theorem sustains_insertFlags {flags : NodeFlags} : Sustains kept (insertFlags id flags) :=
  sustains_update fun _ _ _ => rfl

theorem sustains_deriveFlags : Sustains kept (deriveFlags id) :=
  (sustains_ask _).bind fun _ => sustains_insertFlags

theorem sustains_build : Sustains kept (build kind type span) :=
  sustains_alloc.bind fun _ => sustains_deriveFlags.bind fun _ => sustains_pure _

theorem sustains_buildLike {other : NodeId} : Sustains kept (buildLike other kind span) :=
  (sustains_ask _).bind fun _ => sustains_build

theorem sustains_addRecordType {name : String} {size : Option Nat} :
    Sustains kept (modifyGet (·.addRecordType name size span)) := by
  have hbuild : (modifyGet (·.addRecordType name size span) : Action Arena NodeId) = (do
      let name ← modifyGet (·.intern name)
      let next ← ask fun a => .ok a.size
      let record ← modifyGet (·.addType (.recordType (some ⟨next + 1⟩) size none))
      let _ ← modifyGet (·.alloc (.decl .typeName (.named name)) (some record) span)
      return record) := rfl
  rw [hbuild]
  exact sustains_intern.bind fun _ => (sustains_ask _).bind fun _ => sustains_alloc.bind fun r =>
    sustains_alloc.bind fun _ => sustains_pure r

theorem sustains_addQualified {quals : NodeFlags} : Sustains kept (addQualified id quals) := by
  refine (sustains_ask _).bind fun n => sustains_alloc.bind fun variant =>
    sustains_insertFlags.bind fun _ => ?_
  -- the attributes are copied one by one, and lie beside the lists
  refine Sustains.bind (sustains_aside (f := fun a => (PUnit.unit,
    (a.attributesOf id).foldl (·.addAttribute variant ·) a)) fun a => ?_) fun _ => sustains_pure _
  generalize a.attributesOf id = attrs
  induction attrs generalizing a with
  | nil => exact ⟨rfl, rfl⟩
  | cons attr attrs ih => exact ih (a.addAttribute variant attr)

theorem sustains_offsetPointer {base index : NodeId} {loc : Span} :
    Sustains kept (offsetPointer base index loc) := by
  have hconst : ∀ kind type, Sustains kept (modifyGet (·.addConst kind type)) :=
    fun _ _ => sustains_alloc
  have hconvert : ∀ expr type, Sustains kept (foldConvert expr type loc) := by
    intro expr type
    refine (sustains_ask _).bind fun n => ?_
    split
    · exact sustains_pure _
    · split
      · exact hconst _ _
      · exact sustains_build
  have hmult : ∀ expr factor type, Sustains kept (foldMult expr factor type loc) := by
    intro expr factor type
    unfold foldMult
    split
    · exact sustains_pure _
    · refine (sustains_ask _).bind fun k => ?_
      split
      · exact hconst _ _
      · exact (hconst _ _).bind fun _ => sustains_build
  unfold offsetPointer
  split
  · exact sustains_pure _
  refine (sustains_ask _).bind fun stride => ?_
  cases stride with
  | none => exact sustains_pure _
  | some stride =>
    refine (hconvert _ _).bind fun i => (hmult _ _ _).bind fun offset =>
      (sustains_ask _).bind fun k => ?_
    split
    · exact sustains_pure _
    · exact sustains_buildLike

end Sustains

/-- A builder, or a change in place.  The kind of a node is replaced only if it is not to be
kept. -/
inductive Changes (kept : NodeId → Prop) : {α : Type} → Action Arena α → Prop
  | alloc {kind : NodeKind} {type : Option NodeId} {span : Span} :
    Changes kept (modifyGet (·.alloc kind type span))
  | build {kind : NodeKind} {type : Option NodeId} {span : Span} :
    Changes kept (build kind type span)
  | list {ids : List NodeId} : Changes kept (modifyGet (·.allocList ids))
  | name {s : String} : Changes kept (modifyGet (·.intern s))
  | attached {id : NodeId} {attr : Attribute} : Changes kept (modify (·.addAttribute id attr))
  | setKind {id : NodeId} {kind : NodeKind} (h : ¬ kept id) : Changes kept (setKind id kind)
  | setType {id : NodeId} {type : Option NodeId} : Changes kept (setType id type)
  | setSpan {id : NodeId} {span : Span} : Changes kept (setSpan id span)
  | insertFlags {id : NodeId} {flags : NodeFlags} : Changes kept (insertFlags id flags)
  | removeFlags {id : NodeId} {flags : NodeFlags} : Changes kept (removeFlags id flags)
  | deriveFlags {id : NodeId} : Changes kept (deriveFlags id)
  | type {kind : NodeKind} : Changes kept (modifyGet (·.addType kind))
  | functionType {result : NodeId} {params : List NodeId} :
    Changes kept (modifyGet (·.addFunctionType result params))
  | recordType {name : String} {size : Option Nat} {span : Span} :
    Changes kept (modifyGet (·.addRecordType name size span))
  | completeRecord {record : NodeId} {size : Nat} : Changes kept (completeRecord record size)
  | qualified {type : NodeId} {quals : NodeFlags} : Changes kept (addQualified type quals)
  | decl {sort : DeclSort} {name : String} {type : NodeId} {span : Span} :
    Changes kept (addDecl sort name type span)
  | updateDecl {id : NodeId} {f : Decl → Decl} : Changes kept (updateDecl id f)
  | const {kind : NodeKind} {type : NodeId} : Changes kept (modifyGet (·.addConst kind type))
  | string {text : String} {type : NodeId} : Changes kept (modifyGet (·.addString text type))
  | nonLvalue {operand : NodeId} {span : Span} : Changes kept (buildNonLvalue operand span)
  | comma {lhs rhs : NodeId} {span : Span} : Changes kept (buildComma lhs rhs span)
  | assignment {lhs rhs : NodeId} {span : Span} : Changes kept (buildAssignment lhs rhs span)
  | component {object field : NodeId} {span : Span} :
    Changes kept (buildComponent object field span)
  | target {slot initial : NodeId} {span : Span} : Changes kept (buildTarget slot initial span)
  | call {callee : Option NodeId} {args : List NodeId} {type : Option NodeId} {span : Span} :
    Changes kept (buildCall callee args type span)
  | wrapper {operand : NodeId} {span : Span} : Changes kept (buildWrapper operand span)
  | offset {base index : NodeId} {loc : Span} : Changes kept (offsetPointer base index loc)

theorem Changes.sustains {α : Type} {p : Action Arena α} (h : Changes kept p) :
    Sustains kept p := by
  cases h with
  | alloc | type | const => exact sustains_alloc
  | build => exact sustains_build
  | list => exact sustains_allocList
  | name => exact sustains_intern
  | @attached id attr =>
    exact sustains_aside (f := fun a => (PUnit.unit, a.addAttribute id attr)) fun _ => ⟨rfl, rfl⟩
  | setKind hid => exact sustains_update fun h => absurd h hid
  | setType | setSpan | insertFlags | removeFlags => exact sustains_update fun _ _ _ => rfl
  | deriveFlags => exact sustains_deriveFlags
  | functionType => exact sustains_allocList.bind fun _ => sustains_alloc
  | recordType => exact sustains_addRecordType
  | completeRecord =>
    refine sustains_update fun _ n hslices => ?_
    split
    · rename_i hk
      rw [hk] at hslices
      exact absurd rfl hslices
    · rfl
  | qualified => exact sustains_addQualified
  | decl => exact sustains_intern.bind fun _ => sustains_build
  | updateDecl => exact sustains_update fun _ n hslices => NodeKind.mapDecl_of_slices hslices _
  | string => exact sustains_intern.bind fun _ => sustains_alloc
  | nonLvalue | comma | assignment | component | target => exact sustains_buildLike
  | call => exact sustains_allocList.bind fun _ => sustains_build
  | wrapper =>
    exact (sustains_ask _).bind fun _ => sustains_buildLike.bind fun _ =>
      sustains_insertFlags.bind fun _ => sustains_pure _
  | offset => exact sustains_offsetPointer

end Arena

/-! ### Passes -/

/-- The reading that says nothing. -/
def Reading.silent : Reading Unit where
  Sound _ _ := True
  Fits _ _ _ _ := True
  Stands _ _ _ _ := True
  Same _ _ _ _ := True
  Extends _ _ _ _ := True

theorem Reading.silent_lawful : silent.Lawful where
  extends_refl _ _ := trivial
  extends_trans _ _ := trivial
  fits_mono _ _ := trivial
  stands_mono _ _ := trivial
  same_mono _ _ := trivial
  stands_refl _ _ _ := trivial
  stands_trans _ _ := trivial
  same_of_stands _ := trivial
  same_trans _ _ := trivial
  fits_self _ _ := trivial
  fits_rewritten _ _ _ := trivial
  unwrap _ _ _ := trivial
  touch _ _ _ _ _ _ _ := ⟨trivial, trivial⟩
  rebuild _ _ _ _ _ := ⟨trivial, trivial⟩
  dereference _ _ _ _ _ _ _ := ⟨(), trivial, trivial, trivial⟩
  reference _ _ _ _ := trivial
  access _ _ _ _ _ := trivial
  reduce _ _ _ _ _ _ := ⟨(), trivial, trivial, trivial⟩
  nothing _ _ := trivial

namespace Action

open HasContext

section Preserves

variable {σ τ α β : Type} [MonadLiftT Pass (Action σ)] [HasContext σ] [MonadLiftT Pass (Action τ)]
  [HasContext τ] {kept : NodeId → Prop} {p : Action σ α} {f : α → Action σ β}

/-- Runs that return leave the operand lists of the arena as they are. -/
def Preserves (kept : NodeId → Prop) (p : Action σ α) : Prop :=
  ∀ s, wlp p (fun _ t => (context s).arena.Persists kept (context t).arena) s

theorem preserves_ask (question : σ → Except Fault α) : Preserves kept (ask question) :=
  fun _ => wlp_ask.2 fun _ _ => .refl _

theorem Preserves.bind (hp : Preserves kept p) (hf : ∀ r, Preserves kept (f r)) :
    Preserves kept (p >>= f) := fun s =>
  wlp_bind.2 ((hp s).mono fun r t ht => (hf r t).mono fun _ _ hu => ht.trans hu)

theorem preserves_of_eq (h : ∀ s, (context (p.last s)).arena = (context s).arena) :
    Preserves kept p := by
  intro s r t hrun
  have hs := h s
  rw [last_eq_of_ok hrun] at hs
  rw [hs]
  exact .refl _

theorem Preserves.on {part : σ → τ} {put : σ → τ → σ} {p : Action τ α} (hp : Preserves kept p)
    (hpart : ∀ s, context (part s) = context s) (hput : ∀ s t, context (put s t) = context t) :
    Preserves kept (on part put p) := by
  intro s
  refine wlp_on.2 ((hp (part s)).mono fun r t ht => ?_)
  rwa [hput, ← hpart]

theorem Preserves.lift {p : Pass α} (hp : Preserves kept p) :
    Preserves kept (liftM p : Action σ α) := by
  rw [lift_eq_on]
  exact hp.on (fun _ => rfl) context_setContext

theorem preserves_enter (span : Span) : Preserves kept (Pass.enter span) := by
  refine preserves_of_eq fun cx => ?_
  cases hroom : cx.nesting.enter with
  | ok inner => rw [last_eq_of_ok (Pass.enter_of_ok hroom)]; rfl
  | error e => rw [last_eq_of_ok (Pass.enter_of_error hroom)]; rfl

theorem preserves_leave : Preserves kept Pass.leave := by
  refine preserves_of_eq fun cx => ?_
  unfold last Pass.leave
  cases cx.nesting.leave <;> rfl

theorem Preserves.nested {span : Span} {overflow : α} (hp : Preserves kept p) :
    Preserves kept (Pass.nested span overflow p) := by
  refine (preserves_enter span).lift.bind fun entered => ?_
  split
  · exact hp.bind fun r => preserves_leave.lift.bind fun _ => preserves_ask fun _ => .ok r
  · exact preserves_ask fun _ => .ok overflow

theorem Preserves.tryFinally {q : Action σ Unit} (hp : Preserves kept p) (hq : Preserves kept q) :
    Preserves kept (tryFinally p q) := fun s =>
  wlp_tryFinally ((hp s).mono fun _ t ht => (hq t).mono fun _ _ hu => ht.trans hu)

theorem Preserves.unevaluated (hp : Preserves kept p) : Preserves kept (Pass.unevaluated p) := by
  have henter : Preserves kept Pass.enterUnevaluated := preserves_of_eq fun _ => rfl
  have hleave : Preserves kept Pass.leaveUnevaluated := by
    refine preserves_of_eq fun cx => ?_
    unfold last Pass.leaveUnevaluated
    by_cases hdepth : cx.unevaluatedDepth = 0
    · rw [if_pos hdepth]
    · rw [if_neg hdepth]
      rfl
  exact henter.lift.bind fun _ => hp.tryFinally hleave.lift

end Preserves

end Action

namespace Walk

open ExprTree.Action

variable {σ : Type} {kept : NodeId → Prop} {v : Visitor σ}

/-- Walks leave the operand lists as they are when their visitors do. -/
theorem preserves_walks (hv : ∀ id, Preserves kept (v id)) : Law v (Preserves kept) where
  ask := preserves_ask
  bind := Preserves.bind
  nested := Preserves.nested
  unevaluated := Preserves.unevaluated
  arrive id := preserves_of_eq fun s => by
    obtain ⟨arrived, visited, hrun⟩ := arrive_runs id s.user s.visited
    rw [last_eq_of_ok (hrun s.context)]
    rfl
  visit id := by
    have hvisit : visit v id = on (fun s => (s.user, s.context))
        (fun s t => { s with user := t.1, context := t.2 }) (v id) := funext (visit_eq v id)
    rw [hvisit]
    exact (hv id).on (fun _ => rfl) fun _ _ => rfl

end Walk

namespace Pass

open ExprTree.Action

variable {kept : NodeId → Prop} {expr : NodeId} {site : DiscardSite}

theorem preserves_classifyUse (mode : UseMode) : Preserves kept (classifyUse expr mode) := by
  intro cx
  refine (Reading.classifyUse_places Reading.silent_lawful expr mode cx (x := ())
    ⟨trivial, trivial⟩).mono ?_
  rintro _ t ⟨_, _, hl, _⟩
  exact .of_evolves hl.1

theorem preserves_classifyDiscarded : Preserves kept (classifyDiscarded expr) := by
  intro cx
  refine (Reading.classifyDiscarded_places Reading.silent_lawful expr cx (x := ())
    ⟨trivial, trivial⟩).mono ?_
  rintro _ t ⟨_, _, hl, _⟩
  exact .of_evolves hl.1

theorem preserves_toVoid : Preserves kept (toVoid expr site) := by
  intro cx
  refine (Reading.toVoid_reduces Reading.silent_lawful expr site cx (x := ())
    ⟨trivial, trivial⟩).mono ?_
  rintro _ t ⟨_, _, hl, _⟩
  exact .of_evolves hl.1

theorem preserves_recordRead : Preserves kept (recordRead expr) := by
  intro cx
  refine (Reading.recordRead_keeps Reading.silent_lawful expr cx).mono fun _ t ht => ?_
  exact .of_evolves (ht () trivial).2.1

theorem preserves_dereference : Preserves kept (dereference expr) := by
  intro cx
  refine wlp_dereference (fun _ => .refl _) fun target _ => ?_
  refine (preserves_recordRead cx).mono fun _ t ht span _ r b hrun => ht.trans ?_
  have hbuild : t.arena.Persists kept
      ((Arena.build (.unary .deref expr) (some target) span).last t.arena) :=
    Arena.sustains_build t.arena
  rwa [last_eq_of_ok hrun] at hbuild

theorem preserves_warnIgnored : Preserves kept (warnIgnored expr site) := by
  intro cx _ t hrun
  rw [quiet_warnIgnored cx _ t hrun]
  exact .refl _

end Pass

/-! ### Later states -/

namespace Context

open ExprTree.Action

/-- The second context is a later state of the first: builders, changes in place, passes and walks
that return, and whatever leaves the arena alone were run in between.  The kinds of the nodes that
are to be kept were not replaced. -/
inductive Later (kept : NodeId → Prop) : Context → Context → Prop
  | refl (cx : Context) : Later kept cx cx
  | trans {cx t u : Context} (h : Later kept cx t) (h' : Later kept t u) : Later kept cx u
  | change {cx : Context} {α : Type} {p : Action Arena α} (h : Arena.Changes kept p) :
    Later kept cx { cx with arena := p.last cx.arena }
  | use {cx t : Context} {expr r : NodeId} {mode : UseMode}
    (hrun : Pass.classifyUse expr mode cx = .ok r t) : Later kept cx t
  | rvalueUse {cx t : Context} {expr r : NodeId} (hrun : Pass.rvalueUse expr cx = .ok r t) :
    Later kept cx t
  | rvalueUseAt {cx t : Context} {expr r : NodeId} {loc : Span} {rejectBuiltin : Bool}
    (hrun : Pass.rvalueUseAt expr loc rejectBuiltin cx = .ok r t) : Later kept cx t
  | lvalueUse {cx t : Context} {expr r : NodeId} {read : Bool}
    (hrun : Pass.lvalueUse expr read cx = .ok r t) : Later kept cx t
  | discardedUse {cx t : Context} {expr r : NodeId}
    (hrun : Pass.classifyDiscarded expr cx = .ok r t) : Later kept cx t
  | read {cx t : Context} {expr : NodeId} (hrun : Pass.recordRead expr cx = .ok () t) :
    Later kept cx t
  | dereference {cx t : Context} {value r : NodeId} (hrun : Pass.dereference value cx = .ok r t) :
    Later kept cx t
  | toVoid {cx t : Context} {expr r : NodeId} {site : DiscardSite}
    (hrun : Pass.toVoid expr site cx = .ok r t) : Later kept cx t
  | warnIgnored {cx t : Context} {expr : NodeId} {site : DiscardSite}
    (hrun : Pass.warnIgnored expr site cx = .ok () t) : Later kept cx t
  /-- The calls of a visitor may do all this, too. -/
  | walkTree {σ : Type} {v : Visitor σ} {id : NodeId} {r : Option NodeId} {s t : WalkState σ}
    (hv : ∀ id s r t, v id s = .ok r t → Later kept s.2 t.2) (hrun : walkTree v id s = .ok r t) :
    Later kept s.context t.context
  | walkLanguage {σ : Type} {v : Visitor σ} {id : NodeId} {descend : Bool}
    {r : LanguageWalk × Bool} {s t : WalkState σ}
    (hv : ∀ id s r t, v id s = .ok r t → Later kept s.2 t.2)
    (hrun : walkLanguage v id descend s = .ok r t) : Later kept s.context t.context
  | other {cx t : Context} (h : t.arena = cx.arena) : Later kept cx t

/-- Operand lists stay in all later states. -/
theorem Later.persists {kept : NodeId → Prop} {cx t : Context} (h : Later kept cx t) :
    cx.arena.Persists kept t.arena := by
  induction h with
  | refl cx => exact .refl cx.arena
  | trans _ _ ih ih' => exact ih.trans ih'
  | @change cx _ _ h => exact h.sustains cx.arena
  | use hrun | rvalueUse hrun | rvalueUseAt hrun => exact Pass.preserves_classifyUse _ _ _ _ hrun
  | lvalueUse hrun => exact Pass.preserves_classifyUse _ _ _ _ hrun
  | discardedUse hrun => exact Pass.preserves_classifyDiscarded _ _ _ hrun
  | read hrun => exact Pass.preserves_recordRead _ _ _ hrun
  | dereference hrun => exact Pass.preserves_dereference _ _ _ hrun
  | toVoid hrun => exact Pass.preserves_toVoid _ _ _ hrun
  | warnIgnored hrun => exact Pass.preserves_warnIgnored _ _ _ hrun
  | walkTree _ hrun ih =>
    exact (Walk.preserves_walks fun id s r t hv => ih id s r t hv).walkTree _ _ _ _ hrun
  | walkLanguage _ hrun ih =>
    exact (Walk.preserves_walks fun id s r t hv => ih id s r t hv).walkLanguage _ _ _ _ _ hrun
  | other h => exact h ▸ .refl _

end Context

namespace Arena

open ExprTree.Action Context

variable {kept : NodeId → Prop} {a b : Arena} {kind : NodeKind} {type : Option NodeId} {span : Span}
  {r : NodeSlice} {ids : List NodeId}

theorem length_allocList (a : Arena) (ids : List NodeId) :
    (a.allocList ids).1.length = ids.length := by
  unfold allocList
  split
  · rename_i hempty
    rw [List.isEmpty_iff.1 hempty]
    rfl
  · rfl

theorem start_allocList (h : ids ≠ []) : (a.allocList ids).1.start = a.lists.size := by
  rw [allocList, if_neg (by simpa using h)]

/-- A slice that holds something lies before every list that is stored later. -/
theorem Persists.stop_le (h : a.Persists kept b) (hr : a.list r = .ok ids) (hids : ids ≠ []) :
    r.stop ≤ b.lists.size := by
  have hb := h.list hr
  unfold Arena.list at hb
  split at hb
  · cases hb
    exact absurd rfl hids
  · split at hb
    · rename_i hstop
      exact hstop
    · cases hb

/-- A built node is there with its kind, even if its flags cannot be derived. -/
theorem exists_built (h : kind.slices ≠ []) :
    ∃ n, ((build kind type span).last a).find? ⟨a.size⟩ = some n ∧ n.kind = kind := by
  have hflags : (a.append ⟨kind, type, .empty, span⟩).Persists (fun _ => True)
      ((build kind type span).last a) :=
    sustains_deriveFlags.bind (fun _ => sustains_pure _) (a.append ⟨kind, type, .empty, span⟩)
  exact hflags.kind _ _ trivial (find?_append_new a _) h

/-- A node that is to be kept has its slices in all later states, with what they hold. -/
theorem Persists.slice {id : NodeId} (h : a.Persists kept b) (hid : kept id)
    (hn : ∃ n, a.find? id = some n ∧ n.kind = kind) (hr : r ∈ kind.slices)
    (hlist : a.list r = .ok ids) :
    b.kindOf id = .ok kind ∧ b.list r = .ok ids := by
  obtain ⟨n, hn, rfl⟩ := hn
  obtain ⟨m, hm, hkind⟩ := h.kind id n hid hn (List.ne_nil_of_mem hr)
  exact ⟨kindOf_eq_ok_iff.2 ⟨m, hm, hkind⟩, h.list hlist⟩

/-- Operand lists in all later states.

* A list, however long, has a slice of its length, which holds it in every later state, and lies
  before the slices of all lists stored later, unless one of the lists is empty.
* A node built with a slice has it in every later state, with what it held, unless its kind is
  replaced.
* A call and a function type are built with a slice for their arguments and parameters. -/
theorem lists_persist (kept : NodeId → Prop) (cx : Context) :
    (∀ ids t, Later kept { cx with arena := (cx.arena.allocList ids).2 } t →
      (cx.arena.allocList ids).1.length = ids.length ∧
      t.arena.list (cx.arena.allocList ids).1 = .ok ids ∧
      ∀ ids', ids ≠ [] → ids' ≠ [] →
        (cx.arena.allocList ids).1.stop ≤ (t.arena.allocList ids').1.start) ∧
    (∀ kind type span r ids, r ∈ kind.slices → cx.arena.list r = .ok ids → kept ⟨cx.arena.size⟩ →
      ∀ t, Later kept { cx with arena := (build kind type span).last cx.arena } t ∨
          Later kept { cx with arena := (cx.arena.alloc kind type span).2 } t →
        t.arena.kindOf ⟨cx.arena.size⟩ = .ok kind ∧ t.arena.list r = .ok ids) ∧
    (∀ callee args type span, kept ⟨cx.arena.size⟩ →
      ∀ t, Later kept { cx with arena := (buildCall callee args type span).last cx.arena } t →
        t.arena.kindOf ⟨cx.arena.size⟩ = .ok (.call callee (cx.arena.allocList args).1) ∧
        t.arena.operands ⟨cx.arena.size⟩ = .ok (callee.toList ++ args)) ∧
    ∀ result params, kept ⟨cx.arena.size⟩ →
      ∀ t, Later kept { cx with arena := (cx.arena.addFunctionType result params).2 } t →
        t.arena.kindOf ⟨cx.arena.size⟩ =
          .ok (.functionType result (cx.arena.allocList params).1) ∧
        t.arena.typeFields ⟨cx.arena.size⟩ = .ok (result :: params) := by
  refine ⟨fun ids t ht => ?_, fun kind type span r ids hr hlist hkept t ht => ?_,
    fun callee args type span hkept t ht => ?_, fun result params hkept t ht => ?_⟩
  · have hstored : (cx.arena.allocList ids).2.list (cx.arena.allocList ids).1 = .ok ids :=
      list_allocList ids
    refine ⟨length_allocList .., ht.persists.list hstored, fun ids' hids hids' => ?_⟩
    rw [start_allocList hids']
    exact ht.persists.stop_le hstored hids
  · have hslices : kind.slices ≠ [] := List.ne_nil_of_mem hr
    rcases ht with ht | ht
    · have hbuilt : cx.arena.Persists kept ((build kind type span).last cx.arena) :=
        sustains_build cx.arena
      exact ht.persists.slice hkept (exists_built hslices) hr (hbuilt.list hlist)
    · have hbuilt : cx.arena.Persists kept (cx.arena.alloc kind type span).2 :=
        sustains_alloc cx.arena
      exact ht.persists.slice hkept ⟨_, find?_append_new cx.arena _, rfl⟩ hr (hbuilt.list hlist)
  · let a := (cx.arena.allocList args).2
    let call := NodeKind.call callee (cx.arena.allocList args).1
    have hbuild : ∃ n, ((build call type span).last a).find? ⟨a.size⟩ = some n ∧ n.kind = call :=
      exists_built (by nofun)
    have hbuilt : a.Persists kept ((build call type span).last a) := sustains_build a
    have hlist := hbuilt.list (list_allocList args)
    rw [show a.size = cx.arena.size from size_allocList ..] at hbuild
    obtain ⟨hkind, hargs⟩ := ht.persists.slice hkept hbuild (List.mem_singleton_self _) hlist
    exact ⟨hkind, bind_eq_ok_iff.2 ⟨_, hkind, map_eq_ok_iff.2 ⟨args, hargs, rfl⟩⟩⟩
  · have hbuild := find?_append_new (cx.arena.allocList params).2
      ⟨.functionType result (cx.arena.allocList params).1, none, .empty, .unknown⟩
    have hlist : (cx.arena.addFunctionType result params).2.list (cx.arena.allocList params).1 =
        .ok params := list_allocList params
    rw [size_allocList] at hbuild
    obtain ⟨hkind, hparams⟩ :=
      ht.persists.slice hkept ⟨_, hbuild, rfl⟩ (List.mem_singleton_self _) hlist
    exact ⟨hkind, bind_eq_ok_iff.2 ⟨_, hkind, map_eq_ok_iff.2 ⟨params, hparams, rfl⟩⟩⟩

/-- A call is built, another list is stored, and the value of the call is discarded. -/
theorem lists_persist_call : ∃ t,
    Later (fun _ => True) (.ofArena ((buildCall none [.void, .error] (some .intType) .unknown).last
      .initial) .standard) t ∧
    t.arena.lists = #[.void, .error, .boolType] ∧ t.arena.operands ⟨6⟩ = .ok [.void, .error] := by
  let cx := Context.ofArena
    ((buildCall none [.void, .error] (some .intType) .unknown).last .initial) .standard
  let stored := { cx with arena := (cx.arena.allocList [.boolType]).2 }
  obtain ⟨t, ht⟩ := answer?_eq_some_iff.1
    (show (Pass.toVoid ⟨6⟩ .statement).answer? stored = some ⟨6⟩ by decide +kernel)
  have hlists : ((Pass.toVoid ⟨6⟩ .statement).last stored).arena.lists =
      #[.void, .error, .boolType] := by decide +kernel
  rw [last_eq_of_ok ht] at hlists
  have hstore : Changes (fun _ => True) (modifyGet (·.allocList [.boolType])) := .list
  have hlater : Later (fun _ => True) cx t :=
    .trans (.change hstore) (.toVoid ht)
  exact ⟨t, hlater, hlists, ((lists_persist (fun _ => True) (.ofArena .initial .standard)).2.2.1
    none [.void, .error] (some .intType) .unknown trivial t hlater).2⟩

end Arena

end ExprTree
