import ExprTree.Proofs.Warnings
import ExprTree.Proofs.DerivedFlags
import ExprTree.Proofs.Reads
import ExprTree.Proofs.Runs

/-!
# Runs side by side

Two runs start in contexts that differ in what has been reported, in the number of unevaluated
operands around them, and in which variables count as read.  The rules below compare them: where
both return, the answers are related and the contexts still differ in nothing else.

* `Action.Coupled` — two actions that keep a relation between their states.
* `Arena.unread` — an arena without its marks of reads.
* `Arena.parallel_deriveFlags`, `Arena.parallel_build` — changes of arenas that agree but for reads.
* `Context.Agrees` — contexts that passes cannot tell apart.
* `Pass.Passive` — passes that report, or mark reads, and do nothing else.
* `Pass.coupled_edit`, `Pass.coupled_nested` — rules for passes.
-/

namespace ExprTree

namespace Action

variable {σ α β γ δ : Type} {E : σ → σ → Prop} {R : α → β → Prop} {S : γ → δ → Prop}

/-- Where both actions return from related states, their answers are related, and so are the states
in which they return. -/
def Coupled (E : σ → σ → Prop) (R : α → β → Prop) (p : Action σ α) (q : Action σ β) : Prop :=
  ∀ ⦃s s'⦄, E s s' → ∀ ⦃r t r' t'⦄, p s = .ok r t → q s' = .ok r' t' → R r r' ∧ E t t'

theorem coupled_pure {x : α} {y : β} (h : R x y) :
    Coupled E R (pure x : Action σ α) (pure y) := by
  rintro s s' hs _ _ _ _ ⟨⟩ ⟨⟩
  exact ⟨h, hs⟩

theorem Coupled.bind {p : Action σ α} {q : Action σ β} {f : α → Action σ γ} {g : β → Action σ δ}
    (h : Coupled E R p q) (hf : ∀ x y, R x y → Coupled E S (f x) (g y)) :
    Coupled E S (p >>= f) (q >>= g) := by
  intro s s' hs r t r' t' hp hq
  obtain ⟨x, u, hx, hp⟩ := bind_eq_ok_iff.1 hp
  obtain ⟨y, u', hy, hq⟩ := bind_eq_ok_iff.1 hq
  obtain ⟨hxy, hu⟩ := h hs hx hy
  exact hf x y hxy hu hp hq

/-- The same where the answers of the first parts are equal. -/
theorem Coupled.bind_eq {p q : Action σ α} {f : α → Action σ γ} {g : α → Action σ δ}
    (h : Coupled E Eq p q) (hf : ∀ x, Coupled E S (f x) (g x)) :
    Coupled E S (p >>= f) (q >>= g) :=
  h.bind fun x _ hxy => hxy ▸ hf x

theorem Coupled.map {p : Action σ α} {q : Action σ β} {f : α → γ} {g : β → δ}
    (h : Coupled E R p q) (hf : ∀ x y, R x y → S (f x) (g y)) :
    Coupled E S (f <$> p) (g <$> q) := by
  rw [map_eq_pure_bind, map_eq_pure_bind]
  exact h.bind fun x y hxy => coupled_pure (hf x y hxy)

theorem coupled_ask {p : σ → Except Fault α} {q : σ → Except Fault β}
    (h : ∀ s s', E s s' → ∀ r r', p s = .ok r → q s' = .ok r' → R r r') :
    Coupled E R (ask p) (ask q) := by
  intro s s' hs r t r' t' hp hq
  obtain ⟨hr, rfl⟩ := ask_eq_ok_iff.1 hp
  obtain ⟨hr', rfl⟩ := ask_eq_ok_iff.1 hq
  exact ⟨h s s' hs r r' hr hr', hs⟩

/-- Actions that run alike are coupled. -/
theorem Parallel.coupled {p q : Action σ α} (h : Parallel E p q) : Coupled E Eq p q := by
  intro s s' hs r t r' t' hp hq
  have halike := h hs
  rw [hp, hq] at halike
  cases halike with
  | ok ht => exact ⟨rfl, ht⟩

end Action

/-! ### Arenas without reads -/

namespace Node

/-- A node without its mark of a read. -/
def unread (n : Node) : Node := { n with flags := n.flags.diff (.single .read) }

theorem unread_markRead (n : Node) : n.markRead.unread = n.unread := by
  simp only [unread, markRead, NodeFlags.union_diff_self]

theorem has_unread (n : Node) {f : Flag} (hf : f ≠ .read) :
    n.unread.flags.has f = n.flags.has f := by
  simp [unread, Ne.symm hf]

theorem wrapped?_unread (n : Node) : n.unread.wrapped? = n.wrapped? := by
  simp only [wrapped?, has_unread n (f := .locationWrapper) (by decide)]
  rfl

theorem unread_unread (n : Node) : n.unread.unread = n.unread := by
  simp [unread, NodeFlags.diff, BitVec.and_assoc]

theorem isWrapper_unread (n : Node) : n.unread.isWrapper = n.isWrapper := by
  rw [isWrapper, n.wrapped?_unread, isWrapper]

theorem readOperands_unread (n : Node) : n.unread.readOperands = n.readOperands := by
  simp only [readOperands, n.wrapped?_unread]
  rfl

end Node

namespace Arena

variable {a b : Arena} {id : NodeId}

/-- An arena without its marks of reads. -/
def unread (a : Arena) : Arena := { a with nodes := a.nodes.map Node.unread }

theorem find?_unread (a : Arena) (id : NodeId) : a.unread.find? id = (a.find? id).map Node.unread :=
  Array.getElem?_map

theorem size_unread (a : Arena) : a.unread.size = a.size := Array.size_map

theorem node_unread (a : Arena) (id : NodeId) : a.unread.node id = (a.node id).map Node.unread := by
  unfold node
  rw [find?_unread]
  cases a.find? id <;> rfl

/-- A question about one node that its mark of a read does not change. -/
theorem map_node_unread {α : Type} {f : Node → α} (hf : ∀ n, f n.unread = f n) (a : Arena)
    (id : NodeId) : (a.unread.node id).map f = (a.node id).map f := by
  rw [node_unread]
  cases a.node id with
  | error e => rfl
  | ok n => exact congrArg Except.ok (hf n)

@[simp] theorem kindOf_unread (a : Arena) (id : NodeId) : a.unread.kindOf id = a.kindOf id :=
  map_node_unread (fun _ => rfl) a id

@[simp] theorem typeOf_unread (a : Arena) (id : NodeId) : a.unread.typeOf id = a.typeOf id :=
  map_node_unread (fun _ => rfl) a id

@[simp] theorem spanOf_unread (a : Arena) (id : NodeId) : a.unread.spanOf id = a.spanOf id :=
  map_node_unread (fun _ => rfl) a id

theorem hasFlag_unread (a : Arena) (id : NodeId) {f : Flag} (hf : f ≠ .read) :
    a.unread.hasFlag id f = a.hasFlag id f :=
  map_node_unread (fun n => n.has_unread hf) a id

@[simp] theorem stripWrapper_unread (a : Arena) (id : NodeId) :
    a.unread.stripWrapper id = a.stripWrapper id :=
  map_node_unread (fun n => by rw [n.wrapped?_unread]) a id

@[simp] theorem locationOf_unread (a : Arena) (id : NodeId) (span : Span) :
    a.unread.locationOf id span = a.locationOf id span :=
  map_node_unread (fun _ => rfl) a id

@[simp] theorem hasEffect_unread (a : Arena) (id : NodeId) :
    a.unread.hasEffect id = a.hasEffect id :=
  a.hasFlag_unread id (by decide)

@[simp] theorem isVolatile_unread (a : Arena) (id : NodeId) :
    a.unread.isVolatile id = a.isVolatile id :=
  a.hasFlag_unread id (by decide)

@[simp] theorem isAddressable_unread (a : Arena) (id : NodeId) :
    a.unread.isAddressable id = a.isAddressable id :=
  a.hasFlag_unread id (by decide)

@[simp] theorem isComplete_unread (a : Arena) (type : NodeId) :
    a.unread.isComplete type = a.isComplete type := by
  have hwithin : ∀ fuel type, a.unread.isCompleteWithin fuel type =
      a.isCompleteWithin fuel type := by
    intro fuel
    induction fuel with
    | zero => exact fun _ => rfl
    | succ fuel ih =>
      intro type
      simp only [isCompleteWithin, kindOf_unread, ih]
  rw [isComplete, hwithin, size_unread, isComplete]

@[simp] theorem isVoidType_unread (a : Arena) (id : NodeId) :
    a.unread.isVoidType id = a.isVoidType id := by
  simp only [isVoidType, kindOf_unread]

@[simp] theorem isErroneous_unread (a : Arena) (id : NodeId) :
    a.unread.isErroneous id = a.isErroneous id := by
  simp only [isErroneous, typeOf_unread]

@[simp] theorem isReference_unread (a : Arena) (id : NodeId) :
    a.unread.isReference id = a.isReference id := by
  simp only [isReference, isReferenceType, typeOf_unread, kindOf_unread]

@[simp] theorem isRejected_unread (a : Arena) (id : NodeId) (mode : UseMode) :
    a.unread.isRejected id mode = a.isRejected id mode := by
  have hnames : a.unread.namesBuiltin id = a.namesBuiltin id := by
    unfold namesBuiltin
    rw [stripWrapper_unread]
    refine bind_congr fun target => ?_
    exact map_node_unread (f := fun n => n.kind.isFunction && n.flags.has .builtinOnly)
      (fun n => by rw [n.has_unread (by decide)]; rfl) a target
  rw [isRejected, hnames, isRejected]

@[simp] theorem suppressesAny_unread (a : Arena) (id : NodeId) :
    a.unread.suppressesAny id = a.suppressesAny id := by
  have hflags : ∀ n : Node,
      n.unread.flags.intersects .suppression = n.flags.intersects .suppression := by
    intro n
    -- the mark of a read is none of the flags that suppress a warning
    have hmask : ~~~(NodeFlags.single .read).bits &&& NodeFlags.suppression.bits =
        NodeFlags.suppression.bits := by decide
    simp only [Node.unread, NodeFlags.intersects, NodeFlags.inter, NodeFlags.diff,
      BitVec.and_assoc, hmask]
  simp only [suppressesAny, flagsOf, node_unread]
  cases a.node id with
  | error e => rfl
  | ok n => exact congrArg Except.ok (hflags n)

/-! What a callee names and returns does not depend on reads either. -/

@[simp] theorem indirectTarget?_unread (a : Arena) (type : NodeId) :
    a.unread.indirectTarget? type = a.indirectTarget? type := by
  simp only [indirectTarget?, kindOf_unread]

@[simp] theorem callResult?_unread (a : Arena) (callee : NodeId) :
    a.unread.callResult? callee = a.callResult? callee := by
  simp only [callResult?, resultType?, typeOf_unread, indirectTarget?_unread, kindOf_unread]

theorem stripConversionsWithin_succ (a : Arena) (fuel : Nat) (expr : NodeId) :
    a.stripConversionsWithin (fuel + 1) expr = (a.node expr).map Node.converted? >>= fun
      | some operand => a.stripConversionsWithin fuel operand
      | none => .ok expr := by
  rw [stripConversionsWithin]
  cases a.node expr <;> rfl

@[simp] theorem stripConversions_unread (a : Arena) (expr : NodeId) :
    a.unread.stripConversions expr = a.stripConversions expr := by
  have hconverted : ∀ n : Node, n.unread.converted? = n.converted? := by
    intro n
    simp only [Node.converted?, n.wrapped?_unread]
    rfl
  have hwithin : ∀ fuel expr, a.unread.stripConversionsWithin fuel expr =
      a.stripConversionsWithin fuel expr := by
    intro fuel
    induction fuel with
    | zero => exact fun _ => rfl
    | succ fuel ih =>
      intro expr
      rw [stripConversionsWithin_succ, stripConversionsWithin_succ, map_node_unread hconverted]
      refine bind_congr fun operand? => ?_
      cases operand? with
      | none => rfl
      | some operand => exact ih operand
  rw [stripConversions, hwithin, size_unread, stripConversions]

@[simp] theorem calledFunction?_unread (a : Arena) (callee : NodeId) :
    a.unread.calledFunction? callee = a.calledFunction? callee := by
  simp only [calledFunction?, isIndirectType, asFunction?, typeOf_unread, indirectTarget?_unread,
    kindOf_unread, stripConversions_unread]

@[simp] theorem discardedCall_unread (a : Arena) (expr : NodeId) :
    a.unread.discardedCall expr = a.discardedCall expr := by
  simp only [discardedCall, kindOf_unread]

/-- Derived flags do not depend on reads. -/
theorem derivedFlags_unread (a : Arena) (n : Node) :
    a.unread.derivedFlags n.unread = a.derivedFlags n := by
  have hhandles : a.unread.handles = a.handles := rfl
  have heffect : a.unread.hasEffect = a.hasEffect := funext a.hasEffect_unread
  simp only [derivedFlags, accessesVolatile, inheritsEffect, isVolatile_unread, hhandles, heffect]
  rfl

/-! ### Arenas that agree but for reads -/

/-- Two arenas that differ in marks of reads alone. -/
def SameButReads (a b : Arena) : Prop := a.unread = b.unread

theorem unread_change {f g : Node → Node} (hfg : ∀ n, (f n).unread = g n.unread) :
    (a.change id f).unread = a.unread.change id g := by
  simp only [unread, change, mk.injEq, and_true]
  apply Array.ext_getElem?
  intro i
  simp only [Array.getElem?_map, Array.getElem?_modify]
  split <;> simp [Function.comp_def, hfg]

/-- A change of marks of reads is not seen without them. -/
theorem unread_change_eq {f : Node → Node} (hf : ∀ n, (f n).unread = n.unread) :
    (a.change id f).unread = a.unread := by
  simp only [unread, change, mk.injEq, and_true]
  apply Array.ext_getElem?
  intro i
  simp only [Array.getElem?_map, Array.getElem?_modify]
  split <;> simp [Function.comp_def, hf]

theorem unread_append (a : Arena) (n : Node) : (a.append n).unread = a.unread.append n.unread := by
  simp only [unread, append, Array.map_push]

theorem SameButReads.symm (h : a.SameButReads b) : b.SameButReads a := Eq.symm h

theorem SameButReads.find? (h : a.SameButReads b) {n : Node} (hn : a.find? id = some n) :
    ∃ m, b.find? id = some m ∧ m.unread = n.unread := by
  have hsame : (b.find? id).map Node.unread = some n.unread := by
    rw [← find?_unread, ← h, find?_unread, hn]
    rfl
  exact Option.map_eq_some_iff.1 hsame

theorem SameButReads.eq {α : Type} {q : Arena → Except Fault α}
    (hq : ∀ a : Arena, q a.unread = q a) (h : a.SameButReads b) : q a = q b := by
  rw [← hq a, h, hq b]

/-- A question that reads do not change has one answer. -/
theorem parallel_ask {α : Type} {q : Arena → Except Fault α} (hq : ∀ a : Arena, q a.unread = q a) :
    Action.Parallel SameButReads (Action.ask q) (Action.ask q) := by
  intro a b h
  unfold Action.ask
  rw [h.eq hq]
  cases q b with
  | ok r => exact .ok h
  | error e => exact .error h

theorem SameButReads.size_eq (h : a.SameButReads b) : a.size = b.size := by
  rw [← a.size_unread, h, b.size_unread]

theorem parallel_update {f g : Node → Node} (hf : ∀ n, (f n).unread = g n.unread) :
    Action.Parallel SameButReads (update id f) (update id f) := by
  intro a b h
  unfold update
  rw [h.size_eq]
  by_cases hid : id.index < b.size
  · rw [if_pos hid, if_pos hid]
    refine .ok ?_
    show (a.change id f).unread = (b.change id f).unread
    rw [unread_change hf, unread_change hf, h]
  · rw [if_neg hid, if_neg hid]
    exact .error h

theorem parallel_setKind {kind : NodeKind} :
    Action.Parallel SameButReads (setKind id kind) (setKind id kind) :=
  parallel_update (g := fun n => { n with kind }) fun _ => rfl

theorem parallel_setSpan {span : Span} :
    Action.Parallel SameButReads (setSpan id span) (setSpan id span) :=
  parallel_update (g := fun n => { n with span }) fun _ => rfl

theorem parallel_insertFlags {flags : NodeFlags} :
    Action.Parallel SameButReads (insertFlags id flags) (insertFlags id flags) := by
  refine parallel_update
    (g := fun n => { n with flags := n.flags.union (flags.diff (.single .read)) }) fun n => ?_
  simp only [Node.unread, NodeFlags.union_diff]

theorem parallel_deriveFlags :
    Action.Parallel SameButReads (deriveFlags id) (deriveFlags id) := by
  refine (parallel_ask fun a => ?_).bind fun _ => parallel_insertFlags
  rw [node_unread]
  cases a.node id with
  | error e => rfl
  | ok n => exact derivedFlags_unread a n

theorem parallel_build {kind : NodeKind} {type : Option NodeId} {span : Span} :
    Action.Parallel SameButReads (build kind type span) (build kind type span) := by
  have halloc : Action.Parallel SameButReads
      (modifyGet (·.alloc kind type span)) (modifyGet (·.alloc kind type span)) := by
    intro a b h
    show Action.Alike _ (.ok (NodeId.mk a.size) (a.append _)) (.ok (NodeId.mk b.size) (b.append _))
    rw [h.size_eq]
    refine .ok ?_
    show (a.append _).unread = (b.append _).unread
    rw [unread_append, unread_append, h]
  exact halloc.bind fun _ => parallel_deriveFlags.bind fun _ => Action.parallel_pure

theorem parallel_buildLike {other : NodeId} {kind : NodeKind} {span : Span} :
    Action.Parallel SameButReads (buildLike other kind span) (buildLike other kind span) :=
  (parallel_ask fun a => a.typeOf_unread other).bind fun _ => parallel_build

end Arena

/-! ### Contexts that passes cannot tell apart -/

/-- Two contexts differ in what was reported, in the number of unevaluated operands around the
current node, and in marks of reads, but in nothing else. -/
structure Context.Agrees (cx cx' : Context) : Prop where
  arena : cx.arena.SameButReads cx'.arena
  inputLocation : cx.inputLocation = cx'.inputLocation
  nesting : cx.nesting = cx'.nesting

namespace Context.Agrees

variable {cx t u : Context}

protected theorem refl (cx : Context) : cx.Agrees cx := ⟨rfl, rfl, rfl⟩

theorem symm (h : cx.Agrees t) : t.Agrees cx := ⟨h.1.symm, h.2.symm, h.3.symm⟩

theorem trans (h : cx.Agrees t) (h' : t.Agrees u) : cx.Agrees u :=
  ⟨h.1.trans h'.1, h.2.trans h'.2, h.3.trans h'.3⟩

end Context.Agrees

namespace Pass

open ExprTree.Action

variable {α β γ : Type} {R : α → β → Prop} {cx : Context} {expr : NodeId}

/-- A pass that reports, or marks reads, and does nothing else. -/
def Passive (p : Pass α) : Prop := ∀ cx, wlp p (fun _ t => cx.Agrees t) cx

theorem Quiet.passive {p : Pass α} (hp : Quiet p) : Passive p :=
  fun _ => hp.wlp fun _ _ => ⟨rfl, rfl, rfl⟩

theorem Passive.bind {p : Pass α} {f : α → Pass γ} (hp : Passive p) (hf : ∀ r, Passive (f r)) :
    Passive (p >>= f) := by
  intro cx
  rw [wlp_bind]
  exact (hp cx).mono fun r t ht => (hf r t).mono fun _ u hu => ht.trans hu

theorem Passive.when {p : Pass Unit} (hp : Passive p) {asked : Bool} :
    Passive (Pass.when asked p) := by
  unfold Pass.when
  split
  · exact hp
  · exact quiet_pure.passive

theorem Passive.nested {span : Span} {overflow : α} {p : Pass α} (hp : Passive p) :
    Passive (nested span overflow p) := by
  intro cx
  refine wlp_level (fun inner hinner => ?_) fun _ _ => ⟨rfl, rfl, rfl⟩
  refine (hp { cx with nesting := inner }).mono fun r t ht outer houter => ?_
  rw [← ht.nesting, Nesting.leave_of_enter hinner] at houter
  cases houter
  exact ⟨ht.arena, ht.inputLocation, rfl⟩

theorem passive_recordRead : Passive (recordRead expr) := by
  refine fun cx => wlp_recursively (Q := fun cx _ _ t => cx.Agrees t)
    (fun self hself expr => ?_) expr cx
  refine quiet_query.passive.bind fun span => Passive.nested ?_
  refine quiet_query.passive.bind fun n => ?_
  split
  · refine fun cx => ?_
    rw [wlp_edit, Arena.insertFlags, Arena.wlp_update]
    exact fun m _ => ⟨(Arena.unread_change_eq Node.unread_markRead).symm, rfl, rfl⟩
  · exact fun cx => wlp_forM (I := fun t => cx.Agrees t)
      (fun op _ t ht => (hself op t).mono fun _ u hu => ht.trans hu) (.refl cx)

/-- Passive passes may differ from each other. -/
theorem Passive.coupled {p q : Pass Unit} (hp : Passive p) (hq : Passive q) :
    Coupled Context.Agrees Eq p q := by
  intro cx cx' h r t r' t' hr hr'
  exact ⟨rfl, ((hp cx r t hr).symm.trans h).trans (hq cx' r' t' hr')⟩

/-! ### Rules for passes -/

/-- A question with one answer. -/
theorem coupled_ask {E : Context → Context → Prop} {q : Context → Except Fault α}
    (hq : ∀ cx cx', E cx cx' → q cx = q cx') : Coupled E Eq (ask q) (ask q) :=
  Action.coupled_ask fun cx cx' h r r' hr hr' => by
    rw [hq cx cx' h] at hr
    cases hr.symm.trans hr'
    rfl

/-- An action on the arena is a pass. -/
theorem coupled_edit {c : Action Arena α} {d : Action Arena β}
    (h : Coupled Arena.SameButReads R c d) : Coupled Context.Agrees R (edit c) (edit d) := by
  intro cx cx' hcx r t r' t' hr hr'
  obtain ⟨a, ha, rfl⟩ := edit_eq_ok_iff.1 hr
  obtain ⟨b, hb, rfl⟩ := edit_eq_ok_iff.1 hr'
  obtain ⟨hrr, hab⟩ := h hcx.arena ha hb
  exact ⟨hrr, hab, hcx.inputLocation, hcx.nesting⟩

/-- Where one run finds room for a level, so does the other. -/
theorem coupled_enter {span : Span} :
    Coupled Context.Agrees Eq (enter span) (enter span) := by
  intro cx cx' h r t r' t' hr hr'
  unfold enter at hr hr'
  rw [← h.nesting] at hr'
  cases hn : cx.nesting.enter with
  | ok inner =>
    rw [hn] at hr hr'
    cases hr
    cases hr'
    exact ⟨rfl, h.arena, h.inputLocation, rfl⟩
  | error e =>
    rw [hn] at hr hr'
    cases hr
    cases hr'
    exact ⟨rfl, h.arena, h.inputLocation, h.nesting⟩

theorem coupled_leave : Coupled Context.Agrees Eq leave leave := by
  intro cx cx' h r t r' t' hr hr'
  unfold leave at hr hr'
  rw [← h.nesting] at hr'
  cases hn : cx.nesting.leave with
  | ok outer =>
    rw [hn] at hr hr'
    cases hr
    cases hr'
    exact ⟨rfl, h.arena, h.inputLocation, rfl⟩
  | error e =>
    rw [hn] at hr
    cases hr

/-- Parts that run a level deeper, where entering and leaving a level are coupled. -/
theorem coupled_nested {E : Context → Context → Prop} {span : Span} {x : α} {y : β} {p : Pass α}
    {q : Pass β} (henter : Coupled E Eq (enter span) (enter span)) (hleave : Coupled E Eq leave leave)
    (hxy : R x y) (h : Coupled E R p q) : Coupled E R (nested span x p) (nested span y q) := by
  rw [nested_eq, nested_eq]
  refine henter.bind_eq fun entered => ?_
  cases entered with
  | true => exact h.bind fun r r' hr => hleave.bind_eq fun _ => coupled_pure hr
  | false => exact coupled_pure hxy

end Pass

end ExprTree
