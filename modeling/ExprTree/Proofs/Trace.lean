import Mathlib.Data.Fintype.EquivFin
import Mathlib.Logic.Relation
import ExprTree.Proofs.Typing

/-!
# Traces

What an expression does when it is evaluated: the effects of its operands in order, and then its
own.  An oracle chooses the branch of every conditional, by the node of the condition.

* `Event` — effects as they are seen from outside.
* `Arena.ownEvents`, `Arena.evaluated?` — what a node does itself, and which operands come before.
* `Arena.trace?`, `Arena.HasTrace` — the trace of an expression up to a height, and its trace.
* `Arena.HasTrace.unique`, `Arena.exists_hasTrace` — an expression without cycles has one trace.
-/

namespace ExprTree

/-- An effect of a node. -/
inductive Event
  /-- A call, an assignment, or a step of a coroutine. -/
  | perform (id : NodeId)
  /-- An access to a volatile variable, field or element. -/
  | access (id : NodeId)
  /-- An access to a volatile object behind a pointer, by the type of the object. -/
  | load (type : NodeId)
  deriving DecidableEq, Repr

/-- Chooses the second operand of the conditionals with a condition. -/
abbrev Oracle := NodeId → Bool

namespace Arena

variable {a b : Arena} {o : Oracle} {n : Node} {id : NodeId} {h : Nat} {es : List Event}

/-- How a volatile access of a node is seen. -/
def accessEvent (id : NodeId) (n : Node) : Event :=
  match n.kind, n.type with
  | .unary .deref _, some type => .load type
  | _, _ => .access id

/-- What a node does itself. -/
def ownEvents (a : Arena) (id : NodeId) (n : Node) : List Event :=
  if n.kind.hasOwnEffect then [.perform id]
  else if a.accessesVolatile n = .ok true then [accessEvent id n]
  else []

/-- The operands that are evaluated before a node, of a conditional those on the chosen branch. -/
def evaluated? (a : Arena) (o : Oracle) (n : Node) : Option (List NodeId) :=
  if n.kind.isUnevaluated then some []
  else match n.kind with
    | .cond first second third => some (first :: if o first then second.toList else [third])
    | kind => (a.handles kind.operands).toOption

/-- The trace of an expression that is no higher than given. -/
def trace? (a : Arena) (o : Oracle) : Nat → NodeId → Option (List Event)
  | 0, _ => none
  | h + 1, id => do
    let n ← a.find? id
    let ops ← a.evaluated? o n
    let ess ← ops.mapM (a.trace? o h)
    some (ess.flatten ++ a.ownEvents id n)

/-- The trace of an expression. -/
def HasTrace (a : Arena) (o : Oracle) (id : NodeId) (es : List Event) : Prop :=
  ∃ h, a.trace? o h id = some es

/-! ### Traces and operands -/

/-- A node does what its operands do up to some height, and then its own. -/
def Supports (a : Arena) (o : Oracle) (v : NodeId → Nat → List Event → Prop) (id : NodeId)
    (n : Node) (h : Nat) (es : List Event) : Prop :=
  ∃ ops ess, a.evaluated? o n = some ops ∧ List.Forall₂ (fun op es => v op h es) ops ess ∧
    ess.flatten ++ a.ownEvents id n = es

theorem mapM_eq_some_iff {f : NodeId → Option (List Event)} {ops : List NodeId}
    {ess : List (List Event)} :
    ops.mapM f = some ess ↔ List.Forall₂ (fun op es => f op = some es) ops ess := by
  induction ops generalizing ess with
  | nil => simp [eq_comm]
  | cons op ops ih =>
    rw [List.mapM_cons]
    simp only [Option.bind_eq_bind, Option.bind_eq_some_iff, Option.pure_def, Option.some.injEq,
      ih, List.forall₂_cons_left_iff]
    constructor
    · rintro ⟨es, hes, ess', hess', rfl⟩
      exact ⟨es, ess', hes, hess', rfl⟩
    · rintro ⟨es, ess', hes, hess', rfl⟩
      exact ⟨es, hes, ess', hess', rfl⟩

theorem trace?_succ_eq_some_iff : a.trace? o (h + 1) id = some es ↔
    ∃ n, a.find? id = some n ∧
      a.Supports o (fun op h es => a.trace? o h op = some es) id n h es := by
  simp only [trace?, Option.bind_eq_bind, Option.bind_eq_some_iff, mapM_eq_some_iff,
    Option.some.injEq, Supports]
  constructor
  · rintro ⟨n, hn, ops, hops, ess, hess, rfl⟩
    exact ⟨n, hn, ops, ess, hops, hess, rfl⟩
  · rintro ⟨n, hn, ops, ess, hops, hess, rfl⟩
    exact ⟨n, hn, ops, hops, ess, hess, rfl⟩

theorem isSome_of_trace? (ht : a.trace? o h id = some es) : (a.find? id).isSome = true := by
  cases h with
  | zero => cases ht
  | succ h =>
    obtain ⟨n, hn, -⟩ := trace?_succ_eq_some_iff.1 ht
    rw [hn]
    rfl

/-- A trace is also one up to a greater height. -/
theorem trace?_mono {k : Nat} (hk : h ≤ k) (ht : a.trace? o h id = some es) :
    a.trace? o k id = some es := by
  induction h generalizing k id es with
  | zero => cases ht
  | succ h ih =>
    obtain ⟨k, rfl⟩ : ∃ j, k = j + 1 := ⟨k - 1, by omega⟩
    obtain ⟨n, hn, ops, ess, hops, hess, rfl⟩ := trace?_succ_eq_some_iff.1 ht
    exact trace?_succ_eq_some_iff.2
      ⟨n, hn, ops, ess, hops, hess.imp fun _ _ => ih (by omega), rfl⟩

/-- An expression has at most one trace. -/
theorem HasTrace.unique {es' : List Event} (ht : a.HasTrace o id es) (ht' : a.HasTrace o id es') :
    es = es' := by
  obtain ⟨h, ht⟩ := ht
  obtain ⟨k, ht'⟩ := ht'
  have := (trace?_mono (Nat.le_max_left h k) ht).symm.trans (trace?_mono (Nat.le_max_right h k) ht')
  exact Option.some.inj this

/-! ### Operands before a node -/

theorem mem_of_evaluated? {ops : List NodeId} {op : NodeId} (h : a.evaluated? o n = some ops)
    (hop : op ∈ ops) : n.kind.isUnevaluated = false ∧
      ∃ all, a.handles n.kind.operands = .ok all ∧ op ∈ all := by
  unfold evaluated? at h
  split at h
  · cases h
    cases hop
  rename_i hk
  refine ⟨Bool.eq_false_iff.2 hk, ?_⟩
  split at h
  · rename_i first second third hkind
    cases h
    rw [hkind]
    refine ⟨_, handles_empty _, ?_⟩
    -- the condition and one of the branches, whatever the oracle says
    revert hop
    cases o first <;> simp +contextual [or_imp]
  · cases hall : a.handles n.kind.operands with
    | error e =>
      rw [hall] at h
      cases h
    | ok all =>
      rw [hall] at h
      cases h
      exact ⟨ops, rfl, hop⟩

theorem exists_evaluated? (h : n.kind.isUnevaluated = false →
    ∃ all, a.handles n.kind.operands = .ok all) : ∃ ops, a.evaluated? o n = some ops := by
  unfold evaluated?
  split
  · exact ⟨[], rfl⟩
  rename_i hk
  split
  · exact ⟨_, rfl⟩
  · obtain ⟨all, hall⟩ := h (Bool.eq_false_iff.2 hk)
    exact ⟨all, by rw [hall]; rfl⟩

/-- Before an operator with one operand this operand is evaluated. -/
theorem evaluated?_unary {op : UnaryOp} {operand : NodeId} (hk : n.kind = .unary op operand)
    (hun : n.kind.isUnevaluated = false) : a.evaluated? o n = some [operand] := by
  unfold evaluated?
  rw [hun, hk, if_neg Bool.false_ne_true]
  show (a.handles ([operand], .empty)).toOption = _
  rw [handles_empty]
  rfl

/-- The branch of a conditional is chosen as before, since its condition stays. -/
theorem evaluated?_rewritten {R : NodeId → NodeId → Prop} {k k' : NodeKind} {ops : List NodeId}
    (hk : k.Rewritten R k') (hops : a.evaluated? o { n with kind := k } = some ops) :
    ∃ ops', a.evaluated? o { n with kind := k' } = some ops' ∧
      List.Forall₂ (fun s r => s = r ∨ R s r) ops ops' := by
  cases hk with
  | component hr =>
    cases hops
    exact ⟨_, rfl, .cons (.inr hr) (.cons (.inl rfl) .nil)⟩
  | comma hr =>
    cases hops
    exact ⟨_, rfl, .cons (.inl rfl) (.cons (.inr hr) .nil)⟩
  | value hr =>
    cases hops
    exact ⟨_, rfl, .cons (.inr hr) .nil⟩
  | @transparent op _ _ hop hr =>
    cases op <;> cases hop <;> cases hops <;> exact ⟨_, rfl, .cons (.inr hr) .nil⟩
  | @cond first third third' second second' hs ht =>
    cases hops
    refine ⟨_, rfl, .cons (.inl rfl) ?_⟩
    -- the oracle is asked about the condition, which is not exchanged
    cases o first with
    | false => exact .cons (.inr ht) .nil
    | true =>
      cases hs with
      | none => exact .nil
      | some hs => exact .cons (.inr hs) .nil

/-! ### What a node does itself -/

theorem ownEvents_eq_nil (hown : n.kind.hasOwnEffect = false)
    (hv : a.accessesVolatile n = .ok false) : a.ownEvents id n = [] := by
  unfold ownEvents
  rw [hown, hv]
  rfl

/-- What an access to a volatile object does depends on the type alone. -/
theorem ownEvents_deref {m : Node} {pointer pointer' other type : NodeId}
    (hn : n.kind = .unary .deref pointer) (hm : m.kind = .unary .deref pointer')
    (hnt : n.type = some type) (hmt : m.type = some type) :
    a.ownEvents other m = a.ownEvents id n := by
  unfold ownEvents accessesVolatile accessEvent
  rw [hn, hm, hnt, hmt]
  rfl

theorem accessEvent_eq (hk : ∀ pointer, n.kind ≠ .unary .deref pointer) :
    accessEvent id n = .access id := by
  unfold accessEvent
  split
  · rename_i hkind _
    exact absurd hkind (hk _)
  · rfl

/-- An exchange of operands does not change what a node does itself. -/
theorem ownEvents_rewritten {R : NodeId → NodeId → Prop} {k k' : NodeKind}
    (hk : k.Rewritten R k') :
    a.ownEvents id { n with kind := k' } = a.ownEvents id { n with kind := k } := by
  obtain ⟨hacc, hown, hown', -⟩ := hk.class_eq
  have hv : a.accessesVolatile { n with kind := k' } = a.accessesVolatile { n with kind := k } := by
    simp only [accessesVolatile, hacc]
  unfold ownEvents
  rw [hv, accessEvent_eq hk.ne_deref, accessEvent_eq hk.source_ne_deref]
  simp only [hown, hown']

/-! ### Changes of a node -/

theorem Supports.congr {v : NodeId → Nat → List Event → Prop} {m : Node}
    (hs : a.Supports o v id n h es) (hk : m.kind = n.kind) (ht : m.type = n.type) :
    a.Supports o v id m h es := by
  obtain ⟨ops, ess, hops, hess, rfl⟩ := hs
  refine ⟨ops, ess, ?_, hess, ?_⟩
  · rw [← hops]
    unfold evaluated?
    rw [hk]
  · unfold ownEvents accessesVolatile accessEvent
    rw [hk, ht]

theorem Supports.mono {v w : NodeId → Nat → List Event → Prop} {volatile : Bool}
    (hs : a.Supports o v id n h es) (hl : b.lists = a.lists)
    (hv : a.accessesVolatile n = .ok volatile) (hv' : b.accessesVolatile n = .ok volatile)
    (hvw : ∀ op es, v op h es → w op h es) : b.Supports o w id n h es := by
  obtain ⟨ops, ess, hops, hess, rfl⟩ := hs
  refine ⟨ops, ess, ?_, hess.imp hvw, ?_⟩
  · rw [← hops]
    simp only [evaluated?, handles, list, hl]
  · simp only [ownEvents, hv, hv']

/-! ### Arenas without cycles -/

/-- The first node is an operand of the second, which evaluates its operands. -/
def Evaluates (a : Arena) (op id : NodeId) : Prop :=
  ∃ n ops, a.find? id = some n ∧ n.kind.isUnevaluated = false ∧
    a.handles n.kind.operands = .ok ops ∧ op ∈ ops

/-- No node is evaluated on the way to itself. -/
def Acyclic (a : Arena) : Prop := ∀ id, ¬ Relation.TransGen a.Evaluates id id

/-- An arena is finite, so that without cycles there is a lowest operand everywhere. -/
theorem Acyclic.acc (h : a.Acyclic) (id : NodeId) : Acc a.Evaluates id := by
  let below : Fin a.size → Fin a.size → Prop := fun i j =>
    Relation.TransGen a.Evaluates ⟨i⟩ ⟨j⟩
  have : IsTrans (Fin a.size) below := ⟨fun _ _ _ hij hjk => hij.trans hjk⟩
  have : Std.Irrefl below := ⟨fun i => h ⟨i⟩⟩
  -- on finitely many nodes, being below without cycles is well-founded
  have hwf : WellFounded below := Finite.wellFounded_of_trans_of_irrefl below
  -- what is no node has no operands
  have hlow : ∀ id, a.find? id = none → Acc a.Evaluates id := by
    refine fun id hid => ⟨_, fun op hop => ?_⟩
    obtain ⟨n, _, hn, -⟩ := hop
    rw [hid] at hn
    cases hn
  have hin : ∀ i : Fin a.size, Acc a.Evaluates ⟨i⟩ := by
    intro i
    induction i using hwf.induction with
    | _ i ih =>
      refine ⟨_, fun op hop => ?_⟩
      by_cases hsize : op.index < a.size
      · exact ih ⟨op.index, hsize⟩ (.single hop)
      · exact hlow op (find?_eq_none_iff.2 (Nat.not_lt.1 hsize))
  by_cases hsize : id.index < a.size
  · exact hin ⟨id.index, hsize⟩
  · exact hlow id (find?_eq_none_iff.2 (Nat.not_lt.1 hsize))

/-- Every operand is older than the node that it belongs to. -/
def Ordered (a : Arena) : Prop :=
  ∀ i : Fin a.size, ∀ ops ∈ (a.handles (a.nodes[i]).kind.operands).toOption,
    ∀ op ∈ ops, op.index < i

instance (a : Arena) : Decidable a.Ordered :=
  inferInstanceAs (Decidable (∀ _ : Fin a.size, _))

theorem Ordered.acyclic (h : a.Ordered) : a.Acyclic := by
  have hstep : ∀ op id, a.Evaluates op id → op.index < id.index := by
    rintro op id ⟨n, ops, hn, -, hops, hop⟩
    obtain ⟨hi, rfl⟩ := Array.getElem?_eq_some_iff.1 hn
    exact h ⟨id.index, hi⟩ ops (by rw [Fin.getElem_fin, hops]; rfl) op hop
  have hrun : ∀ op id, Relation.TransGen a.Evaluates op id → op.index < id.index := by
    intro op id hrun
    induction hrun with
    | single hop => exact hstep _ _ hop
    | tail _ hop ih => exact ih.trans (hstep _ _ hop)
  exact fun id hid => Nat.lt_irrefl _ (hrun id id hid)

/-- Expressions with traces have them up to one height. -/
theorem exists_forall₂_trace? {ops : List NodeId} (hall : ∀ op ∈ ops, ∃ es, a.HasTrace o op es) :
    ∃ h ess, List.Forall₂ (fun op es => a.trace? o h op = some es) ops ess := by
  induction ops with
  | nil => exact ⟨0, [], .nil⟩
  | cons op ops ih =>
    obtain ⟨es, h, hes⟩ := hall op (by simp)
    obtain ⟨k, ess, hess⟩ := ih fun op hop => hall op (by simp [hop])
    refine ⟨max h k, es :: ess, .cons (trace?_mono (Nat.le_max_left h k) hes) ?_⟩
    exact hess.imp fun _ _ => trace?_mono (Nat.le_max_right h k)

/-- In an arena without cycles every expression has a trace. -/
theorem exists_hasTrace (hac : a.Acyclic)
    (hin : ∀ id n, a.find? id = some n → n.kind.isUnevaluated = false → a.InRange n.kind)
    (hid : (a.find? id).isSome = true) : ∃ es, a.HasTrace o id es := by
  have hacc := hac.acc id
  -- by induction from the operands upwards
  induction hacc with
  | intro id _ ih =>
    obtain ⟨n, hn⟩ := Option.isSome_iff_exists.1 hid
    obtain ⟨ops, hops⟩ := exists_evaluated? (o := o) fun hk => (hin id n hn hk).imp fun _ h => h.1
    have heach : ∀ op ∈ ops, ∃ es, a.HasTrace o op es := by
      intro op hop
      obtain ⟨hk, all, hall, hmem⟩ := mem_of_evaluated? hops hop
      obtain ⟨_, hall', hsome⟩ := hin id n hn hk
      cases hall.symm.trans hall'
      exact ih op ⟨n, all, hn, hk, hall, hmem⟩ (hsome op hmem)
    obtain ⟨h, ess, hess⟩ := exists_forall₂_trace? heach
    exact ⟨_, h + 1, trace?_succ_eq_some_iff.2 ⟨n, hn, ops, ess, hops, hess, rfl⟩⟩

end Arena

end ExprTree
