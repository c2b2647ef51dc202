import Mathlib.Logic.Relation
import ExprTree.Proofs.Reads

/-!
# The footprint of a use

A use of an expression reaches the nodes that are read along with it: the operands that carry the
value or the storage, again and again.  Whatever a pass does, it does to these nodes and to new
ones.

* `Arena.ReadAlong` — the nodes that are read along with an expression.
* `Arena.Enclosed` — none of them is outside of a set.
* `Node.Reworked` — what a pass may do to one of them.
* `Arena.Confined` — an arena in which no other node has changed.
* `Arena.Within` — the same for a set of nodes that no operand read along leads out of.
* `Arena.Footprint` — such a set for an expression.
-/

namespace ExprTree

/-! ### Kinds -/

namespace NodeKind

/-- Some operands that carry the value or the storage are exchanged, whatever for. -/
abbrev Exchanged : NodeKind → NodeKind → Prop := Rewritten fun _ _ => True

theorem Exchanged.trans {k k' k'' : NodeKind} (h : k.Exchanged k') (h' : k'.Exchanged k'') :
    k.Exchanged k'' := by
  cases h with
  | component _ =>
    cases h' with
    | component h => exact .component h
  | comma _ =>
    cases h' with
    | comma h => exact .comma h
  | cond hs _ =>
    cases h' with
    | cond hs' ht =>
      refine .cond ?_ ht
      cases hs with
      | none => exact hs'
      | some _ =>
        cases hs' with
        | some h => exact .some h
  | transparent hop _ =>
    cases h' with
    | transparent _ h => exact .transparent hop h
    | value h => exact .value h
  | value h =>
    cases h' with
    | transparent hop _ => cases hop

theorem Rewritten.isExpression_eq {R : NodeId → NodeId → Prop} {k k' : NodeKind}
    (h : k.Rewritten R k') : k.isExpression = true ∧ k'.isExpression = true := by
  cases h <;> exact ⟨rfl, rfl⟩

theorem Rewritten.isVariable_eq {R : NodeId → NodeId → Prop} {k k' : NodeKind}
    (h : k.Rewritten R k') : k.isVariable = false ∧ k'.isVariable = false := by
  cases h <;> exact ⟨rfl, rfl⟩

end NodeKind

/-- An operand that is read along after an exchange has come for one that was read along before. -/
theorem Node.mem_readOperands_rewritten {R : NodeId → NodeId → Prop} {k : NodeKind} {n : Node}
    (h : k.Rewritten R n.kind) {op : NodeId} (hop : op ∈ n.readOperands) :
    ∃ s ∈ ({ n with kind := k } : Node).readOperands, R s op := by
  obtain ⟨kind, type, flags, span⟩ := n
  cases h with
  | component h | comma h =>
    cases List.mem_singleton.1 hop
    exact ⟨_, List.mem_singleton_self _, h⟩
  | cond hs ht =>
    cases hs with
    | none =>
      cases List.mem_singleton.1 hop
      exact ⟨_, List.mem_singleton_self _, ht⟩
    | some hs =>
      rcases List.mem_pair.1 hop with rfl | rfl
      · exact ⟨_, List.mem_pair.2 (.inl rfl), hs⟩
      · exact ⟨_, List.mem_pair.2 (.inr rfl), ht⟩
  | @transparent op' _ _ htrans h =>
    cases op' with
    | nop | convert | viewConvert | nonDependent =>
      cases List.mem_singleton.1 hop
      exact ⟨_, List.mem_singleton_self _, h⟩
    | _ => cases htrans
  | value h =>
    obtain ⟨-, hk | hk⟩ := Node.wrapped?_eq_some_iff.1 (Option.mem_toList.1 hop)
    · cases hk
    · cases hk
      exact ⟨_, List.mem_singleton_self _, h⟩

theorem Node.readOperands_congr {n m : Node} (hk : m.kind = n.kind)
    (hw : m.flags.has .locationWrapper = n.flags.has .locationWrapper) :
    m.readOperands = n.readOperands := by
  simp only [readOperands, wrapped?, hk, hw]

theorem Node.readOperands_of_not_isExpression {n : Node} (h : n.kind.isExpression = false) :
    n.readOperands = [] := by
  obtain ⟨kind, type, flags, span⟩ := n
  cases kind <;> first | rfl | cases h

theorem NodeKind.isExpression_of_isVariable {k : NodeKind} (h : k.isVariable = true) :
    k.isExpression = false := by
  cases k <;> first | rfl | cases h

/-- What a location wrapper wraps is read along with it. -/
theorem Node.wrapped?_mem_readOperands {n : Node} {operand : NodeId}
    (h : n.wrapped? = some operand) : operand ∈ n.readOperands := by
  obtain ⟨-, hk | hk⟩ := Node.wrapped?_eq_some_iff.1 h
  · simp [readOperands, hk, UnaryOp.readsOperand]
  · simp [readOperands, hk, h]

/-! ### Nodes -/

/-- The flags that passes set. -/
def NodeFlags.acquired : NodeFlags := ofList [.effect, .volatileAccess, .read]

namespace Node

/-- What a pass may do to a node: its type stays, its kind gets other operands in the places that
carry the value or the storage, or a location wrapper becomes a value, and flags are added. -/
structure Reworked (n m : Node) : Prop where
  type_eq : m.type = n.type
  kind_eq : m.kind = n.kind ∨ n.kind.Exchanged m.kind
  /-- Only a location wrapper becomes a value. -/
  promoted : ∀ operand operand', n.kind = .unary .viewConvert operand →
    m.kind = .unary .nonLvalue operand' → n.flags.has .locationWrapper = true
  /-- Only variables and parameters are marked as read. -/
  flags_eq : ∃ added : NodeFlags, m.flags = n.flags.union added ∧
    added.diff .acquired = .empty ∧ (added.has .read = true → n.kind.isVariable = true)
  /-- Nothing but expressions, variables and parameters is changed. -/
  still : n.kind.isExpression = false → n.kind.isVariable = false → m = n

namespace Reworked

variable {n m m' : Node}

theorem refl (n : Node) : n.Reworked n where
  type_eq := rfl
  kind_eq := .inl rfl
  promoted _ _ h h' := by cases h.symm.trans h'
  flags_eq := ⟨.empty, n.flags.union_empty.symm, rfl, by simp⟩
  still _ _ := rfl

theorem isVariable_eq (h : n.Reworked m) : m.kind.isVariable = n.kind.isVariable := by
  rcases h.kind_eq with hk | hk
  · rw [hk]
  · rw [hk.isVariable_eq.1, hk.isVariable_eq.2]

theorem isExpression_eq (h : n.Reworked m) : m.kind.isExpression = n.kind.isExpression := by
  rcases h.kind_eq with hk | hk
  · rw [hk]
  · rw [hk.isExpression_eq.1, hk.isExpression_eq.2]

/-- Whether a node is a location wrapper by its flags does not change. -/
theorem has_locationWrapper (h : n.Reworked m) :
    m.flags.has .locationWrapper = n.flags.has .locationWrapper := by
  obtain ⟨added, hm, hadded, -⟩ := h.flags_eq
  have hw := congrArg (·.has .locationWrapper) hadded
  simp only [NodeFlags.has_diff, NodeFlags.has_empty] at hw
  have hnew : added.has .locationWrapper = false := by
    cases hf : added.has .locationWrapper with
    | false => rfl
    | true =>
      rw [hf] at hw
      revert hw
      decide
  rw [hm, NodeFlags.has_union, hnew, Bool.or_false]

/-- Flags that follow from operands may be added to an expression. -/
theorem addFlags {f : NodeFlags} (h : n.Reworked m) (he : n.kind.isExpression = true)
    (hf : f.diff .acquired = .empty) (hread : f.has .read = false) :
    n.Reworked { m with flags := m.flags.union f } where
  type_eq := h.type_eq
  kind_eq := h.kind_eq
  promoted := h.promoted
  flags_eq := by
    obtain ⟨added, hm, hadded, hvar⟩ := h.flags_eq
    refine ⟨added.union f, ?_, ?_, ?_⟩
    · rw [hm, NodeFlags.union_assoc]
    · rw [NodeFlags.union_diff, hadded, hf]
      rfl
    · simpa [hread] using hvar
  still hne := by simp [he] at hne

/-- A variable may be marked as read. -/
theorem markRead (h : n.Reworked m) (hv : m.kind.isVariable = true) : n.Reworked m.markRead where
  type_eq := h.type_eq
  kind_eq := h.kind_eq
  promoted := h.promoted
  flags_eq := by
    obtain ⟨added, hm, hadded, -⟩ := h.flags_eq
    refine ⟨added.union (.single .read), ?_, ?_, fun _ => h.isVariable_eq ▸ hv⟩
    · simp only [Node.markRead, hm, NodeFlags.union_assoc]
    · rw [NodeFlags.union_diff, hadded]
      decide
  still _ hne := by
    rw [h.isVariable_eq, hne] at hv
    cases hv

/-- An expression may be moved. -/
theorem setSpan {span : Span} (h : n.Reworked m) (he : m.kind.isExpression = true) :
    n.Reworked { m with span } where
  type_eq := h.type_eq
  kind_eq := h.kind_eq
  promoted := h.promoted
  flags_eq := h.flags_eq
  still hne := by
    rw [h.isExpression_eq, hne] at he
    cases he

/-- An expression may be given the kind that it had earlier, with operands exchanged, even where it
has changed since. -/
theorem setKind {k : NodeKind} (h : n.Reworked m) (h' : n.Reworked m') (hk : m.kind.Exchanged k)
    (hw : ∀ operand operand', m.kind = .unary .viewConvert operand →
      k = .unary .nonLvalue operand' → m.flags.has .locationWrapper = true) :
    n.Reworked { m' with kind := k } where
  type_eq := h'.type_eq
  kind_eq := by
    rcases h.kind_eq with hn | hn
    · exact .inr (hn ▸ hk)
    · exact .inr (hn.trans hk)
  promoted operand operand' hn hkind := by
    cases hm : m.kind with
    | unary op s =>
      cases op with
      | viewConvert => exact h.has_locationWrapper ▸ hw s operand' hm hkind
      | nonLvalue => exact h.promoted operand s hn hm
      | _ =>
        rw [hm] at hk
        cases hkind
        cases hk
    | _ =>
      rw [hm] at hk
      cases hkind
      cases hk
  flags_eq := h'.flags_eq
  still hne := by
    rw [← h.isExpression_eq, hk.isExpression_eq.1] at hne
    cases hne

end Reworked

end Node

/-! ### Arenas -/

namespace Arena

variable {a b : Arena} {F S : NodeId → Prop} {id op : NodeId} {n m : Node}

/-- The second node is an operand that is read along with the first. -/
def ReadOperand (a : Arena) (id op : NodeId) : Prop :=
  ∃ n, a.find? id = some n ∧ op ∈ n.readOperands

/-- The nodes that are read along with an expression. -/
def ReadAlong (a : Arena) (expr : NodeId) : NodeId → Prop :=
  Relation.ReflTransGen a.ReadOperand expr

/-- All nodes that are read along with a node are in a set. -/
def Enclosed (a : Arena) (F : NodeId → Prop) (id : NodeId) : Prop := ∀ x, a.ReadAlong id x → F x

theorem Enclosed.mem (h : a.Enclosed F id) : F id := h id .refl

theorem Enclosed.operand (h : a.Enclosed F id) (hn : a.find? id = some n)
    (hop : op ∈ n.readOperands) : a.Enclosed F op := fun x hx => h x (.head ⟨n, hn, hop⟩ hx)

/-- Nothing is read along with a node of a set but its nodes, if the operands that are read along
with its nodes are in it. -/
theorem enclosed_of_reads (h : ∀ id, S id → ∀ n, a.find? id = some n → ∀ op ∈ n.readOperands, S op)
    (hid : S id) : a.Enclosed S id := by
  intro x hx
  induction hx with
  | refl => exact hid
  | tail _ hstep ih =>
    obtain ⟨n, hn, hop⟩ := hstep
    exact h _ ih n hn _ hop

theorem enclosed_of_none (hid : a.find? id = none) (hF : F id) : a.Enclosed F id := by
  intro x hx
  rcases Relation.ReflTransGen.cases_head hx with rfl | ⟨_, ⟨n, hn, -⟩, -⟩
  · exact hF
  · cases hid.symm.trans hn

/-- Of the nodes of an arena, only those of a set have changed, and these no more than passes may
change them; operand lists, names and attributes are the same. -/
structure Confined (a : Arena) (R : NodeId → Prop) (b : Arena) : Prop where
  outside : ∀ id n, a.find? id = some n → ¬ R id → b.find? id = some n
  inside : ∀ id n, a.find? id = some n → ∃ m, b.find? id = some m ∧ n.Reworked m
  lists_eq : b.lists = a.lists
  names_eq : b.names = a.names
  attributes_eq : b.attributes = a.attributes

/-- Only nodes of a set have changed, what is no node yet is in it, and so is what is read along
with a node of it. -/
structure Within (a : Arena) (S : NodeId → Prop) (b : Arena) : Prop where
  node : ∀ id n, a.find? id = some n → ∃ m, b.find? id = some m ∧ n.Reworked m ∧ (m = n ∨ S id)
  reads : ∀ id m, b.find? id = some m → S id → ∀ op ∈ m.readOperands, S op
  fresh : ∀ id, b.find? id = none → S id
  lists_eq : b.lists = a.lists
  names_eq : b.names = a.names
  attributes_eq : b.attributes = a.attributes

theorem Within.reworked (h : a.Within S b) (hm : b.find? id = some m) {n : Node}
    (hn : a.find? id = some n) : n.Reworked m := by
  obtain ⟨m', hm', hnm, -⟩ := h.node id n hn
  cases hm.symm.trans hm'
  exact hnm

theorem Within.enclosed (h : a.Within S b) (hS : ∀ x, S x → F x) (hid : S id) :
    b.Enclosed F id := fun x hx =>
  hS x (enclosed_of_reads (fun id hid n hn => h.reads id n hn hid) hid x hx)

/-- Nodes stay. -/
theorem Within.find?_eq_none (h : a.Within S b) (hid : b.find? id = none) : a.find? id = none := by
  refine Option.eq_none_iff_forall_ne_some.2 fun n hn => ?_
  obtain ⟨m, hm, -⟩ := h.node id n hn
  cases hid.symm.trans hm

theorem find?_eq_none_of_append (h : (b.append m).find? id = none) : b.find? id = none := by
  rw [find?_append] at h
  split at h
  · cases h
  · exact h

/-- A node of the set is changed. -/
theorem Within.change (h : a.Within S b) {f : Node → Node} (hid : S id)
    (hm : b.find? id = some m) (hf : ∀ n, a.find? id = some n → n.Reworked (f m))
    (hreads : ∀ op ∈ (f m).readOperands, S op) : a.Within S (b.change id f) where
  node other n hn := by
    by_cases ho : other = id
    · subst ho
      exact ⟨f m, find?_change_self hm, hf n hn, .inr hid⟩
    · obtain ⟨m', hm', hnm⟩ := h.node other n hn
      exact ⟨m', by rw [find?_change, if_neg ho, hm'], hnm⟩
  reads other m' hm' hother := by
    rcases find?_change_cases hm hm' with ⟨-, rfl⟩ | hold
    · exact hreads
    · exact h.reads other m' hold hother
  fresh other hother := h.fresh other (by
    rw [find?_change] at hother
    split at hother
    · rename_i ho
      rw [ho, Option.map_eq_none_iff.1 hother]
    · exact hother)
  lists_eq := h.lists_eq
  names_eq := h.names_eq
  attributes_eq := h.attributes_eq

/-- A new node is in the set. -/
theorem Within.mem_size (h : a.Within S b) : S ⟨b.size⟩ :=
  h.fresh _ (find?_eq_none_iff.2 (Nat.le_refl _))

/-- A node is appended that reads nodes of the set along. -/
theorem Within.append (h : a.Within S b) (hreads : ∀ op ∈ m.readOperands, S op) :
    a.Within S (b.append m) where
  node id n hn := by
    obtain ⟨m', hm', hnm⟩ := h.node id n hn
    exact ⟨m', find?_append_of_some hm', hnm⟩
  reads id m' hm' hid := by
    rcases find?_append_cases hm' with ⟨-, rfl⟩ | hold
    · exact hreads
    · exact h.reads id m' hold hid
  fresh id hid := h.fresh id (find?_eq_none_of_append hid)
  lists_eq := h.lists_eq
  names_eq := h.names_eq
  attributes_eq := h.attributes_eq

/-- Nothing but expressions and variables changes. -/
def Still (a : Arena) (id : NodeId) : Prop :=
  ∀ n, a.find? id = some n → n.kind.isExpression = false ∧ n.kind.isVariable = false

/-- What is read along with an expression, and what is no expression or variable of the arena. -/
def Footprint (a : Arena) (expr id : NodeId) : Prop := a.ReadAlong expr id ∨ a.Still id

/-- Nothing has changed yet. -/
theorem within_footprint (a : Arena) (expr : NodeId) : a.Within (a.Footprint expr) a where
  node _ n hn := ⟨n, hn, .refl n, .inl rfl⟩
  reads id n hn hid op hop := by
    rcases hid with hid | hid
    · exact .inl (hid.tail ⟨n, hn, hop⟩)
    · rw [Node.readOperands_of_not_isExpression (hid n hn).1] at hop
      cases hop
  fresh id hid := .inr fun n hn => by cases hid.symm.trans hn
  lists_eq := rfl
  names_eq := rfl
  attributes_eq := rfl

/-- In the footprint of an expression, only what is read along with it changes. -/
theorem Within.confined {expr : NodeId} (h : a.Within S b)
    (hS : ∀ id, S id → a.Footprint expr id) : a.Confined (a.ReadAlong expr) b where
  outside id n hn hid := by
    obtain ⟨m, hm, hnm, hsame⟩ := h.node id n hn
    rcases hsame.imp_right (hS id) with rfl | hread | hstill
    · exact hm
    · exact absurd hread hid
    · rw [hm, hnm.still (hstill n hn).1 (hstill n hn).2]
  inside id n hn := by
    obtain ⟨m, hm, hnm, -⟩ := h.node id n hn
    exact ⟨m, hm, hnm⟩
  lists_eq := h.lists_eq
  names_eq := h.names_eq
  attributes_eq := h.attributes_eq

end Arena

end ExprTree
