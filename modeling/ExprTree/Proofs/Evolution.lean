import Mathlib.Data.List.Forall2
import ExprTree.Proofs.Wlp
import ExprTree.Use.Classify

/-!
# How passes change an arena

Passes change nodes in place and append new ones.  In place they only exchange operands that carry
a value or a storage, turn a location wrapper into a value, move spans, and set the flags that
follow from operands or record a read; everything else about an old node stays.

* `NodeKind.skeleton` — what is left of a kind without its exchangeable operands.
* `NodeKind.Rewritten` — the exchange of such operands.
* `Node.Becomes`, `Arena.Evolves` — what stays of a node and of an arena.
* `Arena.change`, `Arena.append` — the two elementary changes.
-/

namespace ExprTree

namespace NodeKind

/-- A kind without the operands that a pass may exchange.  The two kinds of a location wrapper
have the same skeleton. -/
def skeleton : NodeKind → NodeKind
  | componentRef _ field => componentRef .error field
  | comma lhs _ => comma lhs .error
  | cond first second _ => cond first (second.map fun _ => .error) .error
  | unary .nop _ => unary .nop .error
  | unary .convert _ => unary .convert .error
  | unary .nonDependent _ => unary .nonDependent .error
  | unary .viewConvert _ | unary .nonLvalue _ => unary .viewConvert .error
  | kind => kind

/-- Operands that carry the value or the storage are exchanged for others that are related to them,
and a conversion may become a value. -/
inductive Rewritten (R : NodeId → NodeId → Prop) : NodeKind → NodeKind → Prop
  | component {object object' field : NodeId} (h : R object object') :
    Rewritten R (componentRef object field) (componentRef object' field)
  | comma {lhs rhs rhs' : NodeId} (h : R rhs rhs') : Rewritten R (comma lhs rhs) (comma lhs rhs')
  | cond {first third third' : NodeId} {second second' : Option NodeId}
    (hs : Option.Rel R second second') (ht : R third third') :
    Rewritten R (cond first second third) (cond first second' third')
  | transparent {op : UnaryOp} {operand operand' : NodeId} (hop : op.isTransparent = true)
    (h : R operand operand') : Rewritten R (unary op operand) (unary op operand')
  | value {operand operand' : NodeId} (h : R operand operand') :
    Rewritten R (unary .viewConvert operand) (unary .nonLvalue operand')

theorem Rewritten.imp {R S : NodeId → NodeId → Prop} {k k' : NodeKind} (h : k.Rewritten R k')
    (hRS : ∀ s r, R s r → S s r) : k.Rewritten S k' := by
  cases h with
  | component h => exact .component (hRS _ _ h)
  | comma h => exact .comma (hRS _ _ h)
  | transparent hop h => exact .transparent hop (hRS _ _ h)
  | value h => exact .value (hRS _ _ h)
  | cond hs ht =>
    refine .cond ?_ (hRS _ _ ht)
    cases hs with
    | none => exact .none
    | some hs => exact .some (hRS _ _ hs)

theorem Rewritten.skeleton_eq {R : NodeId → NodeId → Prop} {k k' : NodeKind}
    (h : k.Rewritten R k') : k'.skeleton = k.skeleton := by
  cases h with
  | component | comma | value => rfl
  | cond hs _ => cases hs <;> rfl
  | @transparent op _ _ hop _ => cases op <;> first | rfl | cases hop

theorem Rewritten.isType_eq {R : NodeId → NodeId → Prop} {k k' : NodeKind}
    (h : k.Rewritten R k') : k'.isType = false := by
  cases h <;> rfl

theorem Rewritten.source_ne_deref {R : NodeId → NodeId → Prop} {k k' : NodeKind}
    (h : k.Rewritten R k') (pointer : NodeId) : k ≠ unary .deref pointer := by
  rintro rfl
  cases h with
  | transparent hop _ => cases hop

theorem Rewritten.ne_deref {R : NodeId → NodeId → Prop} {k k' : NodeKind} (h : k.Rewritten R k')
    (pointer : NodeId) : k' ≠ unary .deref pointer := by
  rintro rfl
  cases h with
  | transparent hop _ => cases hop

/-- A location wrapper around another operand, as a value or not. -/
theorem Rewritten.wrapper {R : NodeId → NodeId → Prop} {operand operand' : NodeId}
    (h : R operand operand') (rvalue : Bool) : (unary .viewConvert operand).Rewritten R
      (unary (if rvalue then .nonLvalue else .viewConvert) operand') := by
  cases rvalue with
  | true => exact .value h
  | false => exact .transparent rfl h

/-- An exchange of operands does not change how a kind takes part in evaluation. -/
theorem Rewritten.class_eq {R : NodeId → NodeId → Prop} {k k' : NodeKind} (h : k.Rewritten R k') :
    k'.accessesObject = k.accessesObject ∧ k.hasOwnEffect = false ∧ k'.hasOwnEffect = false ∧
      k.isUnevaluated = false ∧ k'.isUnevaluated = false := by
  cases h with
  | @transparent op _ _ hop _ => cases op <;> first | exact ⟨rfl, rfl, rfl, rfl, rfl⟩ | cases hop
  | _ => exact ⟨rfl, rfl, rfl, rfl, rfl⟩

/-- All operands are single handles, and those that are not exchanged stay. -/
theorem Rewritten.operands {R : NodeId → NodeId → Prop} {k k' : NodeKind} (h : k.Rewritten R k') :
    ∃ ops ops', k.operands = (ops, .empty) ∧ k'.operands = (ops', .empty) ∧
      List.Forall₂ (fun s r => s = r ∨ R s r) ops ops' := by
  cases h with
  | component h => exact ⟨_, _, rfl, rfl, .cons (.inr h) (.cons (.inl rfl) .nil)⟩
  | comma h => exact ⟨_, _, rfl, rfl, .cons (.inl rfl) (.cons (.inr h) .nil)⟩
  | transparent _ h | value h => exact ⟨_, _, rfl, rfl, .cons (.inr h) .nil⟩
  | cond hs ht =>
    refine ⟨_, _, rfl, rfl, .cons (.inl rfl) ?_⟩
    cases hs with
    | none => exact .cons (.inr ht) .nil
    | some hs => exact .cons (.inr hs) (.cons (.inr ht) .nil)

/-- Can a pass exchange operands of this kind? -/
def isExchangeable : NodeKind → Bool
  | componentRef .. | comma .. | cond .. => true
  | unary .nop _ | unary .convert _ | unary .nonDependent _ | unary .viewConvert _
  | unary .nonLvalue _ => true
  | _ => false

theorem isExchangeable_skeleton (k : NodeKind) : k.skeleton.isExchangeable = k.isExchangeable := by
  cases k with
  | unary op _ => cases op <;> rfl
  | _ => rfl

theorem isType_skeleton (k : NodeKind) : k.skeleton.isType = k.isType := by
  cases k with
  | unary op _ => cases op <;> rfl
  | _ => rfl

theorem isType_of_accessesObject {k : NodeKind} (hk : k.accessesObject = true) :
    k.isType = false := by
  cases k with
  | unary | arrayRef | componentRef | decl => rfl
  | _ => cases hk

theorem skeleton_eq_self {k : NodeKind} (hk : k.isExchangeable = false) : k.skeleton = k := by
  cases k with
  | unary op _ => cases op <;> first | rfl | cases hk
  | componentRef | comma | cond => cases hk
  | _ => rfl

/-- A kind without exchangeable operands does not change. -/
theorem eq_of_skeleton {k k' : NodeKind} (h : k'.skeleton = k.skeleton)
    (hk : k.isExchangeable = false) : k' = k := by
  have hk' : k'.isExchangeable = false := by
    rw [← isExchangeable_skeleton, h, isExchangeable_skeleton, hk]
  rw [← skeleton_eq_self hk', h, skeleton_eq_self hk]

end NodeKind

theorem Node.wrapped?_eq_some_iff {n : Node} {operand : NodeId} :
    n.wrapped? = some operand ↔ n.flags.has .locationWrapper = true ∧
      (n.kind = .unary .viewConvert operand ∨ n.kind = .unary .nonLvalue operand) := by
  unfold Node.wrapped?
  constructor
  · intro h
    split at h
    · rename_i hk
      by_cases hf : n.flags.has .locationWrapper = true
      · rw [if_pos hf] at h
        cases h
        exact ⟨hf, .inl hk⟩
      · rw [if_neg hf] at h
        cases h
    · rename_i hk
      by_cases hf : n.flags.has .locationWrapper = true
      · rw [if_pos hf] at h
        cases h
        exact ⟨hf, .inr hk⟩
      · rw [if_neg hf] at h
        cases h
    · cases h
  · rintro ⟨hf, hk | hk⟩
    · rw [hk]
      exact if_pos hf
    · rw [hk]
      exact if_pos hf

theorem Node.wrapped?_of_isWrapper {n : Node} {operand : NodeId} (hw : n.isWrapper = true)
    (hk : n.kind = .unary .viewConvert operand) : n.wrapped? = some operand := by
  obtain ⟨_, hwrap⟩ := Option.isSome_iff_exists.1 hw
  exact wrapped?_eq_some_iff.2 ⟨(wrapped?_eq_some_iff.1 hwrap).1, .inl hk⟩

/-- Both kinds of a location wrapper have one skeleton. -/
theorem Node.isSome_wrapped?_iff {n : Node} : n.wrapped?.isSome = true ↔
    n.flags.has .locationWrapper = true ∧ n.kind.skeleton = .unary .viewConvert .error := by
  simp only [Option.isSome_iff_exists, Node.wrapped?_eq_some_iff]
  constructor
  · rintro ⟨operand, hf, hk | hk⟩
    · exact ⟨hf, by rw [hk]; rfl⟩
    · exact ⟨hf, by rw [hk]; rfl⟩
  · rintro ⟨hf, hk⟩
    cases hkind : n.kind with
    | unary op operand =>
      rw [hkind] at hk
      cases op <;> first | exact ⟨operand, hf, .inl rfl⟩ | exact ⟨operand, hf, .inr rfl⟩ | cases hk
    | _ =>
      rw [hkind] at hk
      cases hk

/-- What a location wrapper wraps is exchanged like any other operand. -/
theorem Node.wrapped?_rewritten {R : NodeId → NodeId → Prop} {k k' : NodeKind} {n : Node}
    {operand' : NodeId} (h : k.Rewritten R k')
    (hw : Node.wrapped? { n with kind := k' } = some operand') :
    ∃ operand, Node.wrapped? { n with kind := k } = some operand ∧ R operand operand' := by
  simp only [Node.wrapped?_eq_some_iff] at hw ⊢
  obtain ⟨hf, hk⟩ := hw
  cases h with
  | component | comma | cond => rcases hk with h | h <;> cases h
  | transparent hop h =>
    rcases hk with hk | hk
    · cases hk
      exact ⟨_, ⟨hf, .inl rfl⟩, h⟩
    · cases hk
      cases hop
  | value h =>
    rcases hk with hk | hk
    · cases hk
    · cases hk
      exact ⟨_, ⟨hf, .inl rfl⟩, h⟩

/-- What stays of a node that a pass changes. -/
structure Node.Becomes (n m : Node) : Prop where
  type_eq : m.type = n.type
  skeleton_eq : m.kind.skeleton = n.kind.skeleton
  /-- Flags are only added. -/
  flag_mono : ∀ f, n.flags.has f = true → m.flags.has f = true
  /-- Only derived flags and the mark of a read are added. -/
  flag_eq : ∀ f, f ≠ .effect → f ≠ .volatileAccess → f ≠ .read → m.flags.has f = n.flags.has f

namespace Node

theorem Becomes.refl (n : Node) : n.Becomes n := ⟨rfl, rfl, fun _ h => h, fun _ _ _ _ => rfl⟩

theorem Becomes.trans {n m k : Node} (h : n.Becomes m) (h' : m.Becomes k) : n.Becomes k where
  type_eq := h'.type_eq.trans h.type_eq
  skeleton_eq := h'.skeleton_eq.trans h.skeleton_eq
  flag_mono f hf := h'.flag_mono f (h.flag_mono f hf)
  flag_eq f h₁ h₂ h₃ := (h'.flag_eq f h₁ h₂ h₃).trans (h.flag_eq f h₁ h₂ h₃)

/-- A node stays a location wrapper, or none. -/
theorem Becomes.locationWrapper_eq {n m : Node} (h : n.Becomes m) :
    m.flags.has .locationWrapper = n.flags.has .locationWrapper :=
  h.flag_eq _ (by decide) (by decide) (by decide)

end Node

namespace Arena

/-! ### Elementary changes -/

/-- A node changed in place. -/
def change (a : Arena) (id : NodeId) (f : Node → Node) : Arena :=
  { a with nodes := a.nodes.modify id.index f }

/-- A node appended. -/
def append (a : Arena) (n : Node) : Arena := { a with nodes := a.nodes.push n }

theorem find?_change (a : Arena) (id : NodeId) (f : Node → Node) (other : NodeId) :
    (a.change id f).find? other = if other = id then (a.find? id).map f else a.find? other := by
  obtain ⟨i⟩ := id
  obtain ⟨j⟩ := other
  by_cases hij : j = i
  · subst hij
    simp [find?, change, Array.getElem?_modify]
  · have : i ≠ j := fun e => hij e.symm
    simp [find?, change, Array.getElem?_modify, hij, this]

theorem find?_change_self {a : Arena} {id : NodeId} {n : Node} {f : Node → Node}
    (hn : a.find? id = some n) : (a.change id f).find? id = some (f n) := by
  rw [find?_change, if_pos rfl, hn]
  rfl

/-- A node is there after a change: it is the changed node or was there before. -/
theorem find?_change_cases {a : Arena} {id other : NodeId} {n m : Node} {f : Node → Node}
    (hn : a.find? id = some n) (hm : (a.change id f).find? other = some m) :
    other = id ∧ m = f n ∨ a.find? other = some m := by
  rw [find?_change] at hm
  split at hm
  · rename_i ho
    rw [hn] at hm
    cases hm
    exact .inl ⟨ho, rfl⟩
  · exact .inr hm

/-- Every node is there after a change, as it was or as the change leaves it. -/
theorem exists_find?_change {a : Arena} {id : NodeId} {n : Node} {f : Node → Node}
    {R : Node → Node → Prop} (hn : a.find? id = some n) (hf : R n (f n)) (hrefl : ∀ m, R m m)
    (other : NodeId) (m : Node) (hm : a.find? other = some m) :
    ∃ m', (a.change id f).find? other = some m' ∧ R m m' := by
  by_cases ho : other = id
  · subst ho
    cases hn.symm.trans hm
    exact ⟨f n, find?_change_self hn, hf⟩
  · exact ⟨m, by rw [find?_change, if_neg ho, hm], hrefl m⟩

theorem find?_append (a : Arena) (n : Node) (id : NodeId) :
    (a.append n).find? id = if id.index = a.size then some n else a.find? id :=
  Array.getElem?_push

theorem find?_append_new (a : Arena) (n : Node) : (a.append n).find? ⟨a.size⟩ = some n := by
  rw [find?_append, if_pos rfl]

theorem ne_size_of_isSome {a : Arena} {id : NodeId} (hs : (a.find? id).isSome = true) :
    id ≠ ⟨a.size⟩ := by
  rintro rfl
  have hnone : a.find? ⟨a.size⟩ = none := find?_eq_none_iff.2 (Nat.le_refl _)
  rw [hnone] at hs
  cases hs

theorem find?_append_of_some {a : Arena} {n m : Node} {id : NodeId} (h : a.find? id = some n) :
    (a.append m).find? id = some n := by
  rw [find?_append, if_neg, h]
  intro hid
  rw [find?_eq_none_iff.2 (Nat.le_of_eq hid.symm)] at h
  cases h

theorem isSome_find?_iff {a : Arena} {id : NodeId} :
    (a.find? id).isSome = true ↔ id.index < a.size := by
  rw [← not_iff_not, Bool.not_eq_true, Option.isSome_eq_false_iff, Option.isNone_iff_eq_none,
    find?_eq_none_iff, Nat.not_lt]

theorem size_change {a : Arena} {id : NodeId} {f : Node → Node} :
    (a.change id f).size = a.size := Array.size_modify ..

theorem size_append {a : Arena} {m : Node} : (a.append m).size = a.size + 1 := Array.size_push ..

theorem find?_isSome_change {a : Arena} {id other : NodeId} {f : Node → Node}
    (h : (a.find? other).isSome = true) : ((a.change id f).find? other).isSome = true :=
  isSome_find?_iff.2 (size_change.symm ▸ isSome_find?_iff.1 h)

theorem find?_isSome_append {a : Arena} {id : NodeId} {m : Node}
    (h : (a.find? id).isSome = true) : ((a.append m).find? id).isSome = true :=
  isSome_find?_iff.2 (size_append.symm ▸ Nat.lt_succ_of_lt (isSome_find?_iff.1 h))

/-- A node is there after another is appended: it is the new one or was there before. -/
theorem find?_append_cases {a : Arena} {id : NodeId} {n m : Node}
    (hn : (a.append m).find? id = some n) : id = ⟨a.size⟩ ∧ n = m ∨ a.find? id = some n := by
  rw [find?_append] at hn
  split at hn
  · rename_i hid
    cases hn
    exact .inl ⟨congrArg NodeId.mk hid, rfl⟩
  · exact .inr hn

/-- What stays of an arena that passes change. -/
structure Evolves (a b : Arena) : Prop where
  node : ∀ id n, a.find? id = some n → ∃ m, b.find? id = some m ∧ n.Becomes m
  /-- A new node has a type of the arena, or the type of an old node. -/
  fresh : ∀ id m t, b.find? id = some m → a.find? id = none → m.type = some t →
    (b.find? t).isSome ∨ ∃ old n, a.find? old = some n ∧ n.type = some t
  /-- No new node is a type. -/
  fresh_isType : ∀ id m, b.find? id = some m → a.find? id = none → m.kind.isType = false
  lists_eq : b.lists = a.lists
  names_eq : b.names = a.names
  attributes_eq : b.attributes = a.attributes

theorem Evolves.refl (a : Arena) : a.Evolves a where
  node _ n h := ⟨n, h, .refl n⟩
  fresh id m t h h' := by rw [h'] at h; cases h
  fresh_isType id m h h' := by rw [h'] at h; cases h
  lists_eq := rfl
  names_eq := rfl
  attributes_eq := rfl

theorem Evolves.isSome {a b : Arena} (h : a.Evolves b) {id : NodeId}
    (hid : (a.find? id).isSome = true) : (b.find? id).isSome = true := by
  obtain ⟨n, hn⟩ := Option.isSome_iff_exists.1 hid
  obtain ⟨m, hm, -⟩ := h.node id n hn
  rw [hm]
  rfl

theorem Evolves.trans {a b c : Arena} (h : a.Evolves b) (h' : b.Evolves c) : a.Evolves c where
  node id n hn := by
    obtain ⟨m, hm, hnm⟩ := h.node id n hn
    obtain ⟨k, hk, hmk⟩ := h'.node id m hm
    exact ⟨k, hk, hnm.trans hmk⟩
  fresh id k t hk hid ht := by
    -- the type may come from a node that is new in `b`, and then once more from there
    have old : ∀ j m, b.find? j = some m → m.type = some t → (c.find? t).isSome ∨
        ∃ old n, a.find? old = some n ∧ n.type = some t := by
      intro j m hm hmt
      cases hj : a.find? j with
      | some n =>
        obtain ⟨m', hm', hb⟩ := h.node j n hj
        rw [hm] at hm'
        cases hm'
        exact .inr ⟨j, n, hj, by rw [← hb.type_eq, hmt]⟩
      | none => exact (h.fresh j m t hm hj hmt).imp_left h'.isSome
    -- the node itself is new in `b` or in `c`
    cases hb : b.find? id with
    | some m =>
      obtain ⟨k', hk', hmk⟩ := h'.node id m hb
      rw [hk] at hk'
      cases hk'
      exact old id m hb (by rw [← hmk.type_eq, ht])
    | none =>
      obtain hc | ⟨j, m, hm, hmt⟩ := h'.fresh id k t hk hb ht
      · exact .inl hc
      · exact old j m hm hmt
  fresh_isType id k hk hid := by
    cases hb : b.find? id with
    | some m =>
      obtain ⟨k', hk', hmk⟩ := h'.node id m hb
      cases hk.symm.trans hk'
      rw [← NodeKind.isType_skeleton, hmk.skeleton_eq, NodeKind.isType_skeleton]
      exact h.fresh_isType id m hb hid
    | none => exact h'.fresh_isType id k hk hb
  lists_eq := h'.lists_eq.trans h.lists_eq
  names_eq := h'.names_eq.trans h.names_eq
  attributes_eq := h'.attributes_eq.trans h.attributes_eq

theorem evolves_change {a : Arena} {id : NodeId} {n : Node} {f : Node → Node}
    (hn : a.find? id = some n) (hf : n.Becomes (f n)) : a.Evolves (a.change id f) where
  node := exists_find?_change hn hf .refl
  fresh other m t hm hother := by
    rcases find?_change_cases hn hm with ⟨rfl, -⟩ | hm
    · cases hn.symm.trans hother
    · cases hm.symm.trans hother
  fresh_isType other m hm hother := by
    rcases find?_change_cases hn hm with ⟨rfl, -⟩ | hm
    · cases hn.symm.trans hother
    · cases hm.symm.trans hother
  lists_eq := rfl
  names_eq := rfl
  attributes_eq := rfl

theorem evolves_append {a : Arena} {m : Node} (hk : m.kind.isType = false)
    (ht : ∀ t, m.type = some t →
      ((a.append m).find? t).isSome ∨ ∃ old n, a.find? old = some n ∧ n.type = some t) :
    a.Evolves (a.append m) where
  node id n hn := ⟨n, find?_append_of_some hn, .refl n⟩
  fresh id n t hn hid hnt := by
    rcases find?_append_cases hn with ⟨-, rfl⟩ | hn
    · exact ht t hnt
    · cases hn.symm.trans hid
  fresh_isType id n hn hid := by
    rcases find?_append_cases hn with ⟨-, rfl⟩ | hn
    · exact hk
    · cases hn.symm.trans hid
  lists_eq := rfl
  names_eq := rfl
  attributes_eq := rfl

end Arena

end ExprTree
