import ExprTree.Proofs.DerivedFlags

/-!
# Types that passes rely on

A dereference of a reference has the type referred to, and a location wrapper has the type of its
operand.  Passes find types so and leave them so: no type of an old node changes.

* `Arena.referent?` — the type behind a value of reference type.
* `Arena.Typed`, `Arena.WellTyped` — a node, or all nodes, with the types that they must have.
* `Arena.SameType` — two nodes of one type.
-/

namespace ExprTree

namespace Arena

theorem kindOf_eq_ok_iff {a : Arena} {id : NodeId} {k : NodeKind} :
    a.kindOf id = .ok k ↔ ∃ n, a.find? id = some n ∧ n.kind = k := by
  simp only [kindOf, map_eq_ok_iff, node_eq_ok_iff]

/-- A question about a node that is there. -/
theorem map_node_of_find? {α : Type} {a : Arena} {id : NodeId} {n : Node} {f : Node → α}
    (hn : a.find? id = some n) : (a.node id).map f = .ok (f n) :=
  map_eq_ok_iff.2 ⟨n, node_eq_ok_iff.2 hn, rfl⟩

/-- A question about the kind of a node that is there. -/
theorem map_kindOf_of_find? {α : Type} {a : Arena} {id : NodeId} {n : Node} {f : NodeKind → α}
    (hn : a.find? id = some n) : (a.kindOf id).map f = .ok (f n.kind) :=
  map_eq_ok_iff.2 ⟨n.kind, kindOf_eq_ok_iff.2 ⟨n, hn, rfl⟩, rfl⟩

/-! ### References -/

/-- The type behind a value of reference type. -/
def referent? (a : Arena) (expr : NodeId) : Option NodeId := do
  let n ← a.find? expr
  match (← a.find? (← n.type)).kind with
  | .referenceType target => some target
  | _ => none

theorem referent?_eq_some_iff {a : Arena} {expr target : NodeId} :
    a.referent? expr = some target ↔ ∃ n t m, a.find? expr = some n ∧ n.type = some t ∧
      a.find? t = some m ∧ m.kind = .referenceType target := by
  unfold referent?
  simp only [Option.bind_eq_bind, Option.bind_eq_some_iff]
  constructor
  · rintro ⟨n, hn, t, ht, m, hm, h⟩
    split at h
    · rename_i target' hk
      cases h
      exact ⟨n, t, m, hn, ht, hm, hk⟩
    · cases h
  · rintro ⟨n, t, m, hn, ht, hm, hk⟩
    exact ⟨n, hn, t, ht, m, hm, by rw [hk]⟩

theorem isSome_of_referent? {a : Arena} {expr target : NodeId}
    (h : a.referent? expr = some target) : (a.find? expr).isSome = true := by
  obtain ⟨n, _, _, hn, -⟩ := referent?_eq_some_iff.1 h
  rw [hn]
  rfl

theorem isReference_eq_true_iff {a : Arena} {expr : NodeId} :
    a.isReference expr = .ok true ↔ ∃ target, a.referent? expr = some target := by
  simp only [referent?_eq_some_iff, isReference, typeOf, bind_eq_ok_iff, map_eq_ok_iff,
    node_eq_ok_iff]
  constructor
  · rintro ⟨_, ⟨n, hn, rfl⟩, h⟩
    split at h
    · rename_i t ht
      simp only [isReferenceType, kindOf, map_eq_ok_iff, node_eq_ok_iff] at h
      obtain ⟨_, ⟨m, hm, rfl⟩, h⟩ := h
      split at h
      · rename_i target hk
        exact ⟨target, n, t, m, hn, ht, hm, hk⟩
      · cases h
    · cases h
  · rintro ⟨target, n, t, m, hn, ht, hm, hk⟩
    refine ⟨n.type, ⟨n, hn, rfl⟩, ?_⟩
    rw [ht]
    simp only [isReferenceType, kindOf, map_eq_ok_iff, node_eq_ok_iff]
    exact ⟨_, ⟨m, hm, rfl⟩, by rw [hk]⟩

theorem Evolves.isVolatile {a b : Arena} (h : a.Evolves b) {type : NodeId} {r : Bool}
    (hr : a.isVolatile type = .ok r) : b.isVolatile type = .ok r := by
  obtain ⟨n, hn, rfl⟩ := hasFlag_eq_ok_iff.1 hr
  obtain ⟨m, hm, hnm⟩ := h.node _ _ hn
  exact hasFlag_eq_ok_iff.2 ⟨m, hm, hnm.flag_eq _ (by decide) (by decide) (by decide)⟩

theorem Evolves.typeOf {a b : Arena} (h : a.Evolves b) {expr : NodeId} {t : Option NodeId}
    (ht : a.typeOf expr = .ok t) : b.typeOf expr = .ok t := by
  simp only [Arena.typeOf, map_eq_ok_iff, node_eq_ok_iff] at ht ⊢
  obtain ⟨n, hn, rfl⟩ := ht
  obtain ⟨m, hm, hnm⟩ := h.node _ _ hn
  exact ⟨m, hm, hnm.type_eq⟩

theorem Evolves.referent? {a b : Arena} (h : a.Evolves b) {expr target : NodeId}
    (hr : a.referent? expr = some target) : b.referent? expr = some target := by
  rw [referent?_eq_some_iff] at hr ⊢
  obtain ⟨n, t, m, hn, ht, hm, hk⟩ := hr
  obtain ⟨n', hn', hnn⟩ := h.node _ _ hn
  obtain ⟨m', hm', hmm⟩ := h.node _ _ hm
  refine ⟨n', t, m', hn', by rw [hnn.type_eq, ht], hm', ?_⟩
  rw [← hk]
  exact NodeKind.eq_of_skeleton hmm.skeleton_eq (by rw [hk]; rfl)

theorem isErroneous_isOk {a : Arena} {id : NodeId}
    (hid : id = .error ∨ (a.find? id).isSome = true) : ∃ r, a.isErroneous id = .ok r := by
  unfold isErroneous
  split
  · exact ⟨true, rfl⟩
  · rename_i hne
    obtain ⟨n, hn⟩ := Option.isSome_iff_exists.1 (hid.resolve_left hne)
    exact ⟨_, map_eq_ok_iff.2 ⟨_, map_node_of_find? hn, rfl⟩⟩

theorem Evolves.isErroneous {a b : Arena} (h : a.Evolves b) {id : NodeId} {r : Bool}
    (hr : a.isErroneous id = .ok r) : b.isErroneous id = .ok r := by
  unfold Arena.isErroneous at hr ⊢
  by_cases hid : id = .error
  · rw [if_pos hid] at hr ⊢
    exact hr
  · rw [if_neg hid] at hr ⊢
    obtain ⟨type, htype, rfl⟩ := map_eq_ok_iff.1 hr
    rw [h.typeOf htype]
    rfl

theorem Evolves.isReferenceType {a b : Arena} (h : a.Evolves b) {id : NodeId} {r : Bool}
    (hr : a.isReferenceType id = .ok r) : b.isReferenceType id = .ok r := by
  obtain ⟨_, hkind, rfl⟩ := map_eq_ok_iff.1 hr
  obtain ⟨n, hn, rfl⟩ := kindOf_eq_ok_iff.1 hkind
  obtain ⟨m, hm, hnm⟩ := h.node id n hn
  rw [Arena.isReferenceType, map_kindOf_of_find? hm]
  refine congrArg Except.ok ?_
  -- a kind without exchangeable operands stays, and the others are no reference types
  cases hk : n.kind.isExchangeable with
  | false => rw [NodeKind.eq_of_skeleton hnm.skeleton_eq hk]
  | true =>
    have hk' : m.kind.isExchangeable = true := by
      rw [← NodeKind.isExchangeable_skeleton, hnm.skeleton_eq, NodeKind.isExchangeable_skeleton, hk]
    have hnone : ∀ k : NodeKind, k.isExchangeable = true →
        (match k with | .referenceType _ => true | _ => false) = false := by
      intro k hk
      cases k <;> first | rfl | cases hk
    exact (hnone _ hk').trans (hnone _ hk).symm

theorem Evolves.isReference {a b : Arena} (h : a.Evolves b) {id : NodeId} {r : Bool}
    (hr : a.isReference id = .ok r) : b.isReference id = .ok r := by
  obtain ⟨type, htype, hr⟩ := bind_eq_ok_iff.1 hr
  refine bind_eq_ok_iff.2 ⟨type, h.typeOf htype, ?_⟩
  cases type with
  | none => exact hr
  | some type => exact h.isReferenceType hr

/-! ### Void types -/

/-- A node without a value: it has no type, or is void. -/
def Valueless (a : Arena) (n : Node) : Prop :=
  ∀ type, n.type = some type → a.isVoidType type = .ok true

theorem Evolves.isVoidType {a b : Arena} (h : a.Evolves b) {type : NodeId} {r : Bool}
    (hr : a.isVoidType type = .ok r) : b.isVoidType type = .ok r := by
  simp only [Arena.isVoidType, map_eq_ok_iff, kindOf_eq_ok_iff] at hr ⊢
  obtain ⟨_, ⟨n, hn, rfl⟩, rfl⟩ := hr
  obtain ⟨m, hm, hnm⟩ := h.node _ _ hn
  refine ⟨_, ⟨m, hm, rfl⟩, ?_⟩
  by_cases hk : n.kind = .voidType
  · rw [NodeKind.eq_of_skeleton hnm.skeleton_eq (by rw [hk]; rfl)]
  · have hk' : m.kind ≠ .voidType := fun hm =>
      hk (hm ▸ NodeKind.eq_of_skeleton hnm.skeleton_eq.symm (by rw [hm]; rfl))
    rw [beq_false_of_ne hk, beq_false_of_ne hk']

/-- No new type is `void`, hence no old type becomes it. -/
theorem Evolves.of_isVoidType {a b : Arena} (h : a.Evolves b) {type : NodeId}
    (hr : b.isVoidType type = .ok true) : a.isVoidType type = .ok true := by
  simp only [Arena.isVoidType, map_eq_ok_iff, kindOf_eq_ok_iff, beq_iff_eq] at hr ⊢
  obtain ⟨_, ⟨m, hm, rfl⟩, hk⟩ := hr
  cases hn : a.find? type with
  | none =>
    have := h.fresh_isType type m hm hn
    rw [hk] at this
    cases this
  | some n =>
    obtain ⟨m', hm', hnm⟩ := h.node type n hn
    cases hm.symm.trans hm'
    exact ⟨_, ⟨n, rfl, rfl⟩, hk ▸ NodeKind.eq_of_skeleton hnm.skeleton_eq.symm (by rw [hk]; rfl)⟩

theorem valueless_evolve {a b : Arena} {n : Node} (hab : a.Evolves b) :
    a.Valueless n ↔ b.Valueless n :=
  ⟨fun h type ht => hab.isVoidType (h type ht), fun h type ht => hab.of_isVoidType (h type ht)⟩

/-- The types of an arena stay, and no old node becomes a reference. -/
structure TypesAgree (a b : Arena) : Prop where
  typeOf : ∀ expr t, a.typeOf expr = .ok t → b.typeOf expr = .ok t
  of_referent? : ∀ expr target, (a.find? expr).isSome = true → b.referent? expr = some target →
    a.referent? expr = some target

/-- No new type is a reference type, hence no old node becomes a reference. -/
theorem Evolves.of_referent? {a b : Arena} (h : a.Evolves b) {expr target : NodeId}
    (hexpr : (a.find? expr).isSome = true) (hr : b.referent? expr = some target) :
    a.referent? expr = some target := by
  rw [referent?_eq_some_iff] at hr ⊢
  obtain ⟨n', t, m', hn', ht', hm', hk'⟩ := hr
  obtain ⟨n, hn⟩ := Option.isSome_iff_exists.1 hexpr
  obtain ⟨_, hn'', hnn⟩ := h.node _ _ hn
  cases hn'.symm.trans hn''
  cases hm : a.find? t with
  | none =>
    have := h.fresh_isType t m' hm' hm
    rw [hk'] at this
    cases this
  | some m =>
    obtain ⟨_, hm'', hmm⟩ := h.node _ _ hm
    cases hm'.symm.trans hm''
    refine ⟨n, t, m, hn, by rw [← hnn.type_eq, ht'], hm, ?_⟩
    rw [← hk']
    exact NodeKind.eq_of_skeleton hmm.skeleton_eq.symm (by rw [hk']; rfl)

theorem Evolves.typesAgree {a b : Arena} (h : a.Evolves b) : a.TypesAgree b :=
  ⟨fun _ _ => h.typeOf, fun _ _ => h.of_referent?⟩

/-! ### Typed nodes -/

/-- The type of a node is the one that its operand gives it. -/
structure Typed (a : Arena) (n : Node) : Prop where
  deref : ∀ pointer target, n.kind = .unary .deref pointer → a.referent? pointer = some target →
    n.type = some target
  wrapper : ∀ operand, n.wrapped? = some operand → a.typeOf operand = .ok n.type

/-- All nodes have the types that their operands give them, and the void value is there. -/
structure WellTyped (a : Arena) : Prop where
  node : ∀ id n, a.find? id = some n → a.Typed n
  void : ∃ n, a.find? .void = some n ∧ n.kind = .voidConst

/-- The pointer of a dereference. -/
def pointer? (n : Node) : Option NodeId :=
  match n.kind with
  | .unary .deref pointer => some pointer
  | _ => none

theorem pointer?_eq_some_iff {n : Node} {pointer : NodeId} :
    pointer? n = some pointer ↔ n.kind = .unary .deref pointer := by
  unfold pointer?
  constructor
  · intro h
    split at h
    · cases h
      assumption
    · cases h
  · intro h
    rw [h]

instance (a : Arena) (n : Node) : Decidable (a.Typed n) :=
  decidable_of_iff
    ((∀ pointer ∈ pointer? n, ∀ target ∈ a.referent? pointer, n.type = some target) ∧
      ∀ operand ∈ n.wrapped?, a.typeOf operand = .ok n.type)
    ⟨fun h => ⟨fun pointer target hk hr => h.1 pointer (pointer?_eq_some_iff.2 hk) target hr, h.2⟩,
      fun h => ⟨fun pointer hk target hr => h.deref pointer target (pointer?_eq_some_iff.1 hk) hr,
        h.wrapper⟩⟩

theorem forall_find?_iff {a : Arena} {P : Node → Prop} :
    (∀ id n, a.find? id = some n → P n) ↔ ∀ n ∈ a.nodes.toList, P n := by
  constructor
  · intro h n hn
    obtain ⟨i, hi⟩ := List.mem_iff_getElem?.1 hn
    exact h ⟨i⟩ n (by rw [← hi]; exact Array.getElem?_toList.symm)
  · intro h id n hn
    refine h n (List.mem_iff_getElem?.2 ⟨id.index, ?_⟩)
    rw [← hn]
    exact Array.getElem?_toList

instance (a : Arena) : Decidable a.WellTyped :=
  decidable_of_iff ((∀ n ∈ a.nodes.toList, a.Typed n) ∧ a.kindOf .void = .ok .voidConst)
    ⟨fun h => ⟨forall_find?_iff.2 h.1, kindOf_eq_ok_iff.1 h.2⟩,
      fun h => ⟨forall_find?_iff.1 h.node, kindOf_eq_ok_iff.2 h.void⟩⟩

theorem wrapped?_congr {n m : Node} (hk : m.kind = n.kind)
    (hf : m.flags.has .locationWrapper = n.flags.has .locationWrapper) :
    m.wrapped? = n.wrapped? := by
  simp only [Node.wrapped?, hk, hf]

theorem Typed.congr {a : Arena} {n m : Node} (h : a.Typed n) (hk : m.kind = n.kind)
    (ht : m.type = n.type) (hf : m.flags.has .locationWrapper = n.flags.has .locationWrapper) :
    a.Typed m where
  deref pointer target hm hr := by
    rw [ht]
    exact h.deref pointer target (hk ▸ hm) hr
  wrapper operand hm := by
    rw [ht]
    exact h.wrapper operand (wrapped?_congr hk hf ▸ hm)

theorem Typed.mono {a b : Arena} {n : Node} (h : a.Typed n) (hab : a.TypesAgree b)
    (hp : ∀ pointer, n.kind = .unary .deref pointer → (a.find? pointer).isSome = true) :
    b.Typed n where
  deref pointer target hk hr :=
    h.deref pointer target hk (hab.of_referent? pointer target (hp pointer hk) hr)
  wrapper operand hw := hab.typeOf operand _ (h.wrapper operand hw)

theorem Evolves.void {a b : Arena} (h : a.Evolves b)
    (hv : ∃ n, a.find? .void = some n ∧ n.kind = .voidConst) :
    ∃ n, b.find? .void = some n ∧ n.kind = .voidConst := by
  obtain ⟨n, hn, hk⟩ := hv
  obtain ⟨m, hm, hnm⟩ := h.node _ _ hn
  exact ⟨m, hm, hk ▸ NodeKind.eq_of_skeleton hnm.skeleton_eq (by rw [hk]; rfl)⟩

/-- The pointer of a dereference with derived flags is a node. -/
theorem isSome_pointer {a : Arena} {n : Node} {f : NodeFlags} (h : a.derivedFlags n = .ok f)
    {pointer : NodeId} (hk : n.kind = .unary .deref pointer) :
    (a.find? pointer).isSome = true := by
  obtain ⟨_, _, -, hi, -⟩ := derivedFlags_eq_ok_iff.1 h
  rw [inheritsEffect_eq (by rw [hk]; rfl) (by rw [hk]; rfl), anyM_singleton] at hi
  obtain ⟨m, hm, -⟩ := hasEffect_eq_ok_iff.1 hi
  rw [hm]
  rfl

/-! ### Nodes of one type -/

/-- Two handles are the same, or nodes of the same type. -/
def SameType (a : Arena) (s r : NodeId) : Prop :=
  s = r ∨ ∃ t, a.typeOf s = .ok t ∧ a.typeOf r = .ok t

theorem SameType.refl (a : Arena) (s : NodeId) : a.SameType s s := .inl rfl

theorem SameType.trans {a : Arena} {s r t : NodeId} (h : a.SameType s r) (h' : a.SameType r t) :
    a.SameType s t := by
  rcases h with rfl | ⟨u, hs, hr⟩
  · exact h'
  rcases h' with rfl | ⟨v, hr', ht⟩
  · exact .inr ⟨u, hs, hr⟩
  · cases hr.symm.trans hr'
    exact .inr ⟨u, hs, ht⟩

theorem SameType.mono {a b : Arena} (h : a.Evolves b) {s r : NodeId} (hs : a.SameType s r) :
    b.SameType s r := by
  rcases hs with rfl | ⟨t, hs, hr⟩
  · exact .inl rfl
  · exact .inr ⟨t, h.typeOf hs, h.typeOf hr⟩

theorem SameType.typeOf {a : Arena} {s r : NodeId} {t : Option NodeId} (h : a.SameType s r)
    (hs : a.typeOf s = .ok t) : a.typeOf r = .ok t := by
  rcases h with rfl | ⟨u, hs', hr⟩
  · exact hs
  · cases hs.symm.trans hs'
    exact hr

theorem SameType.referent? {a : Arena} {s r : NodeId} (h : a.SameType s r) :
    a.referent? r = a.referent? s := by
  rcases h with rfl | ⟨t, hs, hr⟩
  · rfl
  simp only [Arena.typeOf, map_eq_ok_iff, node_eq_ok_iff] at hs hr
  obtain ⟨n, hn, rfl⟩ := hs
  obtain ⟨m, hm, ht⟩ := hr
  simp only [Arena.referent?, hn, hm, Option.bind_eq_bind, Option.bind_some, ht]

/-- An exchange of operands for others of the same type leaves a node typed. -/
theorem Typed.rewritten {a : Arena} {R : NodeId → NodeId → Prop} {k k' : NodeKind} {n : Node}
    (h : a.Typed { n with kind := k }) (hk : k.Rewritten R k')
    (hR : ∀ s r, R s r → a.SameType s r) : a.Typed { n with kind := k' } where
  deref pointer _ hd _ := absurd hd (hk.ne_deref pointer)
  wrapper operand' hw := by
    obtain ⟨operand, hw', hs⟩ := Node.wrapped?_rewritten hk hw
    exact (hR _ _ hs).typeOf (h.wrapper operand hw')

end Arena

end ExprTree
