import ExprTree.Proofs.ExactEffects

/-!
# Settled expressions

An expression is settled when discarding its value once more leaves it as it is.  It must not be
behind a location wrapper, and must have an effect unless it is void; no dereference may give way
to its pointer, neither at the expression itself nor at an operand whose value is discarded with
it.

* `NodeKind.branches` — the operands whose values are discarded with the value of a node.
* `Arena.WellFormed` — exact effect flags, and location wrappers of declarations and constants only.
* `Arena.Settled` — settled expressions.
* `Arena.SettlesBy` — one level of the definition, and when it stays the same.
-/

namespace ExprTree

namespace NodeKind

/-- The operands whose values are discarded with the value of a node. -/
def branches : NodeKind → List NodeId
  | cond _ second third => second.toList ++ [third]
  | comma _ rhs => [rhs]
  | _ => []

theorem branches_eq_nil {k : NodeKind} (hcond : ∀ first second third, k ≠ cond first second third)
    (hcomma : ∀ lhs rhs, k ≠ comma lhs rhs) : k.branches = [] := by
  unfold branches
  split
  · exact absurd rfl (hcond _ _ _)
  · exact absurd rfl (hcomma _ _)
  · rfl

theorem Rewritten.branches {R : NodeId → NodeId → Prop} {k k' : NodeKind} (h : k.Rewritten R k') :
    List.Forall₂ R k.branches k'.branches := by
  cases h with
  | comma h => exact .cons h .nil
  | cond hs ht =>
    cases hs with
    | none => exact .cons ht .nil
    | some hs => exact .cons hs (.cons ht .nil)
  | component | transparent | value => exact .nil

end NodeKind

/-- The operands whose values are discarded with the value of a node are read along with it. -/
theorem Node.mem_readOperands_of_branches {n : Node} {op : NodeId} (hop : op ∈ n.kind.branches) :
    op ∈ n.readOperands := by
  cases hk : n.kind with
  | cond first second third => simpa only [readOperands, NodeKind.branches, hk] using hop
  | comma lhs rhs => simpa only [readOperands, NodeKind.branches, hk] using hop
  | _ => rw [hk] at hop; cases hop

/-- A node of exchanged kind is a location wrapper only if the node was. -/
theorem Node.wrapped?_rewritten_eq_none {R : NodeId → NodeId → Prop} {k k' : NodeKind} {n : Node}
    (h : k.Rewritten R k') (hw : Node.wrapped? { n with kind := k' } = none) :
    Node.wrapped? { n with kind := k } = none := by
  refine Option.eq_none_iff_forall_ne_some.2 fun operand hs => ?_
  rw [Node.wrapped?_eq_some_iff] at hs
  obtain ⟨hf, hk⟩ := hs
  have hsome : ∃ operand', Node.wrapped? { n with kind := k' } = some operand' := by
    simp only [Node.wrapped?_eq_some_iff]
    cases h with
    | component | comma | cond => rcases hk with hk | hk <;> cases hk
    | transparent hop h =>
      rcases hk with hk | hk <;> cases hk
      · exact ⟨_, hf, .inl rfl⟩
      · cases hop
    | value h => exact ⟨_, hf, .inr rfl⟩
  obtain ⟨_, hs⟩ := hsome
  rw [hw] at hs
  cases hs

theorem Node.wrapped?_deref {n : Node} {pointer : NodeId} (hk : n.kind = .unary .deref pointer) :
    n.wrapped? = none := by
  refine Option.eq_none_iff_forall_ne_some.2 fun operand hw => ?_
  rcases (Node.wrapped?_eq_some_iff.1 hw).2 with hk' | hk' <;> cases hk.symm.trans hk'

namespace Arena

variable {a b : Arena} {x y : NodeId → Prop} {n m : Node} {id op : NodeId} {k k' : NodeKind}

/-- A declaration or a constant. -/
def Leaf (a : Arena) (id : NodeId) : Prop :=
  ∃ n, a.find? id = some n ∧ (n.kind.isDecl || n.kind.isConstant) = true

/-- A node that is no location wrapper. -/
def Bare (a : Arena) (id : NodeId) : Prop := ∀ n, a.find? id = some n → n.wrapped? = none

/-- A location wrapper wraps a declaration or a constant, discarded operands are there, and a
dereference is not its own pointer. -/
structure Tidy (a : Arena) (id : NodeId) (n : Node) : Prop where
  wraps : ∀ operand, n.wrapped? = some operand → a.Leaf operand
  inRange : ∀ op ∈ n.kind.branches, (a.find? op).isSome = true
  ne_self : n.kind ≠ .unary .deref id

/-- All effect flags are exact, and all nodes are tidy. -/
structure WellFormed (a : Arena) : Prop where
  flagged : a.WellFlagged
  tidy : ∀ id n, a.find? id = some n → a.Tidy id n

instance (a : Arena) (id : NodeId) : Decidable (a.Leaf id) :=
  inferInstanceAs (Decidable (∃ n ∈ a.find? id, _))

instance (a : Arena) (id : NodeId) (n : Node) : Decidable (a.Tidy id n) :=
  decidable_of_iff ((∀ operand ∈ n.wrapped?, a.Leaf operand) ∧
    (∀ op ∈ n.kind.branches, (a.find? op).isSome = true) ∧ n.kind ≠ .unary .deref id)
    ⟨fun h => ⟨h.1, h.2.1, h.2.2⟩, fun h => ⟨h.wraps, h.inRange, h.ne_self⟩⟩

instance (a : Arena) : Decidable a.WellFormed :=
  decidable_of_iff (a.WellFlagged ∧ ∀ i : Fin a.nodes.size, a.Tidy ⟨i⟩ a.nodes[i])
    ⟨fun h => ⟨h.1, fun id n hn => by
      obtain ⟨hi, rfl⟩ := Array.getElem?_eq_some_iff.1 hn
      exact h.2 ⟨id.index, hi⟩⟩,
      fun h => ⟨h.flagged, fun i => h.tidy ⟨i⟩ _ (Array.getElem?_eq_getElem i.isLt)⟩⟩

/-- An operand that stays as it is when its value is discarded once more, up to location
wrappers. -/
inductive Settles (a : Arena) : NodeId → Prop
  | void : Settles a .void
  | wrapper {id operand : NodeId} {n : Node} (hn : a.find? id = some n)
    (hw : n.wrapped? = some operand) (h : Settles a operand) : Settles a id
  | valueless {id : NodeId} {n : Node} (hn : a.find? id = some n) (hw : n.wrapped? = none)
    (h : a.Valueless n) : Settles a id
  | effect {id : NodeId} {n : Node} (hn : a.find? id = some n) (hw : n.wrapped? = none)
    (he : n.flags.has .effect = true)
    (hd : ∀ pointer, n.kind = .unary .deref pointer → a.VolatileAccess n)
    (hb : ∀ op ∈ n.kind.branches, Settles a op) : Settles a id

/-- An expression that stays as it is when its value is discarded once more. -/
def Settled (a : Arena) (id : NodeId) : Prop := a.Bare id ∧ a.Settles id

/-! ### One level -/

/-- A node settles if its operands do where the predicate says so. -/
def SettlesBy (a : Arena) (x : NodeId → Prop) (id : NodeId) (n : Node) : Prop :=
  match n.wrapped? with
  | some operand => x operand
  | none => id = .void ∨ a.Valueless n ∨ n.flags.has .effect = true ∧
      (∀ pointer, n.kind = .unary .deref pointer → a.VolatileAccess n) ∧
      ∀ op ∈ n.kind.branches, x op

theorem settlesBy_wrapper {operand : NodeId} (hw : n.wrapped? = some operand) :
    a.SettlesBy x id n ↔ x operand := by
  unfold SettlesBy
  rw [hw]

theorem settlesBy_bare (hw : n.wrapped? = none) : a.SettlesBy x id n ↔
    id = .void ∨ a.Valueless n ∨ n.flags.has .effect = true ∧
      (∀ pointer, n.kind = .unary .deref pointer → a.VolatileAccess n) ∧
      ∀ op ∈ n.kind.branches, x op := by
  unfold SettlesBy
  rw [hw]

/-- A dereference settles if it is void or an access to a volatile object. -/
theorem settlesBy_deref {pointer : NodeId} (hk : n.kind = .unary .deref pointer)
    (hid : id ≠ .void) : a.SettlesBy x id n ↔
      a.Valueless n ∨ n.flags.has .effect = true ∧ a.VolatileAccess n := by
  rw [settlesBy_bare (Node.wrapped?_deref hk), hk]
  simp [hid, NodeKind.branches]

theorem WellFlagged.void_bare (h : a.WellFlagged) : a.Bare .void := by
  intro n hn
  obtain ⟨m, hm, hk⟩ := h.typed.void
  cases hn.symm.trans hm
  refine Option.eq_none_iff_forall_ne_some.2 fun operand hs => ?_
  rcases (Node.wrapped?_eq_some_iff.1 hs).2 with hk' | hk' <;> rw [hk] at hk' <;> cases hk'

theorem settles_iff (h : a.WellFlagged) (hn : a.find? id = some n) :
    a.Settles id ↔ a.SettlesBy a.Settles id n := by
  cases hw : n.wrapped? with
  | some operand =>
    rw [settlesBy_wrapper hw]
    refine ⟨fun hs => ?_, .wrapper hn hw⟩
    cases hs with
    | void => cases (h.void_bare n hn).symm.trans hw
    | wrapper hm hw' hs =>
      cases hn.symm.trans hm
      cases hw.symm.trans hw'
      exact hs
    | valueless hm hw' | effect hm hw' =>
      cases hn.symm.trans hm
      cases hw.symm.trans hw'
  | none =>
    rw [settlesBy_bare hw]
    constructor
    · intro hs
      cases hs with
      | void => exact .inl rfl
      | wrapper hm hw' =>
        cases hn.symm.trans hm
        cases hw.symm.trans hw'
      | valueless hm _ hs =>
        cases hn.symm.trans hm
        exact .inr (.inl hs)
      | effect hm _ he hd hb =>
        cases hn.symm.trans hm
        exact .inr (.inr ⟨he, hd, hb⟩)
    · rintro (rfl | hs | ⟨he, hd, hb⟩)
      · exact .void
      · exact .valueless hn hw hs
      · exact .effect hn hw he hd hb

/-! ### Changes around a node -/

theorem isExchangeable_of_leaf (hk : (k.isDecl || k.isConstant) = true) :
    k.isExchangeable = false := by
  cases k <;> first | rfl | cases hk

theorem Leaf.mono (hab : a.Evolves b) (h : a.Leaf id) : b.Leaf id := by
  obtain ⟨n, hn, hk⟩ := h
  obtain ⟨m, hm, hnm⟩ := hab.node id n hn
  exact ⟨m, hm, NodeKind.eq_of_skeleton hnm.skeleton_eq (isExchangeable_of_leaf hk) ▸ hk⟩

/-- No old node becomes a declaration or a constant. -/
theorem Leaf.of_evolves (hab : a.Evolves b) (hid : (a.find? id).isSome = true) (h : b.Leaf id) :
    a.Leaf id := by
  obtain ⟨m, hm, hk⟩ := h
  obtain ⟨n, hn⟩ := Option.isSome_iff_exists.1 hid
  obtain ⟨m', hm', hnm⟩ := hab.node id n hn
  cases hm.symm.trans hm'
  exact ⟨n, hn, NodeKind.eq_of_skeleton hnm.skeleton_eq.symm (isExchangeable_of_leaf hk) ▸ hk⟩

theorem Leaf.bare (h : a.Leaf id) : a.Bare id := by
  intro n hn
  obtain ⟨m, hm, hk⟩ := h
  cases hn.symm.trans hm
  refine Option.eq_none_iff_forall_ne_some.2 fun operand hs => ?_
  rcases (Node.wrapped?_eq_some_iff.1 hs).2 with hk' | hk' <;> rw [hk'] at hk <;> cases hk

theorem SameType.isSome {s r : NodeId} (h : a.SameType s r) (hs : (a.find? s).isSome = true) :
    (a.find? r).isSome = true := by
  rcases h with rfl | ⟨t, -, hr⟩
  · exact hs
  · obtain ⟨n, hn, -⟩ := map_eq_ok_iff.1 hr
    rw [node_eq_ok_iff.1 hn]
    rfl

theorem Tidy.congr (h : a.Tidy id n) (hk : m.kind = n.kind)
    (hw : m.flags.has .locationWrapper = n.flags.has .locationWrapper) : a.Tidy id m where
  wraps operand hm := h.wraps operand (wrapped?_congr hk hw ▸ hm)
  inRange := hk ▸ h.inRange
  ne_self := hk ▸ h.ne_self

theorem Tidy.mono (hab : a.Evolves b) (h : a.Tidy id n) : b.Tidy id n where
  wraps operand hw := (h.wraps operand hw).mono hab
  inRange op hop := hab.isSome (h.inRange op hop)
  ne_self := h.ne_self

theorem Tidy.rewritten {R : NodeId → NodeId → Prop} (hk : k.Rewritten R k')
    (hR : ∀ s r, R s r → a.SameType s r ∧ (a.Leaf s → a.Leaf r))
    (h : a.Tidy id { n with kind := k }) : a.Tidy id { n with kind := k' } where
  wraps operand' hw := by
    obtain ⟨operand, hw', hs⟩ := Node.wrapped?_rewritten hk hw
    exact (hR _ _ hs).2 (h.wraps operand hw')
  inRange op hop := by
    obtain ⟨i, hi, rfl⟩ := List.getElem_of_mem hop
    have hi' : i < k.branches.length := hk.branches.length_eq ▸ hi
    exact (hR _ _ (hk.branches.get hi' hi)).1.isSome (h.inRange _ (List.getElem_mem hi'))
  ne_self := hk.ne_deref id

/-- Whether a dereference is an access to a volatile object does not change. -/
theorem volatileAccess_evolve (hab : a.Evolves b) (hn : a.Exact n) :
    a.VolatileAccess n ↔ b.VolatileAccess n := by
  constructor
  · rintro ⟨hk, t, ht, hv⟩
    exact ⟨hk, t, ht, hab.isVolatile hv⟩
  · rintro ⟨hk, t, ht, hv⟩
    obtain ⟨f, hf, -⟩ := hn
    obtain ⟨v, _, hacc, -⟩ := derivedFlags_eq_ok_iff.1 hf
    have hv' : a.isVolatile t = .ok v := by
      unfold accessesVolatile at hacc
      rw [ht, hk] at hacc
      exact hacc
    cases (hab.isVolatile hv').symm.trans hv
    exact ⟨hk, t, ht, hv'⟩

theorem settlesBy_congr (hk : m.kind = n.kind) (ht : m.type = n.type)
    (he : m.flags.has .effect = n.flags.has .effect)
    (hw : m.flags.has .locationWrapper = n.flags.has .locationWrapper) :
    a.SettlesBy x id m ↔ a.SettlesBy x id n := by
  unfold SettlesBy Valueless VolatileAccess
  rw [wrapped?_congr hk hw, hk, ht, he]

theorem settlesBy_evolve (hab : a.Evolves b) (hn : a.Exact n)
    (hwrap : ∀ operand, n.wrapped? = some operand → (x operand ↔ y operand))
    (hbranch : ∀ op ∈ n.kind.branches, (x op ↔ y op)) :
    a.SettlesBy x id n ↔ b.SettlesBy y id n := by
  cases hw : n.wrapped? with
  | some operand =>
    rw [settlesBy_wrapper hw, settlesBy_wrapper hw]
    exact hwrap operand hw
  | none =>
    rw [settlesBy_bare hw, settlesBy_bare hw, valueless_evolve hab, volatileAccess_evolve hab hn]
    have hall : (∀ op ∈ n.kind.branches, x op) ↔ ∀ op ∈ n.kind.branches, y op :=
      forall₂_congr hbranch
    rw [hall]

theorem forall_mem_iff {R : NodeId → NodeId → Prop} {ops ops' : List NodeId}
    (h : List.Forall₂ R ops ops') (hR : ∀ s r, R s r → (x s ↔ x r)) :
    (∀ op ∈ ops, x op) ↔ ∀ op ∈ ops', x op := by
  induction h with
  | nil => simp
  | cons hs _ ih => rw [List.forall_mem_cons, List.forall_mem_cons, ih, hR _ _ hs]

/-- A node settles as before where operands are exchanged for others that settle as they do. -/
theorem settlesBy_rewritten {R : NodeId → NodeId → Prop} (hk : k.Rewritten R k')
    (hR : ∀ s r, R s r → (x s ↔ x r)) :
    a.SettlesBy x id { n with kind := k } ↔ a.SettlesBy x id { n with kind := k' } := by
  cases hw : Node.wrapped? { n with kind := k' } with
  | some operand' =>
    obtain ⟨operand, hw', hs⟩ := Node.wrapped?_rewritten hk hw
    rw [settlesBy_wrapper hw, settlesBy_wrapper hw']
    exact hR _ _ hs
  | none =>
    rw [settlesBy_bare hw, settlesBy_bare (Node.wrapped?_rewritten_eq_none hk hw)]
    have hall := forall_mem_iff hk.branches hR
    -- a dereference is not exchanged for another
    have hderef : ∀ P : Prop, (∀ pointer, k = .unary .deref pointer → P) ↔
        ∀ pointer, k' = .unary .deref pointer → P := fun P =>
      ⟨fun _ pointer h => absurd h (hk.ne_deref pointer),
        fun _ pointer h => absurd h (hk.source_ne_deref pointer)⟩
    have hvol : a.VolatileAccess { n with kind := k } ↔ a.VolatileAccess { n with kind := k' } := by
      unfold VolatileAccess
      simp only [hk.class_eq.1]
    show id = .void ∨ a.Valueless n ∨ _ ∧ (∀ pointer, k = _ → _) ∧ (∀ op ∈ k.branches, x op) ↔
      id = .void ∨ a.Valueless n ∨ _ ∧ (∀ pointer, k' = _ → _) ∧ ∀ op ∈ k'.branches, x op
    rw [hall, hderef, hvol]

end Arena

end ExprTree
