import ExprTree.Proofs.ExactEffects
import ExprTree.Arena.Offset

/-!
# Consistent arenas

An arena is consistent when its nodes have the types and the effect flags that their operands give
them and when these types are in the arena.  The first arena is consistent, and so is every arena
that a builder makes of a consistent one, if its operands and types are in range.

* `Arena.Consistent` — the invariant.
* `Arena.Admits` — what a builder may be handed.
* `Arena.Revises` — a node with other data.
* `Arena.Consistent.append`, `Arena.Consistent.change`, `Arena.Consistent.of_nodes_eq` — the three
  ways in which builders change an arena.
-/

namespace ExprTree

/-- A kind without operands with other data. -/
inductive NodeKind.Updated : NodeKind → NodeKind → Prop
  | refl (k : NodeKind) : Updated k k
  | record {name memberFunction : Option NodeId} {size size' : Option Nat} :
    Updated (recordType name size memberFunction) (recordType name size' memberFunction)
  | decl {sort : DeclSort} {payload payload' : Decl} :
    Updated (decl sort payload) (decl sort payload')

/-- The types that a node of a kind and a type names as such: its own and the one it refers to. -/
def NodeKind.namedTypes (kind : NodeKind) (type : Option NodeId) : List NodeId :=
  type.toList ++ match kind with
    | .referenceType referent => [referent]
    | _ => []

theorem NodeKind.mem_namedTypes {kind : NodeKind} {type : Option NodeId} {t : NodeId} :
    t ∈ kind.namedTypes type ↔ type = some t ∨ kind = .referenceType t := by
  unfold NodeKind.namedTypes
  rw [List.mem_append, Option.mem_toList]
  cases kind with
  | referenceType referent => simp [eq_comm]
  | _ => simp

/-- A node that is no reference type names its own type only. -/
theorem NodeKind.forall_namedTypes {P : NodeId → Prop} {kind : NodeKind} {type : Option NodeId}
    (hk : ∀ t, kind ≠ .referenceType t) (h : ∀ t, type = some t → P t) :
    ∀ t ∈ kind.namedTypes type, P t :=
  fun t ht => (mem_namedTypes.1 ht).elim (h t) fun e => absurd e (hk t)

theorem NodeKind.forall_namedTypes_some {P : NodeId → Prop} {kind : NodeKind} {type : NodeId}
    (hk : ∀ t, kind ≠ .referenceType t) (h : P type) : ∀ t ∈ kind.namedTypes (some type), P t :=
  forall_namedTypes hk fun _ e => Option.some.inj e ▸ h

namespace NodeKind.Updated

variable {k k' : NodeKind}

theorem referenceType {target : NodeId} (h : k.Updated k') (hk : k' = .referenceType target) :
    k = .referenceType target := by
  cases h with
  | refl => exact hk
  | _ => cases hk

theorem voidConst (h : k.Updated k') (hk : k = .voidConst) : k' = .voidConst := by
  cases h with
  | refl => exact hk
  | _ => cases hk

theorem typed {a : Arena} {n m : Node} (h : n.kind.Updated m.kind) (ht : m.type = n.type)
    (hf : m.flags.has .locationWrapper = n.flags.has .locationWrapper) (hn : a.Typed n) :
    a.Typed m := by
  generalize hk : n.kind = k at h
  generalize hk' : m.kind = k' at h
  cases h with
  | refl => exact hn.congr (hk'.trans hk.symm) ht hf
  | _ =>
    refine ⟨fun pointer target hm => ?_, fun operand hw => ?_⟩
    · cases hk'.symm.trans hm
    · rcases (Node.wrapped?_eq_some_iff.1 hw).2 with hm | hm <;> cases hk'.symm.trans hm

theorem derivedFlags {a : Arena} {n : Node} (h : k.Updated k') :
    a.derivedFlags { n with kind := k' } = a.derivedFlags { n with kind := k } := by
  cases h with
  | refl => rfl
  | record => exact Arena.derivedFlags_exchanged rfl rfl rfl rfl rfl .nil
  | @decl sort => cases sort <;> exact Arena.derivedFlags_exchanged rfl rfl rfl rfl rfl .nil

theorem exact {a : Arena} {n m : Node} (h : n.kind.Updated m.kind) (ht : m.type = n.type)
    (hf : m.flags.has .effect = n.flags.has .effect) (hn : a.Exact n) : a.Exact m := by
  obtain ⟨f, hf', he⟩ := hn
  have hm : a.derivedFlags m = a.derivedFlags { n with kind := m.kind } :=
    Arena.derivedFlags_congr rfl ht
  exact ⟨f, (hm.trans h.derivedFlags).trans hf', he.trans hf.symm⟩

end NodeKind.Updated

namespace Arena

variable {a b : Arena} {n m : Node} {kind : NodeKind} {type : Option NodeId} {span : Span}
  {id : NodeId}

/-- Types and effect flags follow from operands, and the types are there. -/
structure Consistent (a : Arena) : Prop where
  flagged : a.WellFlagged
  type_mem : ∀ id n, a.find? id = some n → ∀ t ∈ n.kind.namedTypes n.type,
    (a.find? t).isSome = true
  sizeType : (a.find? .sizeType).isSome = true

/-- A node of this kind and type can be built: operands and type are there, and a dereference of
a reference has the type referred to. -/
structure Admits (a : Arena) (kind : NodeKind) (type : Option NodeId) : Prop where
  inRange : a.InRange kind
  type_mem : ∀ t ∈ kind.namedTypes type, (a.find? t).isSome = true
  deref : ∀ pointer target, kind = .unary .deref pointer → a.referent? pointer = some target →
    type = some target

instance (a : Arena) : Decidable a.Consistent :=
  decidable_of_iff
    (a.WellFlagged ∧
      (∀ n ∈ a.nodes.toList, ∀ t ∈ n.kind.namedTypes n.type, (a.find? t).isSome = true) ∧
      (a.find? .sizeType).isSome = true)
    ⟨fun h => ⟨h.1, forall_find?_iff.2 h.2.1, h.2.2⟩,
      fun h => ⟨h.flagged, forall_find?_iff.1 h.type_mem, h.sizeType⟩⟩

theorem initial_consistent : initial.Consistent := by
  decide +kernel

/-! ### Derived flags of nodes in range -/

theorem anyM_isOk {p : NodeId → Except Fault Bool} {ids : List NodeId}
    (h : ∀ id ∈ ids, ∃ r, p id = .ok r) : ∃ r, ids.anyM p = .ok r := by
  induction ids with
  | nil => exact ⟨false, rfl⟩
  | cons id ids ih =>
    obtain ⟨r, hr⟩ := h id (by simp)
    obtain ⟨s, hs⟩ := ih fun id hid => h id (by simp [hid])
    rw [List.anyM, hr]
    cases r with
    | true => exact ⟨true, rfl⟩
    | false => exact ⟨s, hs⟩

theorem hasFlag_isOk {g : Flag} (h : (a.find? id).isSome = true) : ∃ r, a.hasFlag id g = .ok r := by
  obtain ⟨n, hn⟩ := Option.isSome_iff_exists.1 h
  exact ⟨_, hasFlag_eq_ok_iff.2 ⟨n, hn, rfl⟩⟩

/-- A node whose operands and type are in range has derived flags. -/
theorem derivedFlags_isOk (hops : a.InRange n.kind)
    (ht : ∀ t, n.type = some t → (a.find? t).isSome = true) : ∃ f, a.derivedFlags n = .ok f := by
  have hv : ∃ v, a.accessesVolatile n = .ok v := by
    unfold accessesVolatile
    split
    · rename_i t htype
      split
      · exact hasFlag_isOk (ht t htype)
      · exact ⟨false, rfl⟩
    · exact ⟨false, rfl⟩
  have hi : ∃ i, a.inheritsEffect n = .ok i := by
    unfold inheritsEffect
    split
    · exact ⟨false, rfl⟩
    · obtain ⟨ops, hhandles, hmem⟩ := hops
      obtain ⟨i, hi⟩ := anyM_isOk (p := a.hasEffect) fun op hop => hasFlag_isOk (hmem op hop)
      exact ⟨i, bind_eq_ok_iff.2 ⟨ops, hhandles, hi⟩⟩
  obtain ⟨v, hv⟩ := hv
  obtain ⟨i, hi⟩ := hi
  exact ⟨_, derivedFlags_eq_ok_iff.2 ⟨v, i, hv, hi, rfl⟩⟩

/-- The operands of a node with derived flags have an answer, evaluated or not. -/
theorem handles_isOk {f : NodeFlags} (h : a.derivedFlags n = .ok f) :
    ∃ ops, a.handles n.kind.operands = .ok ops := by
  obtain ⟨_, _, -, hi, -⟩ := derivedFlags_eq_ok_iff.1 h
  unfold inheritsEffect at hi
  split at hi
  · rename_i hk
    have hops : n.kind.operands = (n.kind.operands.1, .empty) := by
      revert hk
      cases n.kind with
      | call | constructor | vector | foreign => nofun
      | _ => exact fun _ => rfl
    exact ⟨_, hops ▸ handles_empty _⟩
  · obtain ⟨ops, hops, -⟩ := bind_eq_ok_iff.1 hi
    exact ⟨ops, hops⟩

/-! ### The three changes -/

/-- It is enough to look at nodes that are new or changed. -/
theorem Consistent.of_agree (h : a.Consistent) (ht : a.TypesAgree b) (he : a.EffectsAgree b)
    (hsome : ∀ id, (a.find? id).isSome = true → (b.find? id).isSome = true)
    (hvoid : ∃ n, b.find? .void = some n ∧ n.kind = .voidConst)
    (hnode : ∀ id m, b.find? id = some m → a.find? id = some m ∨
      (b.Typed m ∧ b.Exact m) ∧ ∀ t ∈ m.kind.namedTypes m.type, (b.find? t).isSome = true) :
    b.Consistent where
  flagged := h.flagged.of_agree ht he hvoid fun id m hm => (hnode id m hm).imp_right And.left
  type_mem id m hm t hmt := by
    rcases hnode id m hm with hold | ⟨-, hnew⟩
    · exact hsome t (h.type_mem id m hold t hmt)
    · exact hnew t hmt
  sizeType := hsome _ h.sizeType

theorem Consistent.typesAgree_append (h : a.Consistent) : a.TypesAgree (a.append m) where
  typeOf expr t ht := by
    obtain ⟨n, hn, rfl⟩ := map_eq_ok_iff.1 ht
    rw [node_eq_ok_iff] at hn
    exact map_eq_ok_iff.2 ⟨n, node_eq_ok_iff.2 (find?_append_of_some hn), rfl⟩
  of_referent? expr target hexpr hr := by
    obtain ⟨n, hn⟩ := Option.isSome_iff_exists.1 hexpr
    obtain ⟨n', t, k, hn', ht, hk, hkind⟩ := referent?_eq_some_iff.1 hr
    cases hn'.symm.trans (find?_append_of_some hn)
    obtain ⟨k', hk'⟩ := Option.isSome_iff_exists.1
      (h.type_mem expr n hn t (NodeKind.mem_namedTypes.2 (.inl ht)))
    cases hk.symm.trans (find?_append_of_some hk')
    exact referent?_eq_some_iff.2 ⟨n, t, k, hn, ht, hk', hkind⟩

/-- Appending a node with the type and the effect flag that its operands give it. -/
theorem Consistent.append (h : a.Consistent) (htyped : a.Typed m) (hexact : a.Exact m)
    (hmem : ∀ t ∈ m.kind.namedTypes m.type, (a.find? t).isSome = true) :
    (a.append m).Consistent := by
  obtain ⟨v, hv, hk⟩ := h.flagged.typed.void
  refine h.of_agree h.typesAgree_append effectsAgree_append (fun _ => find?_isSome_append)
    ⟨v, find?_append_of_some hv, hk⟩ fun id n hn => ?_
  rcases find?_append_cases hn with ⟨-, rfl⟩ | hn
  · exact .inr ⟨⟨htyped.mono h.typesAgree_append fun _ hk => hexact.isSome_pointer hk,
      hexact.mono effectsAgree_append⟩, fun t ht => find?_isSome_append (hmem t ht)⟩
  · exact .inl hn

/-- Changing what is no node. -/
theorem Consistent.of_find?_eq (h : a.Consistent) (hfind : ∀ id, b.find? id = a.find? id)
    (hh : ∀ parts ops, a.handles parts = .ok ops → b.handles parts = .ok ops) : b.Consistent := by
  have hnode : ∀ id, b.node id = a.node id := fun id => by
    unfold node
    rw [hfind]
  refine h.of_agree ⟨fun expr t ht => ?_, fun expr target _ hr => ?_⟩
    ⟨hh, fun type r hr => ?_, fun id r hr => ?_⟩ (fun id hid => ?_) ?_ fun id m hm => ?_
  · rwa [typeOf, hnode]
  · simpa only [referent?, hfind] using hr
  · rwa [isVolatile, hasFlag, hnode]
  · rwa [hasEffect, hasFlag, hnode]
  · rwa [hfind]
  · simpa only [hfind] using h.flagged.typed.void
  · exact .inl (hfind id ▸ hm)

/-- A node with its type and its flags, up to what is known of its address, and other data. -/
structure Revises (n m : Node) : Prop where
  type_eq : m.type = n.type
  has_eq : ∀ g, g ≠ .addressable → m.flags.has g = n.flags.has g
  updated : n.kind.Updated m.kind

theorem Revises.refl (n : Node) : Revises n n := ⟨rfl, fun _ _ => rfl, .refl _⟩

theorem Revises.typed (h : Revises n m) (hn : a.Typed n) : a.Typed m :=
  h.updated.typed h.type_eq (h.has_eq _ (by decide)) hn

theorem Revises.exact (h : Revises n m) (hn : a.Exact n) : a.Exact m :=
  h.updated.exact h.type_eq (h.has_eq _ (by decide)) hn

/-- A revised node names no other types. -/
theorem Revises.mem_namedTypes (h : Revises n m) {t : NodeId} (ht : t ∈ m.kind.namedTypes m.type) :
    t ∈ n.kind.namedTypes n.type := by
  rw [NodeKind.mem_namedTypes] at ht ⊢
  exact ht.imp (fun ht => by rw [← h.type_eq, ht]) h.updated.referenceType

/-- What is there after a node has been revised was there before, as it is or revised. -/
theorem exists_revised {f : Node → Node} (hn : a.find? id = some n) (hf : Revises n (f n))
    {other : NodeId} (hm : (a.change id f).find? other = some m) :
    ∃ n', a.find? other = some n' ∧ Revises n' m := by
  rcases find?_change_cases hn hm with ⟨rfl, rfl⟩ | hm
  · exact ⟨n, hn, hf⟩
  · exact ⟨m, hm, .refl m⟩

/-- Revising a node changes no type. -/
theorem typesAgree_change {f : Node → Node} (hn : a.find? id = some n) (hf : Revises n (f n)) :
    a.TypesAgree (a.change id f) where
  typeOf expr t ht := by
    obtain ⟨n', hn', rfl⟩ := map_eq_ok_iff.1 ht
    obtain ⟨m, hm, h⟩ := exists_find?_change hn hf .refl expr n' (node_eq_ok_iff.1 hn')
    exact map_eq_ok_iff.2 ⟨m, node_eq_ok_iff.2 hm, h.type_eq⟩
  of_referent? expr target _ hr := by
    obtain ⟨m, t, k, hm, hmt, hk, hkind⟩ := referent?_eq_some_iff.1 hr
    obtain ⟨m', hm', h⟩ := exists_revised hn hf hm
    obtain ⟨k', hk', hup⟩ := exists_revised hn hf hk
    exact referent?_eq_some_iff.2
      ⟨m', t, k', hm', by rw [← h.type_eq, hmt], hk', hup.updated.referenceType hkind⟩

/-- Changing a node to other data, with its type and all flags but what is known of its address. -/
theorem Consistent.change {f : Node → Node} (h : a.Consistent) (hn : a.find? id = some n)
    (hflags : ∀ m g, g ≠ .addressable → (f m).flags.has g = m.flags.has g)
    (ht : (f n).type = n.type)
    (hk : n.kind.Updated (f n).kind) : (a.change id f).Consistent := by
  have hf : Revises n (f n) := ⟨ht, hflags n, hk⟩
  have hsome : ∀ other, (a.find? other).isSome = true →
      ((a.change id f).find? other).isSome = true := fun _ => find?_isSome_change
  have htypes : a.TypesAgree (a.change id f) := typesAgree_change hn hf
  have heffects : a.EffectsAgree (a.change id f) :=
    ⟨handles_of_lists_eq rfl,
      fun type r hr => (hasFlag_change (fun m => hflags m _ (by decide)) type).trans hr,
      fun id r hr => (hasFlag_change (fun m => hflags m _ (by decide)) id).trans hr⟩
  obtain ⟨v, hv, hvk⟩ := h.flagged.typed.void
  obtain ⟨w, hw, hvw⟩ := exists_find?_change hn hf .refl _ v hv
  refine h.of_agree htypes heffects hsome ⟨w, hw, hvw.updated.voidConst hvk⟩
    fun other m hm => .inr ?_
  obtain ⟨n', hn', hrev⟩ := exists_revised hn hf hm
  have htyped : a.Typed m := hrev.typed (h.flagged.typed.node other n' hn')
  have hexact : a.Exact m := hrev.exact (h.flagged.exact other n' hn')
  exact ⟨⟨htyped.mono htypes fun _ hk => hexact.isSome_pointer hk, hexact.mono heffects⟩,
    fun t hmt => hsome t (h.type_mem other n' hn' t (hrev.mem_namedTypes hmt))⟩

/-! ### Builders -/

/-- A consistent arena with a new node, and with all nodes that were there. -/
structure Builds (a : Arena) (r : NodeId) (b : Arena) : Prop where
  consistent : b.Consistent
  mem : (b.find? r).isSome = true
  kept : ∀ id, (a.find? id).isSome = true → (b.find? id).isSome = true

theorem Builds.trans {c : Arena} {s r : NodeId} (h : a.Builds s b) (h' : b.Builds r c) :
    a.Builds r c :=
  ⟨h'.consistent, h'.mem, fun id hid => h'.kept id (h.kept id hid)⟩

theorem Builds.self (h : a.Consistent) (hid : (a.find? id).isSome = true) : a.Builds id a :=
  ⟨h, hid, fun _ h => h⟩

theorem append_builds (h : a.Consistent) (htyped : a.Typed m) (hexact : a.Exact m)
    (hmem : ∀ t ∈ m.kind.namedTypes m.type, (a.find? t).isSome = true) :
    a.Builds ⟨a.size⟩ (a.append m) :=
  ⟨h.append htyped hexact hmem, by rw [find?_append_new]; rfl, fun _ => find?_isSome_append⟩

theorem inRange_of_operands {ops : List NodeId} (h : kind.operands = (ops, .empty))
    (hmem : ∀ op ∈ ops, (a.find? op).isSome = true) : a.InRange kind := by
  exact ⟨ops, h ▸ handles_empty ops, hmem⟩

theorem Admits.typed {flags : NodeFlags} (h : a.Admits kind type)
    (hw : flags.has .locationWrapper = false) : a.Typed ⟨kind, type, flags, span⟩ where
  deref := h.deref
  wrapper operand hwrap := by
    rw [(Node.wrapped?_eq_some_iff.1 hwrap).1] at hw
    cases hw

/-- A node without flags can be appended where nothing gives it an effect. -/
theorem alloc_builds (h : a.Consistent) (hadm : a.Admits kind type)
    (hexact : a.Exact ⟨kind, type, .empty, span⟩) :
    a.Builds (a.alloc kind type span).1 (a.alloc kind type span).2 :=
  append_builds h (hadm.typed (NodeFlags.has_empty _)) hexact hadm.type_mem

theorem build_builds (h : a.Consistent) (hadm : a.Admits kind type) :
    Action.wlp (build kind type span) a.Builds a := by
  refine wlp_build fun flags hflags => ?_
  obtain ⟨f, hf⟩ := derivedFlags_isOk (n := ⟨kind, type, .empty, span⟩) hadm.inRange
    fun t ht => hadm.type_mem t (NodeKind.mem_namedTypes.2 (.inl ht))
  have heq : flags = f := derivedFlags_of_append hf hflags
  have hw : flags.has .locationWrapper = false :=
    Bool.eq_false_iff.2 fun hw => absurd (flag_of_has_derivedFlags hflags hw) (by decide)
  refine append_builds h (hadm.typed hw) ⟨f, ?_, by rw [heq]⟩ hadm.type_mem
  exact (derivedFlags_congr rfl rfl).trans hf

/-- The type comes from a node, which is one of the operands or another node. -/
theorem buildLike_builds {ops : List NodeId} {other : NodeId} (h : a.Consistent)
    (hops : kind.operands = (ops, .empty))
    (hmem : ∀ op ∈ ops, op = other ∨ (a.find? op).isSome = true)
    (hk : ∀ pointer, kind ≠ .unary .deref pointer) (href : ∀ t, kind ≠ .referenceType t) :
    Action.wlp (buildLike other kind span) a.Builds a := by
  refine wlp_buildLike fun n hn => ?_
  have hother : (a.find? other).isSome = true := by
    rw [hn]
    rfl
  refine build_builds h ⟨inRange_of_operands hops fun op hop => ?_,
    NodeKind.forall_namedTypes href fun t ht => ?_, fun pointer _ hp _ => absurd hp (hk pointer)⟩
  · exact (hmem op hop).elim (fun e => e ▸ hother) fun h => h
  · exact h.type_mem other n hn t (NodeKind.mem_namedTypes.2 (.inl ht))

/-! ### Types and constants -/

/-- Types and constants have no operands and no effect. -/
theorem inert_of_isType (hk : (kind.isType || kind.isConstant) = true) :
    kind.operands = ([], .empty) ∧ kind.hasOwnEffect = false ∧ kind.accessesObject = false := by
  cases kind with
  | unary | arrayRef | componentRef | decl | modify | call | coAwait | coReturn => cases hk
  | _ => first | exact ⟨rfl, rfl, rfl⟩ | cases hk

theorem derivedFlags_of_inert (hops : n.kind.operands = ([], .empty))
    (hown : n.kind.hasOwnEffect = false) (hacc : n.kind.accessesObject = false) :
    a.derivedFlags n = .ok .empty := by
  have hi : a.inheritsEffect n = .ok false := by
    unfold inheritsEffect
    rw [hops]
    split <;> rfl
  exact derivedFlags_eq_ok_iff.2 ⟨_, _, accessesVolatile_eq_false hacc, hi, by rw [hown]; rfl⟩

theorem exact_of_inert (hops : n.kind.operands = ([], .empty)) (hown : n.kind.hasOwnEffect = false)
    (hacc : n.kind.accessesObject = false) (he : n.flags.has .effect = false) : a.Exact n :=
  ⟨.empty, derivedFlags_of_inert hops hown hacc, he.symm⟩

theorem admits_of_operands (hops : kind.operands = ([], .empty))
    (ht : ∀ t ∈ kind.namedTypes type, (a.find? t).isSome = true) : a.Admits kind type where
  inRange := inRange_of_operands hops nofun
  type_mem := ht
  deref pointer target hk _ := by
    rw [hk] at hops
    cases hops

theorem alloc_builds_inert (h : a.Consistent) (hk : (kind.isType || kind.isConstant) = true)
    (ht : ∀ t ∈ kind.namedTypes type, (a.find? t).isSome = true) :
    a.Builds (a.alloc kind type span).1 (a.alloc kind type span).2 := by
  obtain ⟨hops, hown, hacc⟩ := inert_of_isType hk
  exact alloc_builds h (admits_of_operands hops ht)
    (exact_of_inert hops hown hacc (NodeFlags.has_empty _))

end Arena

end ExprTree
