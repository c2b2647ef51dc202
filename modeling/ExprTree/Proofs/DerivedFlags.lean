import ExprTree.Proofs.Evolution

/-!
# Flags that follow from operands

What the flags of a built node say about its kind, its type and its operands, and when they stay
the same while the arena around the node changes.

* `Arena.VolatileAccess`, `Arena.InheritsEffect` — the sources of an effect beside the kind itself.
* `Arena.InRange` — all operands are there.
* `Arena.has_effect_derivedFlags` — a derived effect is one of the kind, of the access, or of an
  evaluated operand.
* `Arena.derivedFlags_mono` — derived flags depend on the operand lists, the volatile types and the
  effects of operands alone.
* `Pass.wlp_rebuild`, `Arena.wlp_build` — the two operations that derive flags.
-/

namespace ExprTree

namespace Arena

variable {a b : Arena} {n : Node} {f : NodeFlags}

/-- A node accesses an object of volatile type. -/
def VolatileAccess (a : Arena) (n : Node) : Prop :=
  n.kind.accessesObject = true ∧ ∃ t, n.type = some t ∧ a.isVolatile t = .ok true

/-- An evaluated operand of a node has an effect. -/
def InheritsEffect (a : Arena) (n : Node) : Prop :=
  n.kind.isUnevaluated = false ∧
    ∃ ops, a.handles n.kind.operands = .ok ops ∧ ∃ op ∈ ops, a.hasEffect op = .ok true

/-- The operands of a kind are nodes of the arena. -/
def InRange (a : Arena) (kind : NodeKind) : Prop :=
  ∃ ops, a.handles kind.operands = .ok ops ∧ ∀ op ∈ ops, (a.find? op).isSome = true

instance (a : Arena) (kind : NodeKind) : Decidable (a.InRange kind) :=
  match h : a.handles kind.operands with
  | .ok ops => decidable_of_iff (∀ op ∈ ops, (a.find? op).isSome = true)
    ⟨fun hall => ⟨ops, h, hall⟩, fun ⟨_, h', hall⟩ => by cases h.symm.trans h'; exact hall⟩
  | .error _ => isFalse fun ⟨_, h', _⟩ => by cases h.symm.trans h'

/-! ### Questions with an answer -/

theorem bind_eq_ok_iff {ε α β : Type} {x : Except ε α} {g : α → Except ε β} {r : β} :
    (x >>= g) = .ok r ↔ ∃ y, x = .ok y ∧ g y = .ok r := by
  cases x with
  | error e => exact ⟨nofun, fun ⟨_, h, _⟩ => nomatch h⟩
  | ok y =>
    constructor
    · intro h
      exact ⟨y, rfl, h⟩
    · rintro ⟨_, ⟨⟩, h⟩
      exact h

theorem map_eq_ok_iff {ε α β : Type} {x : Except ε α} {g : α → β} {r : β} :
    x.map g = .ok r ↔ ∃ y, x = .ok y ∧ g y = r := by
  cases x with
  | error e => exact ⟨nofun, fun ⟨_, h, _⟩ => nomatch h⟩
  | ok y => simp [Except.map]

theorem hasFlag_eq_ok_iff {id : NodeId} {g : Flag} {r : Bool} :
    a.hasFlag id g = .ok r ↔ ∃ n, a.find? id = some n ∧ n.flags.has g = r := by
  simp only [hasFlag, map_eq_ok_iff, node_eq_ok_iff]

theorem hasEffect_eq_ok_iff {id : NodeId} {r : Bool} :
    a.hasEffect id = .ok r ↔ ∃ n, a.find? id = some n ∧ n.flags.has .effect = r :=
  hasFlag_eq_ok_iff

theorem anyM_eq_true {p : NodeId → Except Fault Bool} {ids : List NodeId}
    (h : ids.anyM p = .ok true) : ∃ id ∈ ids, p id = .ok true := by
  induction ids with
  | nil => cases h
  | cons id ids ih =>
    rw [List.anyM, bind_eq_ok_iff] at h
    obtain ⟨r, hr, h⟩ := h
    cases r with
    | true => exact ⟨id, by simp, hr⟩
    | false =>
      obtain ⟨id', hid, h'⟩ := ih h
      exact ⟨id', by simp [hid], h'⟩

theorem anyM_eq_false {p : NodeId → Except Fault Bool} {ids : List NodeId}
    (h : ids.anyM p = .ok false) : ∀ id ∈ ids, p id = .ok false := by
  induction ids with
  | nil => simp
  | cons id ids ih =>
    rw [List.anyM, bind_eq_ok_iff] at h
    obtain ⟨r, hr, h⟩ := h
    cases r with
    | true => cases h
    | false => simpa [hr] using ih h

theorem anyM_mono {p q : NodeId → Except Fault Bool} {ids : List NodeId} {r : Bool}
    (hpq : ∀ id ∈ ids, ∀ r, p id = .ok r → q id = .ok r) (h : ids.anyM p = .ok r) :
    ids.anyM q = .ok r := by
  induction ids with
  | nil => exact h
  | cons id ids ih =>
    rw [List.anyM, bind_eq_ok_iff] at h ⊢
    obtain ⟨s, hs, h⟩ := h
    refine ⟨s, hpq id (by simp) s hs, ?_⟩
    cases s with
    | true => exact h
    | false => exact ih (fun id hid => hpq id (by simp [hid])) h

theorem anyM_congr {p : NodeId → Except Fault Bool} {ids ids' : List NodeId}
    (h : List.Forall₂ (fun id id' => p id' = p id) ids ids') : ids'.anyM p = ids.anyM p := by
  induction h with
  | nil => rfl
  | cons h _ ih => simp only [List.anyM, h, ih]

theorem anyM_singleton {p : NodeId → Except Fault Bool} {id : NodeId} :
    [id].anyM p = p id := by
  simp only [List.anyM]
  cases h : p id with
  | error e => rfl
  | ok r => cases r <;> rfl

/-! ### Derived flags -/

/-- The flags of a node that accesses a volatile object or not, and has an effect or not. -/
def effectFlags (volatile effect : Bool) : NodeFlags :=
  let flags := if effect then .single .effect else .empty
  if volatile then flags.union (.single .volatileAccess) else flags

theorem derivedFlags_eq_ok_iff :
    a.derivedFlags n = .ok f ↔ ∃ v i, a.accessesVolatile n = .ok v ∧ a.inheritsEffect n = .ok i ∧
      effectFlags v (n.kind.hasOwnEffect || v || i) = f := by
  unfold derivedFlags
  simp only [bind_eq_ok_iff]
  constructor
  · rintro ⟨v, hv, i, hi, h⟩
    exact ⟨v, i, hv, hi, by cases h; rfl⟩
  · rintro ⟨v, i, hv, hi, rfl⟩
    exact ⟨v, hv, i, hi, rfl⟩

@[simp] theorem has_effect_effectFlags {v e : Bool} : (effectFlags v e).has .effect = e := by
  cases v <;> cases e <;> rfl

theorem has_effectFlags {v e : Bool} {g : Flag} (h : (effectFlags v e).has g = true) :
    g = .effect ∨ g = .volatileAccess := by
  revert h
  cases v <;> cases e <;> cases g <;> simp [effectFlags]

theorem accessesVolatile_eq_true (h : a.accessesVolatile n = .ok true) : a.VolatileAccess n := by
  unfold accessesVolatile at h
  split at h
  · rename_i t ht
    split at h
    · exact ⟨‹_›, t, ht, h⟩
    · cases h
  · cases h

theorem not_volatileAccess (h : a.accessesVolatile n = .ok false) : ¬ a.VolatileAccess n := by
  rintro ⟨hk, t, ht, hv⟩
  rw [accessesVolatile, ht] at h
  simp only [hk, ↓reduceIte, hv] at h
  cases h

theorem inheritsEffect_eq_true (h : a.inheritsEffect n = .ok true) : a.InheritsEffect n := by
  unfold inheritsEffect at h
  split at h
  · cases h
  · rename_i hk
    obtain ⟨ops, hops, h⟩ := bind_eq_ok_iff.1 h
    exact ⟨Bool.eq_false_iff.2 hk, ops, hops, anyM_eq_true h⟩

theorem not_inheritsEffect (h : a.inheritsEffect n = .ok false) : ¬ a.InheritsEffect n := by
  rintro ⟨hk, ops, hops, op, hop, he⟩
  simp only [inheritsEffect, hk, Bool.false_eq_true, ↓reduceIte] at h
  obtain ⟨ops', hops', h⟩ := bind_eq_ok_iff.1 h
  rw [hops] at hops'
  cases hops'
  rw [anyM_eq_false h op hop] at he
  cases he

theorem handles_empty (ops : List NodeId) : a.handles (ops, .empty) = .ok ops := by
  show Except.ok (ops ++ []) = _
  rw [List.append_nil]

/-- Where all operands are single handles, these are asked. -/
theorem inheritsEffect_eq {ops : List NodeId} (hk : n.kind.isUnevaluated = false)
    (hops : n.kind.operands = (ops, .empty)) : a.inheritsEffect n = ops.anyM a.hasEffect := by
  rw [inheritsEffect, hk, hops, handles_empty]
  rfl

/-- An evaluated operator with one operand has the effect of the operand, and that of the access. -/
theorem has_effect_of_unary {op : UnaryOp} {operand : NodeId} (hk : n.kind = .unary op operand)
    (hun : n.kind.isUnevaluated = false) (h : a.derivedFlags n = .ok f) :
    ∃ v i, a.accessesVolatile n = .ok v ∧ a.hasEffect operand = .ok i ∧
      f.has .effect = (v || i) := by
  obtain ⟨v, i, hv, hi, rfl⟩ := derivedFlags_eq_ok_iff.1 h
  rw [inheritsEffect_eq hun (by rw [hk]; rfl), anyM_singleton] at hi
  exact ⟨v, i, hv, hi, by rw [has_effect_effectFlags, hk]; rfl⟩

theorem accessesVolatile_eq_false (hk : n.kind.accessesObject = false) :
    a.accessesVolatile n = .ok false := by
  unfold accessesVolatile
  rw [hk]
  split <;> rfl

/-- A derived effect is one of the kind itself, of an access to a volatile object, or of an
evaluated operand. -/
theorem has_effect_derivedFlags (h : a.derivedFlags n = .ok f) :
    f.has .effect = true ↔
      n.kind.hasOwnEffect = true ∨ a.VolatileAccess n ∨ a.InheritsEffect n := by
  obtain ⟨v, i, hv, hi, rfl⟩ := derivedFlags_eq_ok_iff.1 h
  have hv' : v = true ↔ a.VolatileAccess n := by
    cases v with
    | true => simp [accessesVolatile_eq_true hv]
    | false => simp [not_volatileAccess hv]
  have hi' : i = true ↔ a.InheritsEffect n := by
    cases i with
    | true => simp [inheritsEffect_eq_true hi]
    | false => simp [not_inheritsEffect hi]
  rw [has_effect_effectFlags, Bool.or_eq_true, Bool.or_eq_true, hv', hi', or_assoc]

theorem flag_of_has_derivedFlags (h : a.derivedFlags n = .ok f) {g : Flag}
    (hg : f.has g = true) : g = .effect ∨ g = .volatileAccess := by
  obtain ⟨v, i, -, -, rfl⟩ := derivedFlags_eq_ok_iff.1 h
  exact has_effectFlags hg

/-- What stays of a node that gets a new kind and the flags that follow from it. -/
theorem becomes_rebuilt {k : NodeKind} (hk : k.skeleton = n.kind.skeleton)
    (h : a.derivedFlags { n with kind := k } = .ok f) :
    n.Becomes { n with kind := k, flags := n.flags.union f } where
  type_eq := rfl
  skeleton_eq := hk
  flag_mono g hg := by simp [hg]
  flag_eq g h₁ h₂ _ := by
    have : f.has g = false := Bool.eq_false_iff.2 fun hg =>
      (flag_of_has_derivedFlags h hg).elim h₁ h₂
    simp [this]

/-- The operand lists, the volatile types and the effect flags of an arena stay. -/
structure EffectsAgree (a b : Arena) : Prop where
  handles : ∀ parts ops, a.handles parts = .ok ops → b.handles parts = .ok ops
  isVolatile : ∀ type r, a.isVolatile type = .ok r → b.isVolatile type = .ok r
  hasEffect : ∀ id r, a.hasEffect id = .ok r → b.hasEffect id = .ok r

theorem handles_of_lists_eq (h : b.lists = a.lists) (parts : List NodeId × NodeSlice)
    (ops : List NodeId) (hops : a.handles parts = .ok ops) : b.handles parts = .ok ops := by
  rw [← hops]
  simp only [handles, list, h]

theorem hasFlag_append {m : Node} {id : NodeId} {g : Flag} {r : Bool}
    (h : a.hasFlag id g = .ok r) : (a.append m).hasFlag id g = .ok r := by
  obtain ⟨n, hn, rfl⟩ := hasFlag_eq_ok_iff.1 h
  exact hasFlag_eq_ok_iff.2 ⟨n, find?_append_of_some hn, rfl⟩

theorem effectsAgree_append {m : Node} : a.EffectsAgree (a.append m) :=
  ⟨handles_of_lists_eq rfl, fun _ _ => hasFlag_append, fun _ _ => hasFlag_append⟩

theorem accessesVolatile_mono {v : Bool}
    (hab : ∀ type r, a.isVolatile type = .ok r → b.isVolatile type = .ok r)
    (h : a.accessesVolatile n = .ok v) : b.accessesVolatile n = .ok v := by
  unfold accessesVolatile at h ⊢
  split at h
  · by_cases hk : n.kind.accessesObject = true
    · rw [if_pos hk] at h ⊢
      exact hab _ _ h
    · rw [if_neg hk] at h ⊢
      exact h
  · exact h

/-- Derived flags stay where operand lists, volatile types and effect flags stay. -/
theorem derivedFlags_mono (hab : a.EffectsAgree b) (h : a.derivedFlags n = .ok f) :
    b.derivedFlags n = .ok f := by
  obtain ⟨v, i, hav, hai, rfl⟩ := derivedFlags_eq_ok_iff.1 h
  refine derivedFlags_eq_ok_iff.2 ⟨v, i, accessesVolatile_mono hab.isVolatile hav, ?_, rfl⟩
  unfold inheritsEffect at hai ⊢
  by_cases hk : n.kind.isUnevaluated = true
  · rw [if_pos hk] at hai ⊢
    exact hai
  · rw [if_neg hk] at hai ⊢
    obtain ⟨ops, hops, hai⟩ := bind_eq_ok_iff.1 hai
    exact bind_eq_ok_iff.2
      ⟨ops, hab.handles _ _ hops, anyM_mono (fun id _ => hab.hasEffect id) hai⟩

theorem derivedFlags_congr {m : Node} (hk : m.kind = n.kind) (ht : m.type = n.type) :
    a.derivedFlags m = a.derivedFlags n := by
  unfold derivedFlags accessesVolatile inheritsEffect
  rw [hk, ht]

/-- The type does not matter where no object is accessed. -/
theorem derivedFlags_congr_type {m : Node} (hk : m.kind = n.kind)
    (hn : n.kind.accessesObject = false) : a.derivedFlags m = a.derivedFlags n := by
  unfold derivedFlags
  rw [accessesVolatile_eq_false hn, accessesVolatile_eq_false (hk ▸ hn)]
  unfold inheritsEffect
  rw [hk]

/-- The flags stay where operands are exchanged for others of the same effect. -/
theorem derivedFlags_exchanged {k k' : NodeKind} {ops ops' : List NodeId}
    (hacc : k'.accessesObject = k.accessesObject) (hown : k'.hasOwnEffect = k.hasOwnEffect)
    (hun : k'.isUnevaluated = k.isUnevaluated) (hops : k.operands = (ops, .empty))
    (hops' : k'.operands = (ops', .empty))
    (h : List.Forall₂ (fun s r => a.hasEffect r = a.hasEffect s) ops ops') :
    a.derivedFlags { n with kind := k' } = a.derivedFlags { n with kind := k } := by
  have hinherits : a.inheritsEffect { n with kind := k' } =
      a.inheritsEffect { n with kind := k } := by
    cases hk : k.isUnevaluated with
    | true => simp only [inheritsEffect, hun, hk, ↓reduceIte]
    | false => rw [inheritsEffect_eq (hun.trans hk) hops', inheritsEffect_eq hk hops, anyM_congr h]
  simp only [derivedFlags, accessesVolatile, hacc, hown, hinherits]

theorem derivedFlags_rewritten {R : NodeId → NodeId → Prop} {k k' : NodeKind}
    (h : k.Rewritten R k') (hR : ∀ s r, R s r → a.hasEffect r = a.hasEffect s) :
    a.derivedFlags { n with kind := k' } = a.derivedFlags { n with kind := k } := by
  obtain ⟨hacc, hown, hown', hun, hun'⟩ := h.class_eq
  obtain ⟨ops, ops', hops, hops', hall⟩ := h.operands
  exact derivedFlags_exchanged hacc (hown'.trans hown.symm) (hun'.trans hun.symm) hops hops'
    (hall.imp fun s r hsr => hsr.elim (fun e => e ▸ rfl) (hR s r))

/-- Flags are derived only for an access to objects of a type in the arena. -/
theorem isSome_of_derivedFlags (h : a.derivedFlags n = .ok f) (hk : n.kind.accessesObject = true)
    {t : NodeId} (ht : n.type = some t) : (a.find? t).isSome = true := by
  obtain ⟨v, _, hv, -, -⟩ := derivedFlags_eq_ok_iff.1 h
  rw [accessesVolatile, ht] at hv
  simp only [hk, ↓reduceIte] at hv
  obtain ⟨m, hm, -⟩ := hasFlag_eq_ok_iff.1 hv
  rw [hm]
  rfl

theorem evolves_append_access {m : Node} (h : (a.append { m with flags := .empty }).derivedFlags
    { m with flags := .empty } = .ok f) (hk : m.kind.accessesObject = true) :
    a.Evolves (a.append m) := by
  refine evolves_append (NodeKind.isType_of_accessesObject hk) fun t ht => .inl ?_
  have hs := isSome_of_derivedFlags h hk ht
  rw [find?_append] at hs ⊢
  split
  · rfl
  · rename_i ht
    rwa [if_neg ht] at hs

/-! ### Operations that derive flags -/

theorem change_change (a : Arena) (id : NodeId) (g h : Node → Node) :
    (a.change id g).change id h = a.change id (h ∘ g) := by
  simp only [change, mk.injEq, and_true]
  apply Array.ext_getElem?
  intro i
  simp only [Array.getElem?_modify]
  split <;> simp

theorem change_append (a : Arena) (m : Node) (g : Node → Node) :
    (a.append m).change ⟨a.size⟩ g = a.append (g m) := by
  simp only [change, append, mk.injEq, and_true]
  apply Array.ext_getElem?
  intro i
  simp only [Array.getElem?_modify, Array.getElem?_push, size]
  by_cases hi : i = a.nodes.size
  · simp [hi]
  · simp [hi, Ne.symm hi]

theorem hasFlag_change {id : NodeId} {g : Node → Node} {w : Flag}
    (hg : ∀ n, (g n).flags.has w = n.flags.has w) (other : NodeId) :
    (a.change id g).hasFlag other w = a.hasFlag other w := by
  have h : ((a.change id g).find? other).map (·.flags.has w) =
      (a.find? other).map (·.flags.has w) := by
    rw [find?_change]
    split
    · rename_i e
      rw [e, Option.map_map]
      simp [Function.comp_def, hg]
    · rfl
  unfold hasFlag node
  cases h₁ : (a.change id g).find? other <;> cases h₂ : a.find? other <;>
    simp_all [Except.map]

theorem wlp_update {id : NodeId} {g : Node → Node} {Q : Unit → Arena → Prop} :
    Action.wlp (update id g) Q a ↔ ∀ n, a.find? id = some n → Q () (a.change id g) := by
  unfold Action.wlp update
  cases h : a.find? id with
  | none => simp [Nat.not_lt.2 (find?_eq_none_iff.1 h)]
  | some n =>
    have hid : id.index < a.size := by
      refine Nat.lt_of_not_le fun hid => ?_
      rw [find?_eq_none_iff.2 hid] at h
      cases h
    simp only [hid, ↓reduceIte, Option.some.injEq, forall_eq', EStateM.Result.ok.injEq]
    constructor
    · intro hQ
      exact hQ () _ ⟨trivial, rfl⟩
    · rintro hQ _ _ ⟨-, rfl⟩
      exact hQ

theorem wlp_deriveFlags {id : NodeId} {Q : Unit → Arena → Prop}
    (h : ∀ n f, a.find? id = some n → a.derivedFlags n = .ok f →
      Q () (a.change id fun n => { n with flags := n.flags.union f })) :
    Action.wlp (deriveFlags id) Q a := by
  unfold deriveFlags insertFlags
  simp only [Action.wlp_bind, Action.wlp_ask, bind_eq_ok_iff, node_eq_ok_iff, wlp_update]
  rintro f ⟨n, hn, hf⟩ _ _
  exact h n f hn hf

/-- A built node has exactly the flags that follow from its operands. -/
theorem wlp_build {kind : NodeKind} {type : Option NodeId} {span : Span}
    {Q : NodeId → Arena → Prop}
    (h : ∀ f, (a.append ⟨kind, type, .empty, span⟩).derivedFlags ⟨kind, type, .empty, span⟩ =
      .ok f → Q ⟨a.size⟩ (a.append ⟨kind, type, f, span⟩)) :
    Action.wlp (build kind type span) Q a := by
  unfold build
  rw [Action.wlp_bind, Action.wlp_modifyGet, Action.wlp_bind]
  refine wlp_deriveFlags fun n f hn hf => ?_
  have hnew : (a.append ⟨kind, type, .empty, span⟩).find? ⟨a.size⟩ =
      some ⟨kind, type, .empty, span⟩ := by
    rw [find?_append, if_pos rfl]
  cases hnew.symm.trans hn
  rw [Action.wlp_pure]
  have hunion : NodeFlags.empty.union f = f := by simp [NodeFlags.union, NodeFlags.empty]
  have hchange := change_append a ⟨kind, type, .empty, span⟩
    fun n => { n with flags := n.flags.union f }
  rw [hunion] at hchange
  exact hchange ▸ h f hf

theorem wlp_buildLike {other : NodeId} {kind : NodeKind} {span : Span}
    {Q : NodeId → Arena → Prop}
    (h : ∀ n, a.find? other = some n → Action.wlp (build kind n.type span) Q a) :
    Action.wlp (buildLike other kind span) Q a := by
  unfold buildLike
  simp only [Action.wlp_bind, Action.wlp_ask, typeOf, map_eq_ok_iff, node_eq_ok_iff]
  rintro _ ⟨n, hn, rfl⟩
  exact h n hn

end Arena

namespace Pass

open ExprTree.Action

/-- A node that gets a new kind also gets the flags that follow from it in the arena before. -/
theorem wlp_rebuild {expr : NodeId} {kind : NodeKind} {cx : Context}
    {Q : Unit → Context → Prop}
    (h : ∀ n f, cx.arena.find? expr = some n →
      cx.arena.derivedFlags { n with kind := kind } = .ok f →
      Q () { cx with arena :=
        cx.arena.change expr fun n => { n with kind := kind, flags := n.flags.union f } }) :
    wlp (rebuild expr kind) Q cx := by
  unfold rebuild Arena.setKind
  simp only [wlp_bind, wlp_edit, Arena.wlp_update]
  intro n hn
  refine Arena.wlp_deriveFlags fun m f hm hf => ?_
  rw [Arena.find?_change, if_pos rfl, hn] at hm
  cases hm
  have hflag : ∀ other g, (cx.arena.change expr fun n => { n with kind := kind }).hasFlag other g =
      cx.arena.hasFlag other g := fun other _ =>
    Arena.hasFlag_change (g := fun n => { n with kind := kind }) (fun _ => rfl) other
  rw [Arena.change_change]
  refine h n f hn (Arena.derivedFlags_mono ⟨?_, fun id r hr => ?_, fun id r hr => ?_⟩ hf)
  · exact Arena.handles_of_lists_eq rfl
  · exact (hflag id .volatile).symm.trans hr
  · exact (hflag id .effect).symm.trans hr

end Pass

end ExprTree
