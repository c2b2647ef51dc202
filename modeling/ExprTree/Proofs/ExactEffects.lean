import ExprTree.Proofs.Reduction

/-!
# Exact effects

The effect flag of a node is exact when it is the one that kind, type and operands give it.  Where
all flags are exact, passes leave them so, and a node that takes the place of another has the flag
of the other.

* `Arena.Exact` — a node with an exact effect flag.
* `Reading.effects` — the reading of arenas whose effect flags are exact.
* `Reading.effects_lawful` — the elementary rewrites keep effect flags exact.
-/

namespace ExprTree

namespace Arena

variable {a b : Arena} {n m : Node} {id s r t : NodeId}

/-- The effect flag of a node is the one that its kind, its type and its operands give it. -/
def Exact (a : Arena) (n : Node) : Prop :=
  ∃ f, a.derivedFlags n = .ok f ∧ f.has .effect = n.flags.has .effect

/-- Two handles are the same, or nodes with the same effect flag. -/
def SameEffect (a : Arena) (s r : NodeId) : Prop :=
  s = r ∨ ∃ e, a.hasEffect s = .ok e ∧ a.hasEffect r = .ok e

/-- The effect flags of the nodes of an arena stay. -/
def EffectsStay (a b : Arena) : Prop := ∀ id e, a.hasEffect id = .ok e → b.hasEffect id = .ok e

theorem SameEffect.trans (h : a.SameEffect s r) (h' : a.SameEffect r t) : a.SameEffect s t := by
  rcases h with rfl | ⟨e, hs, hr⟩
  · exact h'
  rcases h' with rfl | ⟨e', hr', ht⟩
  · exact .inr ⟨e, hs, hr⟩
  · cases hr.symm.trans hr'
    exact .inr ⟨e, hs, ht⟩

theorem SameEffect.mono (hab : a.EffectsStay b) (h : a.SameEffect s r) : b.SameEffect s r := by
  rcases h with rfl | ⟨e, hs, hr⟩
  · exact .inl rfl
  · exact .inr ⟨e, hab _ _ hs, hab _ _ hr⟩

theorem SameEffect.hasEffect_eq (h : a.SameEffect s r) : a.hasEffect r = a.hasEffect s := by
  rcases h with rfl | ⟨e, hs, hr⟩
  · rfl
  · rw [hs, hr]

theorem SameEffect.isSome (h : a.SameEffect s r) (hs : (a.find? s).isSome = true) :
    (a.find? r).isSome = true := by
  rcases h with rfl | ⟨e, -, hr⟩
  · exact hs
  · obtain ⟨n, hn, -⟩ := hasEffect_eq_ok_iff.1 hr
    rw [hn]
    rfl

theorem SameEffect.flags_eq (h : a.SameEffect s r) (hn : a.find? s = some n)
    (hm : a.find? r = some m) : m.flags.has .effect = n.flags.has .effect := by
  have hs : a.hasEffect s = .ok (n.flags.has .effect) := hasEffect_eq_ok_iff.2 ⟨n, hn, rfl⟩
  have hr : a.hasEffect r = .ok (m.flags.has .effect) := hasEffect_eq_ok_iff.2 ⟨m, hm, rfl⟩
  exact Except.ok.inj (hr.symm.trans (h.hasEffect_eq.trans hs))

theorem Exact.congr (h : a.Exact n) (hk : m.kind = n.kind) (ht : m.type = n.type)
    (he : m.flags.has .effect = n.flags.has .effect) : a.Exact m := by
  obtain ⟨f, hf, hfe⟩ := h
  exact ⟨f, (derivedFlags_congr hk ht).trans hf, hfe.trans he.symm⟩

theorem Exact.mono (hab : a.EffectsAgree b) (h : a.Exact n) : b.Exact n := by
  obtain ⟨f, hf, hfe⟩ := h
  exact ⟨f, derivedFlags_mono hab hf, hfe⟩

theorem Evolves.effectsAgree (h : a.Evolves b) (he : a.EffectsStay b) : a.EffectsAgree b :=
  ⟨handles_of_lists_eq h.lists_eq, fun _ _ => h.isVolatile, he⟩

theorem Exact.isSome_pointer (h : a.Exact n) {pointer : NodeId}
    (hk : n.kind = .unary .deref pointer) : (a.find? pointer).isSome = true := by
  obtain ⟨f, hf, -⟩ := h
  exact Arena.isSome_pointer hf hk

theorem effectsStay_change {f : Node → Node} (hn : a.find? id = some n)
    (hf : (f n).flags.has .effect = n.flags.has .effect) : a.EffectsStay (a.change id f) := by
  intro other e h
  obtain ⟨m, hm, rfl⟩ := hasEffect_eq_ok_iff.1 h
  rw [hasEffect_eq_ok_iff]
  exact exists_find?_change (R := fun m m' => m'.flags.has .effect = m.flags.has .effect) hn hf
    (fun _ => rfl) other m hm

theorem effectsStay_append : a.EffectsStay (a.append m) := fun _ _ => hasFlag_append

/-- All nodes have the types and the effect flags that their operands give them. -/
structure WellFlagged (a : Arena) : Prop where
  typed : a.WellTyped
  exact : ∀ id n, a.find? id = some n → a.Exact n

instance (a : Arena) (n : Node) : Decidable (a.Exact n) :=
  decidable_of_iff ((a.derivedFlags n).map (·.has .effect) = .ok (n.flags.has .effect))
    map_eq_ok_iff

instance (a : Arena) : Decidable a.WellFlagged :=
  decidable_of_iff (a.WellTyped ∧ ∀ n ∈ a.nodes.toList, a.Exact n)
    ⟨fun h => ⟨h.1, forall_find?_iff.2 h.2⟩, fun h => ⟨h.typed, forall_find?_iff.1 h.exact⟩⟩

/-- It is enough to look at nodes that are new or changed. -/
theorem WellFlagged.of_agree (h : a.WellFlagged) (ht : a.TypesAgree b) (he : a.EffectsAgree b)
    (hvoid : ∃ n, b.find? .void = some n ∧ n.kind = .voidConst)
    (hnode : ∀ id m, b.find? id = some m → a.find? id = some m ∨ b.Typed m ∧ b.Exact m) :
    b.WellFlagged := by
  have hold : ∀ id m, a.find? id = some m → b.Typed m ∧ b.Exact m := fun id m hm =>
    ⟨(h.typed.node id m hm).mono ht fun _ hk => (h.exact id m hm).isSome_pointer hk,
      (h.exact id m hm).mono he⟩
  have hall : ∀ id m, b.find? id = some m → b.Typed m ∧ b.Exact m := fun id m hm =>
    (hnode id m hm).elim (hold id m) fun h => h
  exact ⟨⟨fun id m hm => (hall id m hm).1, hvoid⟩, fun id m hm => (hall id m hm).2⟩

theorem WellFlagged.change {f : Node → Node} (h : a.WellFlagged) (hn : a.find? id = some n)
    (hb : n.Becomes (f n)) (he : (f n).flags.has .effect = n.flags.has .effect)
    (htyped : a.Typed (f n)) (hexact : a.Exact (f n)) : (a.change id f).WellFlagged := by
  have hev := evolves_change hn hb
  have hagree := hev.effectsAgree (effectsStay_change hn he)
  refine h.of_agree hev.typesAgree hagree (hev.void h.typed.void) fun other m hm => ?_
  rcases find?_change_cases hn hm with ⟨-, rfl⟩ | hm
  · exact .inr ⟨htyped.mono hev.typesAgree fun _ hk => hexact.isSome_pointer hk,
      hexact.mono hagree⟩
  · exact .inl hm

theorem WellFlagged.append (h : a.WellFlagged) (hev : a.Evolves (a.append m))
    (htyped : (a.append m).Typed m) (hexact : a.Exact m) : (a.append m).WellFlagged := by
  refine h.of_agree hev.typesAgree effectsAgree_append (hev.void h.typed.void) fun other n hn => ?_
  rcases find?_append_cases hn with ⟨-, rfl⟩ | hn
  · exact .inr ⟨htyped, hexact.mono effectsAgree_append⟩
  · exact .inl hn

/-- Asking for the flags of a node when a node has been appended makes no difference. -/
theorem derivedFlags_of_append {f flags : NodeFlags} (h : a.derivedFlags n = .ok f)
    (ha : (a.append m).derivedFlags n = .ok flags) : flags = f := by
  have hb := derivedFlags_mono (effectsAgree_append (m := m)) h
  rw [ha] at hb
  cases hb
  rfl

theorem WellFlagged.hasEffect_void (h : a.WellFlagged) : a.hasEffect .void = .ok false := by
  obtain ⟨n, hn, hk⟩ := h.typed.void
  obtain ⟨f, hf, he⟩ := h.exact _ n hn
  refine hasEffect_eq_ok_iff.2 ⟨n, hn, ?_⟩
  rw [← he, Bool.eq_false_iff, ne_eq, has_effect_derivedFlags hf, hk]
  rintro (h | ⟨h, -⟩ | ⟨-, ops, hops, op, hop, -⟩)
  · cases h
  · rw [hk] at h
    cases h
  · rw [hk] at hops
    cases hops
    cases hop

end Arena

namespace Reading

/-- Arenas in which all effect flags are exact.  A node can stand in the place of another of the
same type and the same effect flag. -/
def effects : Reading Unit where
  Sound a _ := a.WellFlagged
  Fits a _ id k := ∃ n, a.find? id = some n ∧ a.Typed { n with kind := k } ∧
    a.Exact { n with kind := k }
  Stands a _ s r := a.SameType s r ∧ a.SameEffect s r
  Same a _ s r := a.SameEffect s r
  Extends a _ b _ := a.EffectsStay b

variable {a : Arena} {n : Node} {expr pointer value : NodeId} {k k' : NodeKind}

theorem effects_rewritten (h : k.Rewritten (effects.Stands a ()) k')
    (he : a.Exact { n with kind := k }) : a.Exact { n with kind := k' } := by
  obtain ⟨f, hf, hfe⟩ := he
  exact ⟨f, (Arena.derivedFlags_rewritten h fun s r hs => hs.2.hasEffect_eq).trans hf, hfe⟩

theorem effects_unwrap (h : a.WellFlagged) (hn : a.find? expr = some n)
    (hw : n.wrapped? = some value) : effects.Stands a () expr value := by
  have htype : a.typeOf expr = .ok n.type :=
    Arena.map_eq_ok_iff.2 ⟨n, Arena.node_eq_ok_iff.2 hn, rfl⟩
  refine ⟨.inr ⟨n.type, htype, (h.typed.node _ _ hn).wrapper value hw⟩, ?_⟩
  obtain ⟨f, hf, he⟩ := h.exact _ _ hn
  obtain ⟨-, hk⟩ := Node.wrapped?_eq_some_iff.1 hw
  obtain ⟨op, hk, hclass⟩ : ∃ op, n.kind = .unary op value ∧
      n.kind.isUnevaluated = false ∧ n.kind.accessesObject = false := by
    rcases hk with hk | hk
    · exact ⟨_, hk, by rw [hk]; exact ⟨rfl, rfl⟩⟩
    · exact ⟨_, hk, by rw [hk]; exact ⟨rfl, rfl⟩⟩
  obtain ⟨v, i, hv, hi, hfe⟩ := Arena.has_effect_of_unary hk hclass.1 hf
  cases (Arena.accessesVolatile_eq_false hclass.2).symm.trans hv
  refine .inr ⟨i, Arena.hasEffect_eq_ok_iff.2 ⟨n, hn, ?_⟩, hi⟩
  rw [← he, hfe, Bool.false_or]

/-- A dereference that is no volatile access has the effect of its pointer. -/
theorem effects_access (h : a.WellFlagged) (hn : a.find? expr = some n)
    (hk : n.kind = .unary .deref pointer) {type : NodeId} (ht : n.type = some type)
    (hvol : a.isVolatile type = .ok false) : effects.Same a () expr pointer := by
  obtain ⟨f, hf, he⟩ := h.exact _ _ hn
  obtain ⟨v, i, hv, hi, hfe⟩ := Arena.has_effect_of_unary hk (by rw [hk]; rfl) hf
  rw [Arena.accessesVolatile, ht, hk] at hv
  cases hvol.symm.trans hv
  refine .inr ⟨i, Arena.hasEffect_eq_ok_iff.2 ⟨n, hn, ?_⟩, hi⟩
  rw [← he, hfe, Bool.false_or]

theorem effects_rebuild {flags : NodeFlags} (h : a.WellFlagged) (hn : a.find? expr = some n)
    (hfit : effects.Fits a () expr k) (hk : k.skeleton = n.kind.skeleton)
    (hflags : a.derivedFlags { n with kind := k } = .ok flags) :
    (a.change expr fun n => { n with kind := k, flags := n.flags.union flags }).WellFlagged ∧
      a.EffectsStay (a.change expr fun n => { n with kind := k, flags := n.flags.union flags }) := by
  obtain ⟨m, hm, ht, he⟩ := hfit
  cases hn.symm.trans hm
  have heff : (n.flags.union flags).has .effect = n.flags.has .effect := by
    obtain ⟨f, hf, hfe⟩ := he
    cases hf.symm.trans hflags
    simp [hfe]
  have hb := Arena.becomes_rebuilt hk hflags
  have htyped : a.Typed { n with kind := k, flags := n.flags.union flags } :=
    ht.congr rfl rfl hb.locationWrapper_eq
  exact ⟨h.change hn hb heff htyped (he.congr rfl rfl heff), Arena.effectsStay_change hn heff⟩

/-- A node that is built with the effect of another has its effect flag. -/
theorem sameEffect_append {m : Node} {flags f : NodeFlags} (hn : a.find? expr = some n)
    (he : a.Exact { n with kind := k }) (hf : a.derivedFlags { n with kind := k } = .ok f)
    (hm : a.derivedFlags m = .ok f)
    (hflags : (a.append { m with flags := .empty }).derivedFlags { m with flags := .empty } =
      .ok flags) :
    a.Exact { m with flags := flags } ∧
      (a.append { m with flags := flags }).SameEffect expr ⟨a.size⟩ := by
  have heq : flags = f := Arena.derivedFlags_of_append hm hflags
  obtain ⟨f', hf', hfe⟩ := he
  cases hf.symm.trans hf'
  refine ⟨⟨f, hm, heq ▸ rfl⟩, .inr ⟨n.flags.has .effect, ?_, ?_⟩⟩
  · exact Arena.effectsStay_append _ _ (Arena.hasEffect_eq_ok_iff.2 ⟨n, hn, rfl⟩)
  · exact Arena.hasEffect_eq_ok_iff.2 ⟨_, Arena.find?_append_new .., by rw [heq]; exact hfe⟩

theorem effects_dereference {target : NodeId} {span : Span} {flags : NodeFlags}
    (h : a.WellFlagged) (hfit : effects.Fits a () expr (.unary .deref pointer))
    (hstand : effects.Stands a () pointer value) (hv : a.referent? value = some target)
    (hflags : (a.append ⟨.unary .deref value, some target, .empty, span⟩).derivedFlags
      ⟨.unary .deref value, some target, .empty, span⟩ = .ok flags)
    (hev : a.Evolves (a.append ⟨.unary .deref value, some target, flags, span⟩)) :
    (a.append ⟨.unary .deref value, some target, flags, span⟩).WellFlagged ∧
      effects.Stands (a.append ⟨.unary .deref value, some target, flags, span⟩) () expr
        ⟨a.size⟩ := by
  obtain ⟨n, hn, ht, he⟩ := hfit
  obtain ⟨hst, hse⟩ := hstand
  have htype : n.type = some target := ht.deref pointer target rfl (hst.referent?.symm.trans hv)
  obtain ⟨f, hf, -⟩ := id he
  have hf' : a.derivedFlags ⟨.unary .deref value, some target, .empty, span⟩ = .ok f := by
    have hex : a.derivedFlags { n with kind := .unary .deref value } =
        a.derivedFlags { n with kind := .unary .deref pointer } :=
      Arena.derivedFlags_exchanged rfl rfl rfl rfl rfl (.cons hse.hasEffect_eq .nil)
    rw [← hf, ← hex]
    exact Arena.derivedFlags_congr rfl htype.symm
  obtain ⟨hexact, hsame⟩ := sameEffect_append
    (m := ⟨.unary .deref value, some target, .empty, span⟩)
    hn he hf hf' hflags
  refine ⟨h.append hev ⟨fun pointer' target' hk hr => ?_, fun operand hw => ?_⟩ hexact, ?_, hsame⟩
  · cases hk
    rw [hev.referent? hv] at hr
    exact hr
  · rcases (Node.wrapped?_eq_some_iff.1 hw).2 with hk | hk <;> cases hk
  · refine .inr ⟨n.type, hev.typeOf (Arena.map_eq_ok_iff.2 ⟨n, Arena.node_eq_ok_iff.2 hn, rfl⟩), ?_⟩
    exact Arena.map_eq_ok_iff.2 ⟨_, Arena.node_eq_ok_iff.2 (Arena.find?_append_new ..), htype.symm⟩

theorem effects_reduce {type : Option NodeId} {span : Span} {flags : NodeFlags}
    (h : a.WellFlagged) (hfit : effects.Fits a () expr k)
    (hk : k.Rewritten (effects.Same a ()) k') (hacc : k.accessesObject = false)
    (hflags : (a.append ⟨k', type, .empty, span⟩).derivedFlags ⟨k', type, .empty, span⟩ =
      .ok flags)
    (hev : a.Evolves (a.append ⟨k', type, flags, span⟩)) :
    (a.append ⟨k', type, flags, span⟩).WellFlagged ∧
      effects.Same (a.append ⟨k', type, flags, span⟩) () expr ⟨a.size⟩ := by
  obtain ⟨n, hn, ht, he⟩ := hfit
  obtain ⟨f, hf, -⟩ := id he
  have hf' : a.derivedFlags ⟨k', type, .empty, span⟩ = .ok f := by
    have hex : a.derivedFlags { n with kind := k' } = a.derivedFlags { n with kind := k } :=
      Arena.derivedFlags_rewritten hk fun s r hs => hs.hasEffect_eq
    rw [← hf, ← hex]
    exact Arena.derivedFlags_congr_type rfl (hk.class_eq.1.trans hacc)
  obtain ⟨hexact, hsame⟩ := sameEffect_append (m := ⟨k', type, .empty, span⟩) hn he hf hf' hflags
  refine ⟨h.append hev ⟨fun pointer target hk' hr => ?_, fun operand hw => ?_⟩ hexact, hsame⟩
  · exact absurd hk' (hk.ne_deref pointer)
  · obtain ⟨hw, -⟩ := Node.wrapped?_eq_some_iff.1 hw
    exact absurd (Arena.flag_of_has_derivedFlags hflags hw) (by decide)

theorem effects_lawful : effects.Lawful where
  extends_refl _ _ _ _ h := h
  extends_trans h h' id e he := h' id e (h id e he)
  fits_mono := by
    rintro a _ b _ id k ⟨hev, hstay⟩ ⟨n, hn, ht, he⟩
    obtain ⟨m, hm, hnm⟩ := hev.node id n hn
    have hflag : m.flags.has .effect = n.flags.has .effect := by
      obtain ⟨m', hm', h⟩ :=
        Arena.hasEffect_eq_ok_iff.1 (hstay id _ (Arena.hasEffect_eq_ok_iff.2 ⟨n, hn, rfl⟩))
      cases hm.symm.trans hm'
      exact h
    refine ⟨m, hm, ?_, (he.mono (hev.effectsAgree hstay)).congr rfl hnm.type_eq hflag⟩
    exact (ht.mono hev.typesAgree fun _ hk => he.isSome_pointer hk).congr rfl hnm.type_eq
      hnm.locationWrapper_eq
  stands_mono := fun ⟨hev, hstay⟩ ⟨ht, he⟩ => ⟨ht.mono hev, he.mono hstay⟩
  same_mono := fun ⟨_, hstay⟩ he => he.mono hstay
  stands_refl a _ s := ⟨.refl a s, .inl rfl⟩
  stands_trans h h' := ⟨h.1.trans h'.1, h.2.trans h'.2⟩
  same_of_stands h := h.2
  same_trans h h' := h.trans h'
  fits_self h hn := ⟨_, hn, h.typed.node _ _ hn, h.exact _ _ hn⟩
  fits_rewritten := fun ⟨n, hn, ht, he⟩ h _ =>
    ⟨n, hn, ht.rewritten h fun _ _ hs => hs.1, effects_rewritten h he⟩
  unwrap := effects_unwrap
  touch := fun h hn hk ht hf hb _ =>
    have he := hf .effect (by decide)
    ⟨h.change hn hb he ((h.typed.node _ _ hn).congr hk ht (hf _ (by decide)))
      ((h.exact _ _ hn).congr hk ht he), Arena.effectsStay_change hn he⟩
  rebuild := effects_rebuild
  dereference := fun h hfit hs _ hv hf hev =>
    have hd := effects_dereference h hfit hs hv hf hev
    ⟨(), hd.1, Arena.effectsStay_append, hd.2⟩
  reference := fun _ hs hp hv => absurd (hs.1.referent?.symm.trans hv) hp
  access h hn hk ht hv := effects_access h hn hk ht hv
  reduce := fun h hfit hk hacc hf hev =>
    have hr := effects_reduce h hfit hk hacc hf hev
    ⟨(), hr.1, Arena.effectsStay_append, hr.2⟩
  nothing h he := .inr ⟨false, he, h.hasEffect_void⟩

end Reading

end ExprTree
