import ExprTree.Proofs.Settled

/-!
# Passes keep operands settled

In well-formed arenas passes neither settle an old node nor unsettle it: what stands in the place
of an operand settles as the operand does.

* `Arena.Settling` — a well-formed arena with a predicate that says which nodes settle.
* `Reading.settling`, `Reading.settling_lawful` — the elementary rewrites keep the predicate.
-/

namespace ExprTree

namespace Arena

variable {a b : Arena} {x y : NodeId → Prop} {n m : Node} {id : NodeId} {k k' : NodeKind}

/-- A well-formed arena, and a predicate that says which of its nodes settle. -/
structure Settling (a : Arena) (x : NodeId → Prop) : Prop where
  wellFormed : a.WellFormed
  settles_iff : ∀ id n, a.find? id = some n → (x id ↔ a.SettlesBy x id n)

theorem WellFormed.settling (h : a.WellFormed) : a.Settling a.Settles :=
  ⟨h, fun _ _ hn => Arena.settles_iff h.flagged hn⟩

/-- The same nodes settle as before. -/
def SettleAlike (a : Arena) (x y : NodeId → Prop) : Prop :=
  ∀ id, (a.find? id).isSome = true → (x id ↔ y id)

theorem Settling.evolve (h : a.Settling x) (hab : a.Evolves b) (hxy : a.SettleAlike x y)
    (hn : a.find? id = some n) : y id ↔ b.SettlesBy y id n := by
  have ht := h.wellFormed.tidy id n hn
  rw [← hxy id (by rw [hn]; rfl), h.settles_iff id n hn]
  refine settlesBy_evolve hab (h.wellFormed.flagged.exact id n hn) (fun operand hw => ?_)
    fun op hop => hxy op (ht.inRange op hop)
  obtain ⟨m, hm, -⟩ := ht.wraps operand hw
  exact hxy operand (by rw [hm]; rfl)

theorem Settling.change {f : Node → Node} (h : a.Settling x) (hn : a.find? id = some n)
    (hb : n.Becomes (f n)) (he : (f n).flags.has .effect = n.flags.has .effect)
    (htyped : a.Typed (f n)) (hexact : a.Exact (f n)) (htidy : a.Tidy id (f n))
    (hx : x id ↔ a.SettlesBy x id (f n)) : (a.change id f).Settling x := by
  have hab := evolves_change hn hb
  refine ⟨⟨h.wellFormed.flagged.change hn hb he htyped hexact, fun other m hm => ?_⟩,
    fun other m hm => ?_⟩
  · rcases find?_change_cases hn hm with ⟨rfl, rfl⟩ | hm
    · exact htidy.mono hab
    · exact (h.wellFormed.tidy other m hm).mono hab
  · rcases find?_change_cases hn hm with ⟨rfl, rfl⟩ | hm
    · rw [hx]
      exact settlesBy_evolve hab hexact (fun _ _ => .rfl) fun _ _ => .rfl
    · exact h.evolve hab (fun _ _ => .rfl) hm

/-- A new node settles if its operands do. -/
def settlesWith (a : Arena) (x : NodeId → Prop) (m : Node) : NodeId → Prop := fun id =>
  if id = ⟨a.size⟩ then (a.append m).SettlesBy x ⟨a.size⟩ m else x id

theorem settlesWith_new : a.settlesWith x m ⟨a.size⟩ ↔ (a.append m).SettlesBy x ⟨a.size⟩ m := by
  unfold settlesWith
  rw [if_pos rfl]

theorem settleAlike_with : a.SettleAlike x (a.settlesWith x m) := by
  intro id hid
  unfold settlesWith
  rw [if_neg (ne_size_of_isSome hid)]

theorem Settling.append (h : a.Settling x) (hev : a.Evolves (a.append m))
    (hflagged : (a.append m).WellFlagged) (htidy : a.Tidy ⟨a.size⟩ m) :
    (a.append m).Settling (a.settlesWith x m) := by
  refine ⟨⟨hflagged, fun other n hn => ?_⟩, fun other n hn => ?_⟩
  · rcases find?_append_cases hn with ⟨rfl, rfl⟩ | hn
    · exact htidy.mono hev
    · exact (h.wellFormed.tidy other n hn).mono hev
  · rcases find?_append_cases hn with ⟨rfl, rfl⟩ | hn
    · -- its operands are old, and settle as before
      rw [settlesWith_new]
      refine settlesBy_evolve (.refl _) (hflagged.exact _ n (find?_append_new a n))
        (fun operand hw => ?_) fun op hop => settleAlike_with op (htidy.inRange op hop)
      obtain ⟨leaf, hleaf, -⟩ := htidy.wraps operand hw
      exact settleAlike_with operand (by rw [hleaf]; rfl)
    · exact h.evolve hev settleAlike_with hn

theorem EffectsStay.isSome (h : a.EffectsStay b) (hid : (a.find? id).isSome = true) :
    (b.find? id).isSome = true := by
  obtain ⟨n, hn⟩ := Option.isSome_iff_exists.1 hid
  obtain ⟨m, hm, -⟩ := hasEffect_eq_ok_iff.1 (h id _ (hasEffect_eq_ok_iff.2 ⟨n, hn, rfl⟩))
  rw [hm]
  rfl

/-- Two nodes of one type that settle alike still do where the same nodes settle as before. -/
theorem SettleAlike.stand {s r : NodeId} (h : a.SettleAlike x y) (ht : a.SameType s r)
    (hx : x s ↔ x r) : y s ↔ y r := by
  rcases ht with rfl | ⟨t, hs, hr⟩
  · rfl
  obtain ⟨n, hn, -⟩ := map_eq_ok_iff.1 hs
  obtain ⟨m, hm, -⟩ := map_eq_ok_iff.1 hr
  rw [node_eq_ok_iff] at hn hm
  rw [← h s (by rw [hn]; rfl), hx, h r (by rw [hm]; rfl)]

/-- What has the type of a declaration or a constant, and is one if that is, still is one later. -/
theorem SameType.leaf {s r : NodeId} (ht : a.SameType s r) (hab : a.Evolves b)
    (hl : a.Leaf s → a.Leaf r) (h : b.Leaf s) : b.Leaf r := by
  rcases ht with rfl | ⟨t, hs, -⟩
  · exact h
  · obtain ⟨n, hn, -⟩ := map_eq_ok_iff.1 hs
    have hsome : (a.find? s).isSome = true := by
      rw [node_eq_ok_iff.1 hn]
      rfl
    exact (hl (h.of_evolves hab hsome)).mono hab

end Arena

namespace Reading

open Arena

/-- Well-formed arenas with a predicate that says which nodes settle.  A node can stand in the
place of another of the same type and the same effect flag if it settles as the other does. -/
def settling : Reading (NodeId → Prop) where
  Sound a x := a.Settling x
  Fits a x id k := effects.Fits a () id k ∧ ∃ n, a.find? id = some n ∧
    k.skeleton = n.kind.skeleton ∧ a.Tidy id { n with kind := k } ∧
    (x id ↔ a.SettlesBy x id { n with kind := k })
  Stands a x s r := effects.Stands a () s r ∧ (x s ↔ x r) ∧ (a.Leaf s → a.Leaf r)
  Same a _ s r := effects.Same a () s r
  Extends a x b y := effects.Extends a () b () ∧ a.SettleAlike x y

variable {a b : Arena} {x y : NodeId → Prop} {n : Node} {expr pointer value : NodeId}
  {k k' : NodeKind} {flags : NodeFlags} {span : Span}

theorem settling_fits_mono (h : settling.Leads a x b y) (hfit : settling.Fits a x expr k) :
    settling.Fits b y expr k := by
  obtain ⟨hev, hstay, halike⟩ := h
  obtain ⟨heff, n, hn, hskel, ht, hx⟩ := hfit
  obtain ⟨m, hm, hnm⟩ := hev.node expr n hn
  have hflag := hnm.locationWrapper_eq
  have hexact : a.Exact { n with kind := k } := by
    obtain ⟨n', hn', -, he⟩ := heff
    cases hn.symm.trans hn'
    exact he
  have heffect : m.flags.has .effect = n.flags.has .effect := by
    obtain ⟨m', hm', he⟩ :=
      hasEffect_eq_ok_iff.1 (hstay expr _ (hasEffect_eq_ok_iff.2 ⟨n, hn, rfl⟩))
    cases hm.symm.trans hm'
    exact he
  refine ⟨effects_lawful.fits_mono ⟨hev, hstay⟩ heff, m, hm,
    hskel.trans hnm.skeleton_eq.symm, (ht.mono hev).congr rfl hflag, ?_⟩
  rw [← halike expr (by rw [hn]; rfl), hx]
  refine (settlesBy_evolve hev hexact (fun operand hw => ?_) fun op hop =>
    halike op (ht.inRange op hop)).trans
      (settlesBy_congr (n := { n with kind := k }) (m := { m with kind := k }) rfl hnm.type_eq
        heffect hflag).symm
  obtain ⟨w, hw', -⟩ := ht.wraps operand hw
  exact halike operand (by rw [hw']; rfl)

theorem settling_unwrap (h : a.Settling x) (hn : a.find? expr = some n)
    (hw : n.wrapped? = some value) : settling.Stands a x expr value := by
  refine ⟨effects_lawful.unwrap h.wellFormed.flagged hn hw, ?_, fun hl => ?_⟩
  · rw [h.settles_iff expr n hn, settlesBy_wrapper hw]
  · cases (hl.bare n hn).symm.trans hw

theorem settling_touch {f : Node → Node} (h : a.Settling x) (hn : a.find? expr = some n)
    (hk : (f n).kind = n.kind) (ht : (f n).type = n.type)
    (hf : ∀ g, g ≠ .read → (f n).flags.has g = n.flags.has g) (hb : n.Becomes (f n)) :
    (a.change expr f).Settling x ∧ settling.Extends a x (a.change expr f) x := by
  have he := hf .effect (by decide)
  have hw := hf .locationWrapper (by decide)
  have hwf := h.wellFormed
  refine ⟨h.change hn hb he ((hwf.flagged.typed.node _ _ hn).congr hk ht hw)
    ((hwf.flagged.exact _ _ hn).congr hk ht he) ((hwf.tidy _ _ hn).congr hk hw) ?_,
    effectsStay_change hn he, fun _ _ => .rfl⟩
  rw [h.settles_iff expr n hn]
  exact (settlesBy_congr hk ht he hw).symm

theorem settling_rebuild (h : a.Settling x) (hn : a.find? expr = some n)
    (hfit : settling.Fits a x expr k) (hk : k.skeleton = n.kind.skeleton)
    (hflags : a.derivedFlags { n with kind := k } = .ok flags) :
    (a.change expr fun n => { n with kind := k, flags := n.flags.union flags }).Settling x ∧
      settling.Extends a x
        (a.change expr fun n => { n with kind := k, flags := n.flags.union flags }) x := by
  obtain ⟨⟨m, hm, ht, hex⟩, m', hm', -, htidy, hx⟩ := hfit
  cases hn.symm.trans hm
  cases hn.symm.trans hm'
  have heff : (n.flags.union flags).has .effect = n.flags.has .effect := by
    obtain ⟨f, hf, hfe⟩ := hex
    cases hf.symm.trans hflags
    simp [hfe]
  have hb := becomes_rebuilt hk hflags
  have hw := hb.locationWrapper_eq
  refine ⟨h.change hn hb heff (ht.congr rfl rfl hw) (hex.congr rfl rfl heff) (htidy.congr rfl hw)
    ?_, effectsStay_change hn heff, fun _ _ => .rfl⟩
  rw [hx]
  exact (settlesBy_congr (n := { n with kind := k })
    (m := { n with kind := k, flags := n.flags.union flags }) rfl rfl heff hw).symm

/-- The new dereference settles if the old one does, since both have one type. -/
theorem settling_dereference {target : NodeId} (h : a.Settling x)
    (hfit : settling.Fits a x expr (.unary .deref pointer))
    (hstand : settling.Stands a x pointer value) (hr : a.referent? value = some target)
    (hf : (a.append ⟨.unary .deref value, some target, .empty, span⟩).derivedFlags
      ⟨.unary .deref value, some target, .empty, span⟩ = .ok flags)
    (hev : a.Evolves (a.append ⟨.unary .deref value, some target, flags, span⟩)) :
    ∃ y, (a.append ⟨.unary .deref value, some target, flags, span⟩).Settling y ∧
      settling.Extends a x (a.append ⟨.unary .deref value, some target, flags, span⟩) y ∧
      settling.Stands (a.append ⟨.unary .deref value, some target, flags, span⟩) y expr
        ⟨a.size⟩ := by
  obtain ⟨heff, n, hn, hskel, -, hx⟩ := hfit
  have hk : n.kind = .unary .deref pointer := NodeKind.eq_of_skeleton hskel.symm rfl
  obtain ⟨hflagged, hsame⟩ := effects_dereference h.wellFormed.flagged heff hstand.1 hr hf hev
  have htype : n.type = some target := (h.wellFormed.flagged.typed.node _ _ hn).deref pointer
    target hk (hstand.1.1.referent?.symm.trans hr)
  have hvalue : (a.find? value).isSome = true := isSome_of_referent? hr
  have htidy : a.Tidy ⟨a.size⟩ ⟨.unary .deref value, some target, flags, span⟩ := by
    refine ⟨fun operand hw => ?_, nofun, fun hnew => ?_⟩
    · cases (Node.wrapped?_deref rfl).symm.trans hw
    · cases hnew
      exact ne_size_of_isSome hvalue rfl
  refine ⟨_, h.append hev hflagged htidy, ⟨effectsStay_append, settleAlike_with⟩, hsame, ?_, ?_⟩
  · -- the flags and the types of both dereferences agree
    obtain ⟨v, hv, hvk⟩ := h.wellFormed.flagged.typed.void
    have hexpr : expr ≠ .void := by
      rintro rfl
      cases hn.symm.trans hv
      cases hk.symm.trans hvk
    have hnew : (⟨a.size⟩ : NodeId) ≠ .void := (ne_size_of_isSome (by rw [hv]; rfl)).symm
    have heffect := hsame.2.flags_eq (find?_append_of_some hn) (find?_append_new a _)
    have hvol := volatileAccess_evolve hev (h.wellFormed.flagged.exact _ _ hn)
    have hless := valueless_evolve (n := n) hev
    rw [← settleAlike_with expr (by rw [hn]; rfl), h.settles_iff expr n hn, settlesWith_new,
      settlesBy_deref hk hexpr, settlesBy_deref rfl hnew, hless, hvol, heffect]
    unfold Valueless VolatileAccess
    rw [htype, hk]
    rfl
  · rintro ⟨m, hm, hleaf⟩
    cases (find?_append_of_some hn).symm.trans hm
    rw [hk] at hleaf
    cases hleaf

/-- The new node is no location wrapper, since it has derived flags alone. -/
theorem settling_reduce {type : Option NodeId} (h : a.Settling x)
    (hfit : settling.Fits a x expr k) (hk : k.Rewritten (effects.Same a ()) k')
    (hacc : k.accessesObject = false)
    (hf : (a.append ⟨k', type, .empty, span⟩).derivedFlags ⟨k', type, .empty, span⟩ = .ok flags)
    (hev : a.Evolves (a.append ⟨k', type, flags, span⟩)) :
    ∃ y, (a.append ⟨k', type, flags, span⟩).Settling y ∧
      settling.Extends a x (a.append ⟨k', type, flags, span⟩) y ∧
      effects.Same (a.append ⟨k', type, flags, span⟩) () expr ⟨a.size⟩ := by
  obtain ⟨heff, n, hn, hskel, htidy, hx⟩ := hfit
  obtain ⟨hflagged, hsame⟩ := effects_reduce h.wellFormed.flagged heff hk hacc hf hev
  have htidy' : a.Tidy ⟨a.size⟩ ⟨k', type, flags, span⟩ := by
    refine ⟨fun operand hw => ?_, fun op hop => ?_, hk.ne_deref _⟩
    · obtain ⟨hw, -⟩ := Node.wrapped?_eq_some_iff.1 hw
      exact absurd (flag_of_has_derivedFlags hf hw) (by decide)
    · obtain ⟨i, hi, rfl⟩ := List.getElem_of_mem hop
      have hi' : i < k.branches.length := hk.branches.length_eq ▸ hi
      exact (hk.branches.get hi' hi).isSome (htidy.inRange _ (List.getElem_mem hi'))
  exact ⟨_, h.append hev hflagged htidy', ⟨effectsStay_append, settleAlike_with⟩, hsame⟩

theorem settling_lawful : settling.Lawful where
  extends_refl a _ := ⟨effects_lawful.extends_refl a (), fun _ _ => .rfl⟩
  extends_trans h h' := ⟨effects_lawful.extends_trans h.1 h'.1, fun id hid =>
    (h.2 id hid).trans (h'.2 id (EffectsStay.isSome h.1 hid))⟩
  fits_mono := settling_fits_mono
  stands_mono := fun ⟨hev, hstay, halike⟩ ⟨hs, hx, hl⟩ =>
    ⟨effects_lawful.stands_mono ⟨hev, hstay⟩ hs, halike.stand hs.1 hx, hs.1.leaf hev hl⟩
  same_mono := fun ⟨_, hstay, _⟩ hs => hs.mono hstay
  stands_refl a _ s := ⟨effects_lawful.stands_refl a () s, .rfl, id⟩
  stands_trans h h' := ⟨effects_lawful.stands_trans h.1 h'.1, h.2.1.trans h'.2.1,
    fun hl => h'.2.2 (h.2.2 hl)⟩
  same_of_stands h := h.1.2
  same_trans h h' := h.trans h'
  fits_self := fun {a x id n} h hn => ⟨effects_lawful.fits_self h.wellFormed.flagged hn, n, hn, rfl,
    h.wellFormed.tidy id n hn, h.settles_iff id n hn⟩
  fits_rewritten := fun ⟨he, n, hn, hskel, ht, hx⟩ hk hw => by
    refine ⟨effects_lawful.fits_rewritten he (hk.imp fun _ _ h => h.1) hw, n, hn,
      hk.skeleton_eq.trans hskel, ht.rewritten hk fun _ _ h => ⟨h.1.1, h.2.2⟩, ?_⟩
    rw [hx]
    exact settlesBy_rewritten hk fun _ _ h => h.2.1
  unwrap := settling_unwrap
  touch h hn hk ht hf hb _ := settling_touch h hn hk ht hf hb
  rebuild := settling_rebuild
  dereference h hfit hs _ := settling_dereference h hfit hs
  reference := fun _ hs hp hv => absurd (hs.1.1.referent?.symm.trans hv) hp
  access h hn hk ht hv := effects_access h.wellFormed.flagged hn hk ht hv
  reduce := settling_reduce
  nothing h he := effects_lawful.nothing (x := ()) h.wellFormed.flagged he

end Reading

end ExprTree
