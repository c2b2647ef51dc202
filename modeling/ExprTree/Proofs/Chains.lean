import Mathlib.Logic.Function.Basic
import ExprTree.Proofs.Closedness

/-!
# Chains of conversions stay without cycles

A pass exchanges the operand of a conversion for what stands in its place, so the chains of
conversions that lead down before lead down afterwards.  There is one exception.  The use of a
location wrapper can be the use of its operand; where the two differ in type, the value of a
reference is no longer a reference, and takes the place of the dereference.  So a dereference
counts as a link of the chains, too, where its pointer can lose its type in this way.

* `Arena.Slips` — such pointers.
* `Arena.Turns` — the chains that must not come back.
* `Chain` — numbers that go down along them.
* `Reading.chained`, `Reading.chained_lawful` — the elementary rewrites keep the numbers.
* `Arena.Chained` — arenas that have them.
-/

namespace ExprTree

namespace Arena

variable {a b : Arena} {id operand : NodeId}

/-- Behind location wrappers and dereferences there is a location wrapper that has not the type of
its operand. -/
inductive Slips (a : Arena) : NodeId → Prop
  | mistyped {id operand : NodeId} {n : Node} (hn : a.find? id = some n)
    (hw : n.wrapped? = some operand) (ht : a.typeOf operand ≠ .ok n.type) : Slips a id
  | wrapper {id operand : NodeId} {n : Node} (hn : a.find? id = some n)
    (hw : n.wrapped? = some operand) (h : Slips a operand) : Slips a id
  | deref {id pointer : NodeId} {n : Node} (hn : a.find? id = some n)
    (hk : n.kind = .unary .deref pointer) (h : Slips a pointer) : Slips a id

/-- The first node is a conversion of the second, or the dereference of a pointer that can lose its
type. -/
def Turns (a : Arena) (id operand : NodeId) : Prop :=
  a.Converts id operand ∨
    a.Slips operand ∧ ∃ n, a.find? id = some n ∧ n.kind = .unary .deref operand

theorem Turns.looksThrough (h : a.Turns id operand) : a.LooksThrough id operand := by
  rcases h with h | ⟨-, n, hn, hk⟩
  · exact h.looksThrough
  · exact ⟨n, hn, by simp only [Node.behind?, hk]⟩

end Arena

/-- Numbers that go down along texts and along chains of conversions, and the nodes whose use keeps
their type or has depth zero. -/
structure Chain where
  text : NodeId → Nat
  depth : NodeId → Nat
  steady : NodeId → Prop

namespace Chain

variable {x y : Chain} {a b : Arena} {id s r t : NodeId} {n m : Node}

/-- The numbers are right for a node. -/
structure Fits (x : Chain) (a : Arena) (id : NodeId) (n : Node) : Prop where
  convert : ∀ operand, n.converted? = some operand → x.depth operand < x.depth id
  deref : ∀ pointer, n.kind = .unary .deref pointer →
    x.depth pointer < x.depth id ∨ x.steady pointer
  pointer : ∀ pointer, n.kind = .unary .deref pointer → x.steady id → x.steady pointer
  wrapper : ∀ operand, n.wrapped? = some operand → x.steady id →
    x.steady operand ∧ (a.typeOf operand = .ok n.type ∨ x.depth operand = 0)

/-- The second node is no deeper than the first, and where the first is steady the second has its
type or depth zero. -/
def Stands (x : Chain) (a : Arena) (s r : NodeId) : Prop :=
  s = r ∨ ((a.find? s).isSome = true ∧ (a.find? r).isSome = true) ∧ x.depth r ≤ x.depth s ∧
    (x.steady s → x.steady r ∧ (a.SameType s r ∨ x.depth r = 0))

/-- The numbers of the nodes of an arena are the same. -/
def Agrees (x : Chain) (a : Arena) (y : Chain) : Prop :=
  y.text = x.text ∧ ∀ id, (a.find? id).isSome = true →
    y.depth id = x.depth id ∧ (y.steady id ↔ x.steady id)

/-- The numbers of a new node. -/
def put (x : Chain) (id : NodeId) (depth : Nat) (steady : Prop) : Chain :=
  ⟨x.text, Function.update x.depth id depth, Function.update x.steady id steady⟩

theorem Agrees.refl (x : Chain) (a : Arena) : x.Agrees a x := ⟨rfl, fun _ _ => ⟨rfl, .rfl⟩⟩

theorem agrees_put {d : Nat} {p : Prop} : x.Agrees a (x.put ⟨a.size⟩ d p) := by
  refine ⟨rfl, fun id hid => ?_⟩
  have hne := Arena.ne_size_of_isSome hid
  simp only [put, Function.update_of_ne hne, true_and]

theorem depth_put {d : Nat} {p : Prop} : (x.put id d p).depth id = d := Function.update_self ..

theorem steady_put {d : Nat} {p : Prop} : (x.put id d p).steady id = p := Function.update_self ..

theorem Stands.present (h : x.Stands a s r) : a.Present s r := h.imp_right fun h => h.1.2

theorem Stands.depth_le (h : x.Stands a s r) : x.depth r ≤ x.depth s := by
  rcases h with rfl | h
  · exact Nat.le_refl _
  · exact h.2.1

theorem Stands.steady (h : x.Stands a s r) (hs : x.steady s) :
    x.steady r ∧ (a.SameType s r ∨ x.depth r = 0) := by
  rcases h with rfl | h
  · exact ⟨hs, .inl (.refl a s)⟩
  · exact h.2.2 hs

theorem Stands.trans (h : x.Stands a s r) (h' : x.Stands a r t) : x.Stands a s t := by
  rcases h with rfl | ⟨hp, hd, hs⟩
  · exact h'
  rcases h' with rfl | ⟨hp', hd', hs'⟩
  · exact .inr ⟨hp, hd, hs⟩
  refine .inr ⟨⟨hp.1, hp'.2⟩, hd'.trans hd, fun hsteady => ?_⟩
  obtain ⟨hr, htype⟩ := hs hsteady
  obtain ⟨ht, htype'⟩ := hs' hr
  refine ⟨ht, ?_⟩
  rcases htype with htype | hzero
  · exact htype'.imp_left htype.trans
  · exact .inr (Nat.le_zero.1 (hzero ▸ hd'))

theorem Stands.mono (h : x.Stands a s r) (hab : a.Evolves b) (hxy : x.Agrees a y) :
    y.Stands b s r := by
  refine h.imp_right fun ⟨⟨hs, hr⟩, hd, hsteady⟩ => ?_
  obtain ⟨hds, hss⟩ := hxy.2 s hs
  obtain ⟨hdr, hsr⟩ := hxy.2 r hr
  rw [hds, hdr, hss, hsr]
  exact ⟨⟨hab.isSome hs, hab.isSome hr⟩, hd, fun h => (hsteady h).imp_right fun h =>
    h.imp_left fun h => h.mono hab⟩

/-- The numbers are right for a node that changes only its flags and its span, in an arena that
continues the old one. -/
theorem Fits.mono (h : x.Fits a id n) (hab : a.Evolves b) (hxy : x.Agrees a y)
    (hid : (a.find? id).isSome = true) (hholds : a.Holds n.kind) (hk : m.kind = n.kind)
    (ht : m.type = n.type)
    (hf : m.flags.has .locationWrapper = n.flags.has .locationWrapper) : y.Fits b id m := by
  have hoperand : ∀ operand, n.behind? = some operand → (a.find? operand).isSome = true :=
    fun operand hb => hholds.nodes operand (Node.mem_nodes_of_behind? hb)
  have hpointer : ∀ pointer, n.kind = .unary .deref pointer → n.behind? = some pointer :=
    fun pointer hk => by simp only [Node.behind?, hk]
  refine ⟨fun operand hc => ?_, fun pointer hd => ?_, fun pointer hd => ?_, fun operand hw => ?_⟩
  · rw [Node.converted?_congr hk hf] at hc
    rw [(hxy.2 id hid).1, (hxy.2 operand (hoperand operand (Node.behind?_of_converted? hc))).1]
    exact h.convert operand hc
  · rw [hk] at hd
    obtain ⟨hdepth, hsteady⟩ := hxy.2 pointer (hoperand pointer (hpointer pointer hd))
    rw [(hxy.2 id hid).1, hdepth, hsteady]
    exact h.deref pointer hd
  · rw [hk] at hd
    rw [(hxy.2 id hid).2, (hxy.2 pointer (hoperand pointer (hpointer pointer hd))).2]
    exact h.pointer pointer hd
  · rw [Arena.wrapped?_congr hk hf] at hw
    obtain ⟨hdepth, hsteady⟩ := hxy.2 operand (hoperand operand (Node.behind?_of_wrapped? hw))
    rw [(hxy.2 id hid).2, hdepth, hsteady, ht]
    exact fun hs => (h.wrapper operand hw hs).imp_right fun h => h.imp_left hab.typeOf

/-- They are right when operands are exchanged for others that stand in their place. -/
theorem Fits.rewritten {k k' : NodeKind} (h : x.Fits a id { n with kind := k })
    (hk : k.Rewritten (x.Stands a) k')
    (hw : ∀ operand operand', k = .unary .viewConvert operand → k' = .unary .nonLvalue operand' →
      n.flags.has .locationWrapper = true) : x.Fits a id { n with kind := k' } where
  convert operand' hc := by
    obtain ⟨operand, hc, hs⟩ := Node.converted?_rewritten hk hw hc
    exact Nat.lt_of_le_of_lt hs.depth_le (h.convert operand hc)
  deref pointer hd := absurd hd (hk.ne_deref pointer)
  pointer pointer hd := absurd hd (hk.ne_deref pointer)
  wrapper operand' hw hsteady := by
    obtain ⟨operand, hw, hs⟩ := Node.wrapped?_rewritten hk hw
    obtain ⟨ho, htype⟩ := h.wrapper operand hw hsteady
    obtain ⟨ho', htype'⟩ := hs.steady ho
    refine ⟨ho', ?_⟩
    rcases htype with htype | hzero
    · exact htype'.imp_left fun h => h.typeOf htype
    · exact .inr (Nat.le_zero.1 (hzero ▸ hs.depth_le))

end Chain

namespace Reading

variable {a : Arena} {x : Chain}

/-- No handle dangles, and the numbers go down along texts and chains. -/
def chained : Reading Chain where
  Sound a x := spelled.Sound a x.text ∧ ∀ id n, a.find? id = some n → x.Fits a id n
  Fits a x id k := spelled.Fits a x.text id k ∧
    ∃ n, a.find? id = some n ∧ x.Fits a id { n with kind := k }
  Stands a x s r := x.Stands a s r
  Same a _ s r := a.Present s r
  Extends a x b y := (∀ id, (a.find? id).isSome = true → (b.find? id).isSome = true) ∧ x.Agrees a y

/-- A new expression has numbers of its own. -/
theorem chained_append {m : Node} {d : Nat} {p : Prop} (h : chained.Sound a x)
    (hm : m.kind.isExpression = true) (hev : a.Evolves (a.append m))
    (hclosed : (a.append m).Closed)
    (hfit : (x.put ⟨a.size⟩ d p).Fits (a.append m) ⟨a.size⟩ m) :
    chained.Sound (a.append m) (x.put ⟨a.size⟩ d p) := by
  refine ⟨⟨hclosed, fun id part hs => h.1.2 id part (Arena.spells_append hm hs)⟩,
    fun id n hn => ?_⟩
  rcases Arena.find?_append_cases hn with ⟨rfl, rfl⟩ | hold
  · exact hfit
  · exact (h.2 id n hold).mono hev Chain.agrees_put (Option.isSome_of_mem hold)
      (h.1.1.holds id n hold) rfl rfl rfl

theorem chained_extends {b : Arena} {y : Chain} (hev : a.Evolves b) (h : x.Agrees a y) :
    chained.Extends a x b y := ⟨fun _ => hev.isSome, h⟩

/-- A node is changed that keeps its numbers. -/
theorem chained_change {id : NodeId} {n : Node} {f : Node → Node} (h : chained.Sound a x)
    (hn : a.find? id = some n) (hb : n.Becomes (f n))
    (hspelled : spelled.Sound (a.change id f) x.text) (hholds : a.Holds (f n).kind)
    (hfit : x.Fits a id (f n)) :
    chained.Sound (a.change id f) x ∧ chained.Extends a x (a.change id f) x := by
  have hev := Arena.evolves_change hn hb
  refine ⟨⟨hspelled, fun other m hm => ?_⟩, chained_extends hev (.refl x a)⟩
  rcases Arena.find?_change_cases hn hm with ⟨rfl, rfl⟩ | hold
  · exact hfit.mono hev (.refl x a) (Option.isSome_of_mem hn) hholds rfl rfl rfl
  · exact (h.2 other m hold).mono hev (.refl x a) (Option.isSome_of_mem hold)
      (h.1.1.holds other m hold) rfl rfl rfl

/-- The operand of a location wrapper stands for it. -/
theorem chained_unwrap {w operand : NodeId} {n : Node} (h : chained.Sound a x)
    (hn : a.find? w = some n) (hw : n.wrapped? = some operand) : x.Stands a w operand := by
  have hoperand := (h.1.1.holds w n hn).nodes operand
    (Node.mem_nodes_of_behind? (Node.behind?_of_wrapped? hw))
  have hfit := h.2 w n hn
  refine .inr ⟨⟨Option.isSome_of_mem hn, hoperand⟩,
    (hfit.convert operand (Node.converted?_of_wrapped? hw)).le, fun hs => ?_⟩
  exact (hfit.wrapper operand hw hs).imp_right fun h => h.imp_left fun ht =>
    .inr ⟨n.type, Arena.map_node_of_find? hn, ht⟩

/-- The new dereference is no deeper than the old one, and needs no depth above a steady value. -/
theorem exists_depth {expr pointer value : NodeId} {n : Node}
    (hfit : x.Fits a expr { n with kind := .unary .deref pointer })
    (hs : x.Stands a pointer value) :
    ∃ d, (x.depth value < d ∨ x.steady value) ∧ d ≤ x.depth expr ∧ (x.steady value → d = 0) := by
  by_cases hv : x.steady value
  · exact ⟨0, .inr hv, Nat.zero_le _, fun _ => rfl⟩
  refine ⟨x.depth value + 1, .inl (Nat.lt_succ_self _), ?_, fun h => absurd h hv⟩
  rcases hfit.deref pointer rfl with hless | hp
  · exact Nat.lt_of_le_of_lt hs.depth_le hless
  · exact absurd (hs.steady hp).1 hv

theorem chained_dereference {expr pointer value target : NodeId} {span : Span} {flags : NodeFlags}
    (h : chained.Sound a x) (hfit : chained.Fits a x expr (.unary .deref pointer))
    (hs : x.Stands a pointer value) (ht : a.referent? value = some target)
    (hflags : (a.append ⟨.unary .deref value, some target, .empty, span⟩).derivedFlags
      ⟨.unary .deref value, some target, .empty, span⟩ = .ok flags)
    (hev : a.Evolves (a.append ⟨.unary .deref value, some target, flags, span⟩)) :
    ∃ y, chained.Sound (a.append ⟨.unary .deref value, some target, flags, span⟩) y ∧
      chained.Extends a x (a.append ⟨.unary .deref value, some target, flags, span⟩) y ∧
      y.Stands (a.append ⟨.unary .deref value, some target, flags, span⟩) expr ⟨a.size⟩ := by
  obtain ⟨_, ⟨hclosed, -⟩, -, -⟩ :=
    spelled_lawful.dereference h.1 hfit.1 hs.present trivial ht hflags hev
  obtain ⟨hspelled, n, hn, hfit⟩ := hfit
  have hvalue : (a.find? value).isSome = true :=
    hs.present.isSome (hspelled.1.nodes pointer (List.mem_singleton_self _))
  obtain ⟨d, hlink, hle, hzero⟩ := exists_depth hfit hs
  have hagrees : x.Agrees a (x.put ⟨a.size⟩ d (x.steady value)) := Chain.agrees_put
  have hnone : Node.converted? ⟨.unary .deref value, some target, flags, span⟩ = none :=
    Node.converted?_deref rfl
  refine ⟨_, chained_append h rfl hev hclosed ⟨?_, ?_, ?_, ?_⟩, chained_extends hev hagrees, ?_⟩
  · intro operand hc
    cases hnone.symm.trans hc
  · rintro _ ⟨⟩
    rw [Chain.depth_put, (hagrees.2 value hvalue).1, (hagrees.2 value hvalue).2]
    exact hlink
  · rintro _ ⟨⟩
    rw [Chain.steady_put, (hagrees.2 value hvalue).2]
    exact id
  · intro operand hw
    cases hnone.symm.trans (Node.converted?_of_wrapped? hw)
  · obtain ⟨hdepth, hsteady⟩ := hagrees.2 expr (Option.isSome_of_mem hn)
    refine .inr ⟨⟨hev.isSome (Option.isSome_of_mem hn),
      Option.isSome_of_mem (Arena.find?_append_new _ _)⟩, ?_, ?_⟩
    · rw [Chain.depth_put, hdepth]
      exact hle
    · rw [Chain.steady_put, Chain.depth_put, hsteady]
      intro he
      have hv := (hs.steady (hfit.pointer pointer rfl he)).1
      exact ⟨hv, .inr (hzero hv)⟩

/-- What loses its type has depth zero. -/
theorem chained_reference {expr pointer value : NodeId}
    (hfit : chained.Fits a x expr (.unary .deref pointer)) (hs : x.Stands a pointer value)
    (href : a.referent? pointer ≠ none) (hvalue : a.referent? value = none) :
    x.Stands a expr value := by
  obtain ⟨hspelled, n, hn, hfit⟩ := hfit
  have hpointer := hspelled.1.nodes pointer (List.mem_singleton_self _)
  have hpresent : (a.find? value).isSome = true := hs.present.isSome hpointer
  have hzero : x.steady pointer → x.steady value ∧ x.depth value = 0 := fun hp =>
    (hs.steady hp).imp_right fun h => h.resolve_left fun hsame =>
      href (hsame.referent?.symm.trans hvalue)
  refine .inr ⟨⟨Option.isSome_of_mem hn, hpresent⟩, ?_, fun he => ?_⟩
  · rcases hfit.deref pointer rfl with hless | hp
    · exact hs.depth_le.trans hless.le
    · exact (hzero hp).2 ▸ Nat.zero_le _
  · exact (hzero (hfit.pointer pointer rfl he)).imp_right .inr

theorem chained_reduce {expr : NodeId} {k k' : NodeKind} {type : Option NodeId} {span : Span}
    {flags : NodeFlags} (h : chained.Sound a x) (hfit : chained.Fits a x expr k)
    (hk : k.Rewritten a.Present k') (hacc : k.accessesObject = false)
    (hflags : (a.append ⟨k', type, .empty, span⟩).derivedFlags ⟨k', type, .empty, span⟩ =
      .ok flags)
    (hev : a.Evolves (a.append ⟨k', type, flags, span⟩)) :
    ∃ y, chained.Sound (a.append ⟨k', type, flags, span⟩) y ∧
      chained.Extends a x (a.append ⟨k', type, flags, span⟩) y ∧
      (a.append ⟨k', type, flags, span⟩).Present expr ⟨a.size⟩ := by
  obtain ⟨_, ⟨hclosed, -⟩, -, hs⟩ :=
    spelled_lawful.reduce h.1 hfit.1 hk hacc hflags hev
  have hholds : a.Holds k' := hfit.1.1.rewritten hk fun _ _ hs hr => hr.isSome hs
  let m : Node := ⟨k', type, flags, span⟩
  obtain ⟨d, hd⟩ : ∃ d, ∀ operand, m.converted? = some operand → x.depth operand < d := by
    cases m.converted? with
    | none => exact ⟨0, nofun⟩
    | some operand =>
      refine ⟨x.depth operand + 1, ?_⟩
      rintro _ ⟨⟩
      exact Nat.lt_succ_self _
  have hagrees : x.Agrees a (x.put ⟨a.size⟩ d False) := Chain.agrees_put
  refine ⟨_, chained_append h hk.isExpression_eq.2 hev hclosed ⟨fun operand hc => ?_, ?_, ?_, ?_⟩,
    chained_extends hev hagrees, hs⟩
  · have hoperand : (a.find? operand).isSome = true :=
      hholds.nodes operand (Node.mem_nodes_of_behind? (n := m) (Node.behind?_of_converted? hc))
    rw [Chain.depth_put, (hagrees.2 operand hoperand).1]
    exact hd operand hc
  · exact fun pointer hp => absurd hp (hk.ne_deref pointer)
  · exact fun pointer hp => absurd hp (hk.ne_deref pointer)
  · intro _ _ hsteady
    rw [Chain.steady_put] at hsteady
    exact hsteady.elim

theorem chained_lawful : chained.Lawful where
  extends_refl a x := ⟨fun _ h => h, .refl x a⟩
  extends_trans h h' := by
    refine ⟨fun id hid => h'.1 id (h.1 id hid), h'.2.1.trans h.2.1, fun id hid => ?_⟩
    obtain ⟨hd, hs⟩ := h.2.2 id hid
    obtain ⟨hd', hs'⟩ := h'.2.2 id (h.1 id hid)
    exact ⟨hd'.trans hd, hs'.trans hs⟩
  fits_mono hl h := by
    obtain ⟨hev, -, hxy⟩ := hl
    obtain ⟨hs, n, hn, hfit⟩ := h
    obtain ⟨m, hm, hnm⟩ := hev.node _ n hn
    refine ⟨spelled_lawful.fits_mono ⟨hev, hxy.1⟩ hs, m, hm, ?_⟩
    exact hfit.mono hev hxy (Option.isSome_of_mem hn) hs.1 rfl hnm.type_eq
      hnm.locationWrapper_eq
  stands_mono hl h := h.mono hl.1 hl.2.2
  same_mono hl h := h.imp_right hl.1.isSome
  stands_refl _ _ _ := .inl rfl
  stands_trans h h' := h.trans h'
  same_of_stands h := h.present
  same_trans h h' := h.trans h'
  fits_self h hn := ⟨spelled_lawful.fits_self h.1 hn, _, hn, h.2 _ _ hn⟩
  fits_rewritten h hk hw := by
    obtain ⟨hs, n, hn, hfit⟩ := h
    refine ⟨spelled_lawful.fits_rewritten hs (hk.imp fun _ _ h => h.present) hw, n, hn, ?_⟩
    refine hfit.rewritten hk fun operand operand' hv hv' => ?_
    obtain ⟨n', hn', hflag⟩ := hw operand operand' hv hv'
    cases hn.symm.trans hn'
    exact hflag
  unwrap := chained_unwrap
  touch := by
    intro a x id n f h hn hk ht hf hb _
    refine chained_change h hn hb (spelled_lawful.touch h.1 hn hk ht hf hb (.inr trivial)).1
      (hk ▸ h.1.1.holds id n hn) ?_
    exact (h.2 id n hn).mono (.refl a) (.refl x a) (Option.isSome_of_mem hn)
      (h.1.1.holds id n hn) hk ht (hf .locationWrapper (by decide))
  rebuild := by
    intro a x id n k flags h hn hfit hk hflags
    have hb := Arena.becomes_rebuilt hk hflags
    obtain ⟨hs, n', hn', hfit⟩ := hfit
    cases hn.symm.trans hn'
    refine chained_change h hn hb (spelled_lawful.rebuild h.1 hn hs hk hflags).1 hs.1 ?_
    exact hfit.mono (.refl a) (.refl x a) (Option.isSome_of_mem hn) hs.1 rfl rfl
      hb.locationWrapper_eq
  dereference h hfit hs _ := chained_dereference h hfit hs
  reference := chained_reference
  access h := spelled_lawful.access h.1
  reduce := chained_reduce
  nothing h := spelled_lawful.nothing h.1

end Reading

namespace Arena

variable {a : Arena}

/-- No handle dangles, and numbers go down along texts and along chains of conversions. -/
def Chained (a : Arena) : Prop := ∃ x, Reading.chained.Sound a x

theorem Chained.spellable (h : a.Chained) : a.Spellable := by
  obtain ⟨x, hx⟩ := h
  exact Reading.spellable_of_spelled hx.1

theorem Chained.marked {b : Arena} (h : a.Chained) (hm : a.Marked b) : b.Chained := by
  obtain ⟨x, hx⟩ := h
  exact ⟨x, (Reading.keeps_of_marked Reading.chained_lawful hm x hx).1⟩

theorem Chained.strippable (h : a.Chained) : a.Strippable := by
  obtain ⟨x, -, hfit⟩ := h
  refine not_transGen_self x.depth fun id operand hc => ?_
  obtain ⟨n, hn, hc⟩ := hc
  exact (hfit id n hn).convert operand hc

/-- Where no text is a part of itself and no chain comes back, there are such numbers. -/
theorem Spellable.chained (h : a.Spellable) (hturns : ∀ id, ¬ Relation.TransGen a.Turns id id) :
    a.Chained := by
  obtain ⟨text, htext, -⟩ := h.exists_text
  obtain ⟨depth, hdepth, -⟩ :=
    exists_rank (fun _ _ ht => h.closed.of_looksThrough ht.looksThrough) hturns
  refine ⟨⟨text, depth, fun id => ¬ a.Slips id⟩, ⟨h.closed, htext⟩, fun id n hn =>
    ⟨fun operand hc => hdepth id operand (.inl ⟨n, hn, hc⟩), fun pointer hk => ?_,
      fun pointer hk hs hp => hs (.deref hn hk hp), fun operand hw hs =>
        ⟨fun ho => hs (.wrapper hn hw ho), ?_⟩⟩⟩
  · by_cases hp : a.Slips pointer
    · exact .inl (hdepth id pointer (.inr ⟨hp, n, hn, hk⟩))
    · exact .inr hp
  · refine .inl (by_contra fun ht => hs (.mistyped hn hw ht))

theorem Sound.not_turns (h : a.Sound) (id : NodeId) : ¬ Relation.TransGen a.Turns id id :=
  fun hid => h.looking id (Relation.TransGen.mono (fun _ _ => Turns.looksThrough) id id hid)

theorem Sound.chained (h : a.Sound) : a.Chained := h.spellable.chained h.not_turns

end Arena

end ExprTree
