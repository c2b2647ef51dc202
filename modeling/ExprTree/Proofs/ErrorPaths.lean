import ExprTree.Proofs.Settled

/-!
# Errors below conditionals and commas

A conditional or a comma with a value leads to an error when it discards, along with its own value,
the value of an erroneous expression or of one that leads to an error, with or without a location
wrapper around it.  Uses exchange operands for others that still do, so the reduction of such an
expression finds the error, and answers with the error node.

* `Arena.LeadsToError` — expressions that lead to an error.
* `ErrorPaths`, `ErrorPaths.Sound` — the nodes and the operands on the way, as an annotation.
* `Reading.errors`, `Reading.errors_lawful` — passes keep the annotation.
* `Pass.toVoid_leadsToError` — the reduction of an expression that leads to an error.
-/

namespace ExprTree

namespace Arena

variable {a b : Arena} {id s r : NodeId}

/-- A node whose type is the error node. -/
def ErrorTyped (a : Arena) (id : NodeId) : Prop := a.typeOf id = .ok (some .error)

theorem isErroneous_eq_true_iff : a.isErroneous id = .ok true ↔ id = .error ∨ a.ErrorTyped id := by
  unfold isErroneous
  by_cases hid : id = .error
  · simp [hid]
  · rw [if_neg hid, map_eq_ok_iff]
    simp [hid, ErrorTyped]

theorem isErroneous_eq_false_iff : a.isErroneous id = .ok false ↔
    id ≠ .error ∧ ∃ type, a.typeOf id = .ok type ∧ type ≠ some .error := by
  unfold isErroneous
  by_cases hid : id = .error
  · simp [hid]
  · rw [if_neg hid, map_eq_ok_iff]
    simp [hid]

/-- An expression that is erroneous, or discards the value of such an expression along with a value
of its own; a location wrapper may be in between. -/
inductive LeadsToError (a : Arena) : NodeId → Prop
  | erroneous {id : NodeId} (h : a.isErroneous id = .ok true) : LeadsToError a id
  | branch {id op inner : NodeId} {n : Node} (hn : a.find? id = some n) (hvalue : ¬ a.Valueless n)
    (hop : op ∈ n.kind.branches) (hstrip : a.stripWrapper op = .ok inner)
    (h : LeadsToError a inner) : LeadsToError a id

/-- All nodes have the types that their operands give them, dereferences have pointers, and the
error node has its own type. -/
structure TracksErrors (a : Arena) : Prop where
  typed : ∀ id n, a.find? id = some n → a.Typed n
  pointer : ∀ id n, a.find? id = some n →
    ∀ pointer, n.kind = .unary .deref pointer → (a.find? pointer).isSome = true
  error : a.ErrorTyped .error

instance (a : Arena) : Decidable a.TracksErrors :=
  decidable_of_iff ((∀ n ∈ a.nodes.toList,
      a.Typed n ∧ ∀ pointer ∈ pointer? n, (a.find? pointer).isSome = true) ∧
      a.typeOf .error = .ok (some .error))
    ⟨fun h => ⟨fun id n hn => (forall_find?_iff.2 h.1 id n hn).1,
        fun id n hn pointer hk =>
          (forall_find?_iff.2 h.1 id n hn).2 pointer (pointer?_eq_some_iff.2 hk), h.2⟩,
      fun h => ⟨forall_find?_iff.1 fun id n hn => ⟨h.typed id n hn,
        fun pointer hp => h.pointer id n hn pointer (pointer?_eq_some_iff.1 hp)⟩, h.error⟩⟩

end Arena

/-- The conditionals and commas on the way to an error, and the operands through which it leads;
nodes whose type is the error node need not be listed. -/
structure ErrorPaths where
  nodes : NodeId → Prop
  operands : NodeId → Prop

namespace ErrorPaths

open Arena

variable {x : ErrorPaths} {a b : Arena} {n m : Node} {id : NodeId} {k k' : NodeKind}

/-- The node has the types that its operands give it, and if it is listed the way goes on. -/
structure Fits (x : ErrorPaths) (a : Arena) (id : NodeId) (n : Node) : Prop where
  typed : a.Typed n
  pointer : ∀ pointer, n.kind = .unary .deref pointer → (a.find? pointer).isSome = true
  branch : x.nodes id → ¬ a.Valueless n ∧ ∃ op ∈ n.kind.branches, x.operands op ∨ a.ErrorTyped op
  bare : x.operands id → n.wrapped? = none → n.type = some .error ∨ x.nodes id
  wrapper : x.operands id → ∀ operand, n.wrapped? = some operand →
    a.ErrorTyped operand ∨ x.nodes operand

/-- All listed nodes and operands lead on, and the error node has its own type. -/
structure Sound (x : ErrorPaths) (a : Arena) : Prop where
  fits : ∀ id n, a.find? id = some n → x.Fits a id n
  error : a.ErrorTyped .error
  isSome : ∀ id, x.operands id → (a.find? id).isSome = true
  operand : ∀ id, x.nodes id → x.operands id

/-- An operand for another of the same type, through which the way goes on if it did before. -/
structure Stands (x : ErrorPaths) (a : Arena) (s r : NodeId) : Prop where
  type : a.SameType s r
  nodes : x.nodes s → x.nodes r
  operands : x.operands s → x.operands r ∨ a.ErrorTyped r

namespace Stands

variable {s r t : NodeId}

theorem refl (x : ErrorPaths) (a : Arena) (s : NodeId) : x.Stands a s s :=
  ⟨.refl a s, id, .inl⟩

theorem errorTyped (h : x.Stands a s r) (hs : a.ErrorTyped s) : a.ErrorTyped r := h.type.typeOf hs

theorem leads (h : x.Stands a s r) (hs : x.operands s ∨ a.ErrorTyped s) :
    x.operands r ∨ a.ErrorTyped r :=
  hs.elim h.operands fun hs => .inr (h.errorTyped hs)

theorem trans (h : x.Stands a s r) (h' : x.Stands a r t) : x.Stands a s t :=
  ⟨h.type.trans h'.type, fun hs => h'.nodes (h.nodes hs), fun hs => h'.leads (h.operands hs)⟩

theorem mono (hab : a.Evolves b) (h : x.Stands a s r) : x.Stands b s r :=
  ⟨h.type.mono hab, h.nodes, fun hs => (h.operands hs).imp_right hab.typeOf⟩

end Stands

namespace Fits

theorem congr (h : x.Fits a id n) (hk : m.kind = n.kind) (ht : m.type = n.type)
    (hf : m.flags.has .locationWrapper = n.flags.has .locationWrapper) : x.Fits a id m where
  typed := h.typed.congr hk ht hf
  pointer pointer hm := h.pointer pointer (hk ▸ hm)
  branch hx := by
    unfold Valueless
    rw [hk, ht]
    exact h.branch hx
  bare hx hw := by
    rw [ht]
    exact h.bare hx (wrapped?_congr hk hf ▸ hw)
  wrapper hx operand hw := h.wrapper hx operand (wrapped?_congr hk hf ▸ hw)

theorem mono (hab : a.Evolves b) (h : x.Fits a id n) : x.Fits b id n where
  typed := h.typed.mono hab.typesAgree h.pointer
  pointer pointer hk := hab.isSome (h.pointer pointer hk)
  branch hx := by
    obtain ⟨hvalue, op, hop, hlead⟩ := h.branch hx
    exact ⟨mt (valueless_evolve hab).2 hvalue, op, hop, hlead.imp_right hab.typeOf⟩
  bare := h.bare
  wrapper hx operand hw := (h.wrapper hx operand hw).imp_left hab.typeOf

/-- Exchanged operands go on to the error. -/
theorem rewritten (h : x.Fits a id { n with kind := k }) (hk : k.Rewritten (x.Stands a) k') :
    x.Fits a id { n with kind := k' } where
  typed := h.typed.rewritten hk fun _ _ hs => hs.type
  pointer pointer hd := absurd hd (hk.ne_deref pointer)
  branch hx := by
    obtain ⟨hvalue, op, hop, hlead⟩ := h.branch hx
    refine ⟨hvalue, ?_⟩
    obtain ⟨i, hi, rfl⟩ := List.getElem_of_mem hop
    have hi' : i < k'.branches.length := hk.branches.length_eq ▸ hi
    exact ⟨_, List.getElem_mem hi', (hk.branches.get hi hi').leads hlead⟩
  bare hx hw := h.bare hx (Node.wrapped?_rewritten_eq_none hk hw)
  wrapper hx operand' hw := by
    obtain ⟨operand, hw, hs⟩ := Node.wrapped?_rewritten hk hw
    exact (h.wrapper hx operand hw).imp hs.errorTyped hs.nodes

/-- A dereference that is listed has the error type. -/
theorem errorTyped_of_deref {pointer : NodeId} (h : x.Fits a id n)
    (hk : n.kind = .unary .deref pointer) (hx : x.operands id) : n.type = some .error := by
  refine (h.bare hx (Node.wrapped?_deref hk)).resolve_right fun hx => ?_
  obtain ⟨-, op, hop, -⟩ := h.branch hx
  rw [hk] at hop
  cases hop

end Fits

/-- It is enough to look at nodes that are new or changed. -/
theorem Sound.of_evolves (h : x.Sound a) (hab : a.Evolves b)
    (hnode : ∀ id m, b.find? id = some m → a.find? id = some m ∨ x.Fits b id m) : x.Sound b where
  fits id m hm := (hnode id m hm).elim (fun hm => (h.fits id m hm).mono hab) fun hm => hm
  error := hab.typeOf h.error
  isSome id hx := hab.isSome (h.isSome id hx)
  operand := h.operand

theorem Sound.change {f : Node → Node} (h : x.Sound a) (hn : a.find? id = some n)
    (hb : n.Becomes (f n)) (hf : x.Fits a id (f n)) : x.Sound (a.change id f) := by
  have hev := evolves_change hn hb
  refine h.of_evolves hev fun other m hm => ?_
  rcases find?_change_cases hn hm with ⟨rfl, rfl⟩ | hm
  · exact .inr (hf.mono hev)
  · exact .inl hm

/-- A new node is not listed. -/
theorem Sound.append (h : x.Sound a) (hev : a.Evolves (a.append m)) (ht : (a.append m).Typed m)
    (hp : ∀ pointer, m.kind = .unary .deref pointer → (a.find? pointer).isSome = true) :
    x.Sound (a.append m) := by
  refine h.of_evolves hev fun other n hn => ?_
  rcases find?_append_cases hn with ⟨rfl, rfl⟩ | hn
  · -- listed operands are there already
    have hnew : ¬ x.operands ⟨a.size⟩ := fun hx => ne_size_of_isSome (h.isSome _ hx) rfl
    exact .inr ⟨ht, fun pointer hk => hev.isSome (hp pointer hk),
      fun hx => absurd (h.operand _ hx) hnew, fun hx => absurd hx hnew, fun hx => absurd hx hnew⟩
  · exact .inl hn

/-- Behind the location wrapper of a listed operand there is the error, or a node on the way. -/
theorem Sound.stripped {inner : NodeId} (h : x.Sound a) (hx : x.operands id)
    (hs : a.stripWrapper id = .ok inner) : a.ErrorTyped inner ∨ x.nodes inner := by
  obtain ⟨n, hn, rfl⟩ := map_eq_ok_iff.1 hs
  have hfits := h.fits id n (node_eq_ok_iff.1 hn)
  cases hw : n.wrapped? with
  | some operand => exact hfits.wrapper hx operand hw
  | none => exact (hfits.bare hx hw).imp_left fun ht => map_eq_ok_iff.2 ⟨n, hn, ht⟩

end ErrorPaths

namespace Arena

open ErrorPaths

variable {a : Arena} {id : NodeId} {n : Node}

/-- A node of which a branch leads to an error. -/
def LeadsByBranch (a : Arena) (id : NodeId) : Prop :=
  ∃ n op inner, a.find? id = some n ∧ ¬ a.Valueless n ∧ op ∈ n.kind.branches ∧
    a.stripWrapper op = .ok inner ∧ a.LeadsToError inner

/-- All ways to errors. -/
def errorPaths (a : Arena) : ErrorPaths where
  nodes := a.LeadsByBranch
  operands id := ∃ inner, a.stripWrapper id = .ok inner ∧ a.LeadsToError inner

theorem LeadsToError.cases (ha : a.TracksErrors) (h : a.LeadsToError id) :
    a.ErrorTyped id ∨ a.LeadsByBranch id := by
  cases h with
  | erroneous h =>
    rcases isErroneous_eq_true_iff.1 h with rfl | h
    · exact .inl ha.error
    · exact .inl h
  | branch hn hvalue hop hstrip h => exact .inr ⟨_, _, _, hn, hvalue, hop, hstrip, h⟩

theorem wrapped?_eq_none_of_branch {op : NodeId} (hop : op ∈ n.kind.branches) :
    n.wrapped? = none := by
  refine Option.eq_none_iff_forall_ne_some.2 fun operand hw => ?_
  rcases (Node.wrapped?_eq_some_iff.1 hw).2 with hk | hk <;> rw [hk] at hop <;> cases hop

theorem TracksErrors.sound (ha : a.TracksErrors) : a.errorPaths.Sound a where
  fits id n hn := by
    have hnode : a.node id = .ok n := node_eq_ok_iff.2 hn
    have hstrip : ∀ {inner}, a.stripWrapper id = .ok inner → n.wrapped?.getD id = inner :=
      fun hs => Except.ok.inj ((map_node_of_find? hn).symm.trans hs)
    refine ⟨ha.typed id n hn, ha.pointer id n hn, ?_, ?_, ?_⟩
    · rintro ⟨m, op, inner, hm, hvalue, hop, hs, h⟩
      cases hn.symm.trans hm
      exact ⟨hvalue, op, hop, .inl ⟨inner, hs, h⟩⟩
    · rintro ⟨inner, hs, h⟩ hw
      obtain rfl : id = inner := by simpa [hw] using hstrip hs
      refine (h.cases ha).imp_left fun ht => ?_
      obtain ⟨m, hm, ht⟩ := map_eq_ok_iff.1 ht
      cases hnode.symm.trans hm
      exact ht
    · rintro ⟨inner, hs, h⟩ operand hw
      obtain rfl : operand = inner := by simpa [hw] using hstrip hs
      exact h.cases ha
  error := ha.error
  isSome id := by
    rintro ⟨inner, hs, -⟩
    obtain ⟨n, hn, -⟩ := map_eq_ok_iff.1 hs
    rw [node_eq_ok_iff.1 hn]
    rfl
  operand id := by
    rintro ⟨n, op, inner, hn, hvalue, hop, hs, h⟩
    refine ⟨id, ?_, .branch hn hvalue hop hs h⟩
    have hbare := wrapped?_eq_none_of_branch hop
    exact map_eq_ok_iff.2 ⟨n, node_eq_ok_iff.2 hn, by rw [hbare]; rfl⟩

end Arena

namespace Reading

open Arena

/-- Arenas with ways to errors. -/
def errors : Reading ErrorPaths where
  Sound a x := x.Sound a
  Fits a x id k := ∃ n, a.find? id = some n ∧ x.Fits a id { n with kind := k }
  Stands a x s r := x.Stands a s r
  Same _ _ _ _ := True
  Extends _ x _ y := x = y

variable {x : ErrorPaths} {a : Arena} {n : Node} {expr pointer value : NodeId} {k k' : NodeKind}

/-- The operand of a location wrapper leads on if the wrapper does. -/
theorem errors_unwrap (h : x.Sound a) (hn : a.find? expr = some n)
    (hw : n.wrapped? = some value) : x.Stands a expr value := by
  have hfits := h.fits expr n hn
  have htype : a.typeOf expr = .ok n.type :=
    map_eq_ok_iff.2 ⟨n, node_eq_ok_iff.2 hn, rfl⟩
  refine ⟨.inr ⟨n.type, htype, hfits.typed.wrapper value hw⟩, fun hx => ?_, fun hx => ?_⟩
  · obtain ⟨-, op, hop, -⟩ := hfits.branch hx
    rcases (Node.wrapped?_eq_some_iff.1 hw).2 with hk | hk <;> rw [hk] at hop <;> cases hop
  · exact (hfits.wrapper hx value hw).symm.imp_left (h.operand value)

theorem errors_dereference {target : NodeId} {span : Span} {flags : NodeFlags} (h : x.Sound a)
    (hfit : errors.Fits a x expr (.unary .deref pointer)) (hstand : x.Stands a pointer value)
    (hv : a.referent? value = some target)
    (hev : a.Evolves (a.append ⟨.unary .deref value, some target, flags, span⟩)) :
    x.Sound (a.append ⟨.unary .deref value, some target, flags, span⟩) ∧
      x.Stands (a.append ⟨.unary .deref value, some target, flags, span⟩) expr ⟨a.size⟩ := by
  obtain ⟨n, hn, hfit⟩ := hfit
  have htype : n.type = some target :=
    hfit.typed.deref pointer target rfl (hstand.type.referent?.symm.trans hv)
  have hvalue : (a.find? value).isSome = true := isSome_of_referent? hv
  have hold : (a.append ⟨.unary .deref value, some target, flags, span⟩).typeOf expr =
      .ok (some target) :=
    hev.typeOf (map_eq_ok_iff.2 ⟨n, node_eq_ok_iff.2 hn, htype⟩)
  have hnew : (a.append ⟨.unary .deref value, some target, flags, span⟩).typeOf ⟨a.size⟩ =
      .ok (some target) :=
    map_eq_ok_iff.2 ⟨_, node_eq_ok_iff.2 (find?_append_new ..), rfl⟩
  refine ⟨h.append hev ⟨fun pointer' target' hk hr => ?_, fun operand hw => ?_⟩ ?_, ?_, ?_, ?_⟩
  · cases hk
    rw [hev.referent? hv] at hr
    exact hr
  · cases (Node.wrapped?_deref rfl).symm.trans hw
  · rintro _ ⟨⟩
    exact hvalue
  · exact .inr ⟨_, hold, hnew⟩
  · intro hx
    obtain ⟨-, op, hop, -⟩ := hfit.branch hx
    cases hop
  · -- a dereference on the way to an error has the error type, which the new one has, too
    intro hx
    have herror : n.type = some .error := hfit.errorTyped_of_deref rfl hx
    rw [htype] at herror
    exact .inr (hnew.trans (congrArg Except.ok herror))

theorem errors_reduce {type : Option NodeId} {span : Span} {flags : NodeFlags} (h : x.Sound a)
    (hk : k.Rewritten (errors.Same a x) k')
    (hflags : (a.append ⟨k', type, .empty, span⟩).derivedFlags ⟨k', type, .empty, span⟩ =
      .ok flags)
    (hev : a.Evolves (a.append ⟨k', type, flags, span⟩)) :
    x.Sound (a.append ⟨k', type, flags, span⟩) := by
  refine h.append hev ⟨fun pointer target hd hr => ?_, fun operand hw => ?_⟩ fun pointer hd => ?_
  · exact absurd hd (hk.ne_deref pointer)
  · obtain ⟨hw, -⟩ := Node.wrapped?_eq_some_iff.1 hw
    exact absurd (flag_of_has_derivedFlags hflags hw) (by decide)
  · exact absurd hd (hk.ne_deref pointer)

theorem errors_lawful : errors.Lawful where
  extends_refl _ _ := rfl
  extends_trans h h' := h.trans h'
  fits_mono := by
    rintro a x b _ id k ⟨hev, rfl⟩ ⟨n, hn, hfit⟩
    obtain ⟨m, hm, hnm⟩ := hev.node id n hn
    exact ⟨m, hm, (hfit.mono hev).congr rfl hnm.type_eq
      hnm.locationWrapper_eq⟩
  stands_mono := by
    rintro a x b _ s r ⟨hev, rfl⟩ h
    exact h.mono hev
  same_mono _ _ := trivial
  stands_refl a x s := .refl x a s
  stands_trans h h' := h.trans h'
  same_of_stands _ := trivial
  same_trans _ _ := trivial
  fits_self h hn := ⟨_, hn, h.fits _ _ hn⟩
  fits_rewritten := fun ⟨n, hn, hfit⟩ hk _ => ⟨n, hn, hfit.rewritten hk⟩
  unwrap := errors_unwrap
  touch h hn hk ht hf hb _ :=
    ⟨h.change hn hb ((h.fits _ _ hn).congr hk ht (hf _ (by decide))), rfl⟩
  rebuild := by
    rintro a x id n k flags h hn ⟨m, hm, hfit⟩ hk hflags
    cases hn.symm.trans hm
    have hb := becomes_rebuilt hk hflags
    exact ⟨h.change hn hb
      (hfit.congr rfl rfl hb.locationWrapper_eq), rfl⟩
  dereference h hfit hs _ hv _ hev :=
    ⟨_, (errors_dereference h hfit hs hv hev).1, rfl, (errors_dereference h hfit hs hv hev).2⟩
  reference _ hs hp hv := absurd (hs.type.referent?.symm.trans hv) hp
  access _ _ _ _ _ := trivial
  reduce h _ hk _ hf hev := ⟨_, errors_reduce h hk hf hev, rfl, trivial⟩
  nothing _ _ := trivial

end Reading

namespace Pass

open ExprTree.Action Reading

variable {x : ErrorPaths} {cx : Context} {expr : NodeId} {loc : Span} {site : DiscardSite}
  {self : NodeId × DiscardSite → Pass NodeId}

/-- The answer of a reduction is the error node where the way leads to an error, and the way stays
open. -/
def FindsErrors (cx : Context) (x : ErrorPaths) (expr r : NodeId) (t : Context) : Prop :=
  errors.Reduces cx x expr r t ∧ (x.operands expr ∨ cx.arena.ErrorTyped expr → r = .error)

section Void

variable (hself : ∀ p t y, errors.Sound t.arena y → wlp (self p) (FindsErrors t y p.1) t)
include hself

/-- One of the branches leads on to the error. -/
theorem voidCond_findsErrors {first third op : NodeId} {second : Option NodeId}
    (hx : x.Sound cx.arena) (hop : op ∈ second.toList ++ [third])
    (hlead : x.operands op ∨ cx.arena.ErrorTyped op) :
    wlp (voidCond self expr first second third loc site) (fun o _ => o = none) cx := by
  have hsecond : ∀ place, wlp (second.mapM fun op => self (op, place)) (fun o t =>
      x.Sound t.arena ∧ cx.arena.Evolves t.arena ∧ (op ∈ second → o = some .error)) cx := by
    intro place
    rw [wlp_mapM]
    cases second with
    | none => exact ⟨hx, .refl _, nofun⟩
    | some op' =>
      refine (hself _ cx x hx).mono ?_
      rintro r t ⟨⟨_, ht, ⟨hev, rfl⟩, _⟩, hr⟩
      refine ⟨ht, hev, ?_⟩
      rintro ⟨⟩
      exact congrArg some (hr hlead)
  refine wlp_voidCond hsecond ?_
  rintro o t place ⟨ht, hev, ho⟩
  refine (hself _ t x ht).mono ?_
  rintro r u ⟨-, hr⟩
  have herror : o = some .error ∨ r = .error := by
    rw [List.mem_append, Option.mem_toList, List.mem_singleton] at hop
    rcases hop with hop | rfl
    · exact .inl (ho hop)
    · exact .inr (hr (hlead.imp_right hev.typeOf))
  exact ⟨fun _ => rfl, fun ho' hr' _ => (herror.elim ho' hr').elim,
    fun ho' hr' _ => (herror.elim ho' hr').elim⟩

theorem voidByKind_findsErrors {n : Node} {op type : NodeId} (hx : x.Sound cx.arena)
    (hn : cx.arena.find? expr = some n) (hop : op ∈ n.kind.branches)
    (hlead : x.operands op ∨ cx.arena.ErrorTyped op) :
    wlp (voidByKind self expr type loc site) (fun o _ => o = none) cx := by
  refine wlp_voidByKind hn (fun _ _ _ hk => ?_) (fun lhs rhs hk => ?_) (fun _ hk => ?_)
    fun hcond hcomma _ _ => ?_
  · rw [hk] at hop
    exact voidCond_findsErrors hself hx hop hlead
  · obtain rfl : op = rhs := by simpa [hk, NodeKind.branches] using hop
    refine wlp_voidComma fun place => (hself _ cx x hx).mono ?_
    rintro r t ⟨-, hr⟩
    exact ⟨fun _ => rfl, fun hne _ => absurd (hr hlead) hne, fun hne _ => absurd (hr hlead) hne⟩
  · rw [hk] at hop
    cases hop
  · rw [NodeKind.branches_eq_nil hcond hcomma] at hop
    cases hop

theorem voidNode_findsErrors (cx : Context) (hx : x.Sound cx.arena) (hexpr : x.operands expr) :
    wlp (voidNode self expr loc site) (fun r _ => r = .error) cx := by
  refine wlp_voidNode_of_not_erroneous
    (classifyDiscarded_stripped errors_lawful expr cx ⟨hx, trivial⟩) (fun _ _ _ => rfl) ?_
  rintro r t u ⟨_, hy, ⟨hev, rfl⟩, hr⟩ herr hmark
  obtain ⟨hne, type, htype, hnot⟩ := Arena.isErroneous_eq_false_iff.1 herr
  obtain ⟨inner, hinner, hstand⟩ := hr hne
  -- the use exchanged operands on the way, but did not leave it
  have hnode : x.nodes r := by
    refine hstand.nodes ((hx.stripped hexpr hinner).resolve_left fun h => ?_)
    cases htype.symm.trans (hstand.errorTyped (hev.typeOf h))
    exact hnot rfl
  obtain ⟨hu, -⟩ := keeps_of_marked errors_lawful hmark x hy
  obtain ⟨m, hm⟩ := Option.isSome_iff_exists.1 (hu.isSome r (hu.operand r hnode))
  obtain ⟨hvalue, op, hop, hlead⟩ := (hu.fits r m hm).branch hnode
  refine wlp_voidTyped (fun n hn hless => ?_) fun n type hn _ _ => ?_
  · cases hm.symm.trans hn
    exact absurd hless hvalue
  · refine (voidByKind_findsErrors hself hu hm hop hlead).mono fun o v ho => ⟨fun e he => ?_,
      fun _ => rfl⟩
    cases ho.symm.trans he

theorem toVoidStep_findsErrors (cx : Context) (hx : x.Sound cx.arena) :
    wlp (toVoidStep self (expr, site)) (FindsErrors cx x expr) cx := by
  have hreduces : wlp (toVoidStep self (expr, site)) (errors.Reduces cx x expr) cx :=
    toVoidStep_reduces errors_lawful cx
      (fun p t y hy => (hself p t y hy.sound).mono fun _ _ h => h.1) ⟨hx, trivial⟩
  have hfinds : x.operands expr ∨ cx.arena.ErrorTyped expr →
      wlp (toVoidStep self (expr, site)) (fun r _ => r = .error) cx := by
    rintro (hexpr | hexpr)
    · exact wlp_toVoidStep (Q := fun r _ => r = .error) rfl
        fun _ inner => voidNode_findsErrors hself { cx with nesting := inner } hx hexpr
    · unfold toVoidStep
      rw [wlp_bind, wlp_query]
      intro erroneous herr
      cases (Arena.isErroneous_eq_true_iff.2 (.inr hexpr)).symm.trans herr
      exact wlp_pure.2 rfl
  exact fun r t hrun => ⟨hreduces r t hrun, fun hexpr => hfinds hexpr r t hrun⟩

end Void

/-- The reduction of an expression that leads to an error, with or without a location wrapper
around it, answers with the error node. -/
theorem toVoid_leadsToError {inner : NodeId} (ha : cx.arena.TracksErrors)
    (hstrip : cx.arena.stripWrapper expr = .ok inner) (h : cx.arena.LeadsToError inner) :
    wlp (toVoid expr site) (fun r _ => r = .error) cx :=
  (wlp_recursively_admits Prod.fst
    (P := fun cx x (p : NodeId × DiscardSite) => FindsErrors cx x p.1)
    (fun _ hself _ cx _ hx => toVoidStep_findsErrors (fun p t y hy => hself p t y ⟨hy, trivial⟩)
      cx hx.sound) (expr, site) cx ⟨ha.sound, trivial⟩).mono
      fun _ _ hr => hr.2 (.inl ⟨inner, hstrip, h⟩)

end Pass

end ExprTree
