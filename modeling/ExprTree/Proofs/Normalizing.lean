import ExprTree.Proofs.NormalForms
import ExprTree.Proofs.ReadPaths

/-!
# Uses lead to normal forms

A use that answers with another node than the error node answers with a node in normal form, and
upholds all normal forms that there are.  A node is given another operand by its own use alone: were
the node in normal form already, the use of its operand would have answered with the operand.  That
the operand had another kind when it was used does not matter, for its kind is what it was until its
use is concluded.

* `Arena.Retains` — an arena that has evolved, with the kinds that it had.
* `Arena.Classified.eq_of_leaf`, `Arena.Classified.eq_of_normal` — uses that answer with the node.
* `Arena.Classified.recorded` — what is recorded of a node is recorded of its use.
* `Arena.Classified.upholds`, `Arena.Classified.normal` — normal forms stay, and the answer is one.
-/

namespace ExprTree

theorem NodeKind.Carries.isExchangeable {k : NodeKind} {op : NodeId} {f : NodeId → NodeKind}
    (h : k.Carries op f) : k.isExchangeable = true := by
  cases h with
  | component | comma | branch => rfl
  | @transparent op' _ hop => cases op' <;> first | rfl | cases hop

namespace Arena

variable {R : Recording} {a b c d e : Arena} {id expr op r v : NodeId} {n m : Node} {k : NodeKind}
  {room level : Nat} {mode mode' : UseMode}

/-! ### Uses that answer with the node -/

theorem Classified.isSome (h : Classified R room mode a expr b r) :
    (a.find? expr).isSome = true := by
  cases h with
  | erroneous herr hexpr =>
    obtain ⟨n, hn, -⟩ := map_eq_ok_iff.1 ((isErroneous_eq_true_iff.1 herr).resolve_left hexpr)
    exact Option.isSome_of_mem (node_eq_ok_iff.1 hn)
  | rest h | node h | cond h =>
    exact Option.isSome_iff_exists.2 (exists_find?_of_not_erroneous h.accepted)

/-- A use only answers with a declaration or a constant that it is the use of. -/
theorem Classified.eq_of_leaf (h : Classified R room mode a expr b r) (hleaf : b.Leaf r) :
    r = expr := by
  induction h with
  | erroneous | rest | cond => rfl
  | @node room mode a b c d expr op v r n loc h hops hop hd ih =>
    cases hd with
    | exchanged | kept | same => rfl
    | dropped _ _ hnot hd =>
      rcases hd with rfl | ⟨span, m, hm, rfl⟩
      · exact absurd hleaf hnot
      · exact absurd (hleaf.of_evolves (evolves_moved hm) (Option.isSome_of_mem hm)) hnot
    | lost _ hother _ => exact absurd (ih hleaf) hother
    | built =>
      obtain ⟨m, hm, hk⟩ := hleaf
      cases (find?_append_new _ _).symm.trans hm
      cases hk

theorem useOperands_of_leaf (hk : (n.kind.isDecl || n.kind.isConstant) = true) :
    a.useOperands n = [] := by
  obtain ⟨kind, type, flags, span⟩ := n
  cases kind <;> first | rfl | cases hk

/-- The use of a declaration or a constant answers with it. -/
theorem Classified.leaf_stays (hR : R.Marks) (h : Classified R room mode a expr b r)
    (hleaf : a.Leaf expr) : r = expr := by
  cases h with
  | erroneous | rest | cond => rfl
  | node h hops _ _ =>
    obtain ⟨m, hm, hk⟩ := hleaf.mono (h.marked hR).evolves
    cases h.node.symm.trans hm
    cases (useOperands_of_leaf hk).symm.trans hops

/-! ### Later arenas -/

/-- An arena has evolved, and location wrappers that wrap neither a declaration nor a constant are
what they were. -/
structure Retains (a b : Arena) : Prop where
  evolves : a.Evolves b
  wrapper : ∀ id n op, a.find? id = some n → n.kind = .unary .viewConvert op →
    n.wrapped? = some op → (a.find? op).isSome = true → ¬ a.Leaf op →
      ∃ m, b.find? id = some m ∧ m.kind = n.kind

theorem Evolves.retains (h : a.Evolves b) (hkinds : KeepsKinds (fun _ => True) a b) :
    a.Retains b := ⟨h, fun id n _ hn _ _ _ _ => hkinds id n trivial hn⟩

theorem Retains.refl (a : Arena) : a.Retains a := (Evolves.refl a).retains (.refl _ a)

theorem Retains.trans (h : a.Retains b) (h' : b.Retains c) : a.Retains c where
  evolves := h.evolves.trans h'.evolves
  wrapper id n op hn hk hw hop hleaf := by
    obtain ⟨m, hm, hkm⟩ := h.wrapper id n op hn hk hw hop hleaf
    obtain ⟨l, hl, hkl⟩ := h'.wrapper id m op hm (hkm.trans hk)
      ((h.evolves.wrapped?_eq hn hm hkm).trans hw) (h.evolves.isSome hop)
      fun hb => hleaf (hb.of_evolves h.evolves hop)
    exact ⟨l, hl, hkl.trans hkm⟩

theorem retains_rebuilt (hb : a.Rebuilt expr k b) (hn : a.find? expr = some n)
    (hk : k.skeleton = n.kind.skeleton)
    (hwrapper : ∀ op, n.kind = .unary .viewConvert op → n.wrapped? = some op → a.Leaf op) :
    a.Retains b := by
  refine ⟨evolves_rebuilt hb hn hk, fun id m op hm hkm hw _ hleaf => ?_⟩
  obtain ⟨n', f, hn', -, rfl⟩ := hb
  by_cases hid : id = expr
  · subst hid
    cases hn.symm.trans hm
    exact absurd (hwrapper op hkm hw) hleaf
  · exact ⟨m, by rw [find?_change, if_neg hid, hm], rfl⟩

theorem Concludes.retains (hR : R.Marks) (h : Concludes R room mode expr n op c v d r)
    (hop : Classified R level mode' b op c v) (hm : c.find? expr = some m) (hk : m.kind = n.kind)
    (hw : m.wrapped? = n.wrapped?) : c.Retains d := by
  cases h with
  | @exchanged f _ hf hnone hd =>
    rcases hd with ⟨-, rfl⟩ | ⟨-, hd⟩
    · exact .refl _
    · rw [← hk] at hf
      refine retains_rebuilt hd hm hf.skeleton_eq fun o _ ho => ?_
      cases ho.symm.trans (hw.trans hnone)
  | kept hkind hwrapped hleaf hd =>
    obtain rfl := hop.eq_of_leaf hleaf
    refine retains_rebuilt hd hm ?_ fun o _ ho => ?_
    · rw [hk, hkind]
      cases mode.rvalue <;> rfl
    · cases ho.symm.trans (hw.trans hwrapped)
      exact hleaf
  | dropped _ _ _ hd =>
    rcases hd with rfl | ⟨span, m', hm', rfl⟩
    · exact .refl _
    · exact (evolves_moved hm').retains (keepsKinds_change hm' fun _ => rfl)
  | same | lost => exact .refl _
  | built _ _ _ hread hf =>
    have hmark := hR _ _ _ _ hread
    exact (hmark.evolves.trans (evolves_append_access hf rfl)).retains
      (hmark.keepsKinds.trans keepsKinds_append)

theorem Classified.retains (hR : R.Marks) (h : Classified R room mode a expr b r) :
    a.Retains b := by
  induction h with
  | erroneous => exact .refl _
  | rest h => exact (h.marked hR).evolves.retains (h.marked hR).keepsKinds
  | node h hops hop hd ih =>
    have hmark := h.marked hR
    obtain ⟨m, hm, hk, hw, -⟩ := hop.user hR (hmark.evolves.isErroneous h.accepted) h.node
      (hops ▸ List.mem_singleton_self _)
    exact ((hmark.evolves.retains hmark.keepsKinds).trans ih).trans
      (hd.retains hR hop hm hk hw)
  | cond h hk hsecond hthird he ih ih' =>
    have hmark := h.marked hR
    have hhead := ((hmark.evolves.retains hmark.keepsKinds).trans ih).trans ih'
    obtain ⟨m, hm, hkm⟩ := hsecond.user_cond hR hthird (hmark.evolves.isErroneous h.accepted)
      h.node hk
    rcases he with ⟨-, rfl⟩ | ⟨-, he⟩
    · exact hhead
    · refine hhead.trans (retains_rebuilt he hm ?_ ?_) <;> rw [hkm, hk]
      · rfl
      · exact nofun

/-- A node that gives way to its operand is what it was later on. -/
theorem Concludes.eq_or_left (hR : R.Marks) (h : Concludes R room mode expr n op c v d r)
    (hop : Classified R level mode' b op c v) (hm : c.find? expr = some m) (hk : m.kind = n.kind)
    (hw : m.wrapped? = n.wrapped?) (hde : d.Retains e) :
    r = expr ∨ ∃ l, e.find? expr = some l ∧ l.kind = n.kind ∧ l.wrapped? = n.wrapped? := by
  have hce := (h.retains hR hop hm hk hw).trans hde
  have hderef : ∀ o, n.kind = .unary .deref o →
      ∃ l, e.find? expr = some l ∧ l.kind = n.kind := fun o ho => by
    obtain ⟨l, hl, hml⟩ := hce.evolves.node expr m hm
    exact ⟨l, hl, (NodeKind.eq_of_skeleton hml.skeleton_eq (by rw [hk, ho]; rfl)).trans hk⟩
  have hleft : ∀ {l}, e.find? expr = some l → l.kind = n.kind → l.wrapped? = n.wrapped? :=
    fun hl hkl => (hce.evolves.wrapped?_eq hm hl (hkl.trans hk.symm)).trans hw
  cases h with
  | exchanged | kept | same => exact .inl rfl
  | dropped hkind hwrapped hnot =>
    have hbc := hop.evolves hR
    obtain ⟨l, hl, hkl⟩ := hce.wrapper expr m op hm (hk.trans hkind) (hw.trans hwrapped)
      (hbc.isSome hop.isSome)
      fun hleaf => hnot ((hop.leaf_stays hR (hleaf.of_evolves hbc hop.isSome)).symm ▸ hleaf)
    exact .inr ⟨l, hl, hkl.trans hk, hleft hl (hkl.trans hk)⟩
  | lost hkind | built hkind =>
    obtain ⟨l, hl, hkl⟩ := hderef op hkind
    exact .inr ⟨l, hl, hkl, hleft hl hkl⟩

/-- The use of a node that is in normal form, then or later on, has answered with the node. -/
theorem Classified.eq_of_normal (hR : R.Marks) (h : Classified R room mode a expr b r)
    (hbe : b.Retains e) (hexpr : e.Normal level mode' expr) : r = expr := by
  induction h generalizing level mode' with
  | erroneous | rest | cond => rfl
  | @node room mode a b c d expr op v r n loc h hops hop hd ih =>
    have herr := (h.marked hR).evolves.isErroneous h.accepted
    have hmem : op ∈ b.useOperands n := hops ▸ List.mem_singleton_self op
    obtain ⟨m, hm, hk, hw, -⟩ := hop.user hR herr h.node hmem
    rcases hd.eq_or_left hR hop hm hk hw hbe with rfl | ⟨l, hl, hkl, hwl⟩
    · rfl
    have hce := (hd.retains hR hop hm hk hw).trans hbe
    have hbe := (hop.evolves hR).trans hce.evolves
    cases hexpr with
    | erroneous htrue => cases (hbe.isErroneous herr).symm.trans htrue
    | node hnormal hnormals =>
      cases hl.symm.trans hnormal.node
      have hsame : v = op := ih hce (hnormals op (hbe.mem_useOperands hkl hmem))
      cases hd with
      | exchanged | kept | same => rfl
      | dropped hkind hwrapped hnot =>
        -- a location wrapper in normal form is one of a declaration or a constant
        obtain ⟨-, hleaf, -⟩ := hnormal.wrapper op (hkl.trans hkind) (hwl.trans hwrapped)
        exact absurd (hsame ▸ hleaf.of_evolves hce.evolves ((hop.evolves hR).isSome hop.isSome))
          hnot
      | lost _ hother | built _ hother => exact absurd hsame hother

/-- What has been recorded of a node, then or later on, has been recorded of its use. -/
theorem Classified.recorded (hR : R.Marks) (h : Classified R room mode a expr b r)
    (hbe : b.Retains e) (hexpr : e.Recorded level expr) : e.Recorded level r := by
  induction h generalizing level with
  | erroneous | rest | cond => exact hexpr
  | @node room mode a b c d expr op v r n loc h hops hop hd ih =>
    have herr := (h.marked hR).evolves.isErroneous h.accepted
    have hmem : op ∈ b.useOperands n := hops ▸ List.mem_singleton_self op
    obtain ⟨m, hm, hk, hw, -⟩ := hop.user hR herr h.node hmem
    rcases hd.eq_or_left hR hop hm hk hw hbe with rfl | ⟨l, hl, hkl, -⟩
    · exact hexpr
    have hce := (hd.retains hR hop hm hk hw).trans hbe
    cases level with
    | zero => exact hexpr.elim
    | succ level =>
      obtain ⟨l', hl', -, hreads⟩ := id hexpr
      cases hl.symm.trans hl'
      have hv := ih hce (hreads op (mem_readOperands_of_mem_useOperands
        (((hop.evolves hR).trans hce.evolves).mem_useOperands hkl hmem)))
      cases hd with
      | exchanged | kept | same => exact hexpr
      | dropped | lost => exact hv.succ
      | built =>
        obtain ⟨new, hnew, hbecomes⟩ := hbe.evolves.node _ _ (find?_append_new _ _)
        have hknew := NodeKind.eq_of_skeleton hbecomes.skeleton_eq rfl
        refine ⟨new, hnew, fun hvar => ?_, fun o ho => ?_⟩
        · rw [hknew] at hvar
          cases hvar
        · simp only [Node.readOperands, hknew, UnaryOp.readsOperand, if_true,
            List.mem_singleton] at ho
          exact ho ▸ hv

/-! ### Normal forms stay -/

/-- A location wrapper that is kept is one of storage, or a value. -/
theorem kept_cases (rvalue : Bool) :
    rvalue = false ∧ (if rvalue then UnaryOp.nonLvalue else .viewConvert) = .viewConvert ∨
      rvalue = true ∧ (if rvalue then UnaryOp.nonLvalue else .viewConvert) = .nonLvalue := by
  cases rvalue
  · exact .inl ⟨rfl, rfl⟩
  · exact .inr ⟨rfl, rfl⟩

theorem Concludes.upholds (hR : R.Marks) (h : Concludes R room mode expr n op c v d r)
    (hop : Classified R level mode' b op c v) (hm : c.find? expr = some m) (hk : m.kind = n.kind)
    (hw : m.wrapped? = n.wrapped?) (hmem : op ∈ c.useOperands m) : c.Upholds d := by
  -- the use of the operand of a node in normal form has answered with the operand
  have hsame : ∀ level mode, c.Normal level mode expr → c.isErroneous expr = .ok false →
      v = op := by
    intro level mode hnormal herr
    cases hnormal with
    | erroneous htrue => cases herr.symm.trans htrue
    | node hnormal hnormals =>
      cases hm.symm.trans hnormal.node
      exact hop.eq_of_normal hR (.refl c) (hnormals op hmem)
  cases h with
  | @exchanged f _ hf _ hd =>
    rw [← hk] at hf
    rcases hd with ⟨-, rfl⟩ | ⟨hother, hd⟩
    · exact .refl _
    refine upholds_rebuilt hd hm hf.skeleton_eq hf.isExchangeable hf.exchange.isVariable_eq
      (fun m' hm' _ o ho => ?_) fun level mode hnormal herr => ?_
    · rw [(hm' ▸ hf.exchange : m'.kind.Carries v f).readOperands] at ho
      cases List.mem_singleton.1 ho
      exact ⟨op, hf.readOperands ▸ List.mem_singleton_self op,
        fun level => hop.recorded hR (.refl c)⟩
    · refine absurd ?_ hother
      rw [hsame level mode hnormal herr, hf.self]
      exact kindOf_eq_ok_iff.2 ⟨m, hm, rfl⟩
  | kept hkind hwrapped hleaf hd =>
    obtain rfl := hop.eq_of_leaf hleaf
    rw [← hk] at hkind
    rw [← hw] at hwrapped
    refine upholds_rebuilt hd hm ?_ ?_ rfl (fun m' hm' hflag o ho => ?_) fun _ _ _ _ => ?_
    · rw [hkind]
      cases mode.rvalue <;> rfl
    · rw [hkind]
      rfl
    · rw [Node.readOperands_of_wrapped? (Node.wrapped?_of_kind hwrapped hflag hm'
        ((kept_cases _).imp And.right And.right))] at ho
      exact ⟨o, Node.readOperands_of_wrapped? hwrapped ▸ ho, fun _ h => h⟩
    · cases mode.rvalue
      · exact .inl hkind.symm
      · exact .inr ⟨v, hwrapped, hkind, rfl⟩
  | dropped _ _ _ hd =>
    rcases hd with rfl | ⟨span, m', hm', rfl⟩
    · exact .refl _
    · exact upholds_moved hm'
  | same | lost => exact .refl _
  | built _ _ _ hread hf =>
    exact (hR _ _ _ _ hread).upholds.trans (upholds_append (evolves_append_access hf rfl))

/-- Both branches of a conditional are exchanged. -/
theorem Classified.upholds_branches {first second third w : NodeId} (hR : R.Marks)
    (hsecond : Classified R room mode b second c v) (hthird : Classified R room mode c third d w)
    (he : d.Replaced expr (.cond first (some v) w) e) (hn : d.find? expr = some n)
    (hk : n.kind = .cond first (some second) third) : d.Upholds e := by
  have hcd := hthird.retains hR
  rcases he with ⟨-, rfl⟩ | ⟨hother, he⟩
  · exact .refl _
  refine upholds_rebuilt he hn (by rw [hk]; rfl) (by rw [hk]; rfl) rfl (fun m hm _ o ho => ?_)
    fun room mode hnormal herr => ?_
  · have hreads : n.readOperands = [second, third] := by simp [Node.readOperands, hk]
    rw [hreads]
    rw [show m.readOperands = [v, w] by simp [Node.readOperands, hm]] at ho
    rcases List.mem_pair.1 ho with rfl | rfl
    · exact ⟨second, by simp, fun _ => hsecond.recorded hR hcd⟩
    · exact ⟨third, by simp, fun _ => hthird.recorded hR (.refl _)⟩
  · cases hnormal with
    | erroneous htrue => cases herr.symm.trans htrue
    | node hnormal hnormals =>
      cases hn.symm.trans hnormal.node
      rw [mem_useOperands_cond hk] at hnormals
      refine absurd (kindOf_eq_ok_iff.2 ⟨n, hn, ?_⟩) hother
      rw [hsecond.eq_of_normal hR hcd (hnormals second (by simp)),
        hthird.eq_of_normal hR (.refl _) (hnormals third (by simp)), hk]

/-- A use upholds all normal forms. -/
theorem Classified.upholds (hR : R.Marks) (h : Classified R room mode a expr b r) :
    a.Upholds b := by
  induction h with
  | erroneous => exact .refl _
  | rest h => exact (h.marked hR).upholds
  | node h hops hop hd ih =>
    have hmark := h.marked hR
    obtain ⟨m, hm, hk, hw, hmem⟩ := hop.user hR (hmark.evolves.isErroneous h.accepted) h.node
      (hops ▸ List.mem_singleton_self _)
    exact (hmark.upholds.trans ih).trans (hd.upholds hR hop hm hk hw hmem)
  | cond h hk hsecond hthird he ih ih' =>
    have hmark := h.marked hR
    obtain ⟨m, hm, hkm⟩ := hsecond.user_cond hR hthird (hmark.evolves.isErroneous h.accepted)
      h.node hk
    exact ((hmark.upholds.trans ih).trans ih').trans
      (hsecond.upholds_branches hR hthird he hm (hkm.trans hk))

/-! ### The answer is in normal form -/

theorem Replaced.find? (h : a.Replaced expr k b) (hn : a.find? expr = some n) :
    ∃ m, b.find? expr = some m ∧ m.kind = k := by
  rcases h with ⟨hk, rfl⟩ | ⟨-, n', f, hn', -, rfl⟩
  · obtain ⟨m, hm, rfl⟩ := kindOf_eq_ok_iff.1 hk
    exact ⟨m, hm, rfl⟩
  · exact ⟨_, find?_change_self hn', rfl⟩

/-- What wraps nothing wraps nothing with another operand. -/
theorem wrapped?_exchanged {f : NodeId → NodeKind} (hf : n.kind.Carries op f) (hk : m.kind = f v)
    (hflag : m.flags.has .locationWrapper = n.flags.has .locationWrapper)
    (hw : n.wrapped? = none) : m.wrapped? = none := by
  refine Option.eq_none_iff_forall_ne_some.2 fun operand hm => ?_
  have hm' : Node.wrapped? { n with kind := f v } = some operand :=
    (wrapped?_congr (m := { n with kind := f v }) (n := m) hk.symm hflag.symm).trans hm
  obtain ⟨operand', hn, -⟩ :=
    Node.wrapped?_rewritten (n := n) (hf.rewritten (R := fun _ _ => True) trivial) hm'
  cases hw.symm.trans hn

/-- Only a function that can only be called is refused. -/
theorem isRejected_eq_false (hn : a.find? id = some n) (hw : n.wrapped? = none)
    (hk : n.kind.isFunction = false) : a.isRejected id mode = .ok false := by
  unfold Arena.isRejected
  split
  · refine bind_eq_ok_iff.2 ⟨id, ?_, bind_eq_ok_iff.2 ⟨n, node_eq_ok_iff.2 hn, ?_⟩⟩
    · rw [stripWrapper, map_node_of_find? hn, hw]
      rfl
    · rw [hk]
      rfl
  · rfl

theorem Enters.normalNode (h : Enters .complete room mode a expr n b) (hbd : b.Upholds d)
    (hm : d.find? expr = some m) (hw : m.wrapped? = n.wrapped?)
    (hknown : ∀ pointer, m.kind = .unary .deref pointer → ∃ r, d.isReference pointer = .ok r)
    (hwrapper : ∀ op, m.kind = .unary .viewConvert op → m.wrapped? = some op →
      mode.rvalue = false ∧ d.Leaf op ∧
        ∃ e, d.hasEffect op = .ok e ∧ (e = true → m.flags.has .effect = true)) :
    d.NormalNode room mode expr m where
  node := hm
  accepted := hbd.evolves.isErroneous ((h.marked Recording.complete_marks).evolves.isErroneous
    h.accepted)
  admitted := by
    have hsame := (h.marked Recording.complete_marks).sameButReads.eq
      (q := (·.isRejected expr mode)) (·.isRejected_unread expr mode)
    exact hbd.evolves.isRejected h.node hm hw (hsame ▸ h.admitted)
  read hread := hbd.recorded _ _ ((h.read hread).recorded expr (List.mem_singleton_self expr))
  known := hknown
  wrapper := hwrapper

section Concludes

variable {loc : Span} (h : Enters .complete (room + 1) mode a expr n b)
  (hbc : b.Upholds c) (hv : c.Normal room (mode.below n.kind loc) v) (hm : c.find? expr = some m)
  (hw : m.wrapped? = n.wrapped?)
include h hbc hv hm hw

/-- The operand in the place of the value is exchanged for one in normal form. -/
theorem normal_exchanged {f : NodeId → NodeKind} (hcd : c.Upholds d) (hk : m.kind = n.kind)
    (hf : n.kind.Carries op f) (hnone : n.wrapped? = none) (hd : c.Replaced expr (f v) d) :
    d.Normal (room + 1) mode expr := by
  obtain ⟨l, hl, hkl⟩ := hd.find? hm
  obtain ⟨l', hl', hml⟩ := hcd.evolves.node expr m hm
  cases hl.symm.trans hl'
  have hwl := wrapped?_exchanged (hk ▸ hf) hkl hml.locationWrapper_eq (hw.trans hnone)
  have hcarries : l.kind.Carries v f := hkl ▸ hf.exchange
  refine .node (h.normalNode (hbc.trans hcd) hl (hwl.trans hnone.symm)
    (fun pointer hp => absurd hp (hcarries.ne_deref pointer))
    fun o _ ho => by cases hwl.symm.trans ho) fun o ho => ?_
  rw [useOperands_carries hcarries] at ho
  obtain rfl := List.mem_singleton.1 ho
  rw [UseMode.below_of_ne_deref hcarries.ne_deref]
  rw [UseMode.below_of_ne_deref hf.ne_deref] at hv
  exact hv.at_loc.mono hcd

/-- A location wrapper stays around a declaration or a constant, or becomes a value. -/
theorem normal_kept {wrapper : UnaryOp} (hcd : c.Upholds d)
    (hkind : n.kind = .unary .viewConvert v) (hwrapped : n.wrapped? = some v) (hleaf : c.Leaf v)
    (hwrapper : mode.rvalue = false ∧ wrapper = .viewConvert ∨
      mode.rvalue = true ∧ wrapper = .nonLvalue)
    (hd : c.Rebuilt expr (.unary wrapper v) d) : d.Normal (room + 1) mode expr := by
  obtain ⟨m', f, hm', hf, rfl⟩ := hd
  cases hm.symm.trans hm'
  have hl := find?_change_self (f := fun n => { n with
    kind := .unary wrapper v
    flags := n.flags.union f }) hm
  obtain ⟨l', hl', hml⟩ := hcd.evolves.node expr m hm
  cases hl.symm.trans hl'
  have hwl := Node.wrapped?_of_kind (hw.trans hwrapped) hml.locationWrapper_eq rfl
    (hwrapper.imp And.right And.right)
  have hnormal := h.normalNode (hbc.trans hcd) hl (hwl.trans hwrapped.symm)
  rcases hwrapper with ⟨hrvalue, rfl⟩ | ⟨-, rfl⟩
  · refine .node (hnormal nofun fun o _ ho => ?_) fun o ho => ?_
    · cases hwl.symm.trans ho
      obtain ⟨i, e, -, he, hfe⟩ := has_effect_of_unary rfl rfl hf
      refine ⟨hrvalue, hleaf.mono hcd.evolves, e, hcd.effects v e hleaf he, fun heff => ?_⟩
      rw [NodeFlags.has_union, hfe, heff]
      simp
    · rw [useOperands_unary rfl (by decide)] at ho
      rw [List.mem_singleton.1 ho, UseMode.below_of_ne_deref (k := .unary .viewConvert v) nofun]
      rw [hkind, UseMode.below_of_ne_deref (k := .unary .viewConvert v) nofun] at hv
      exact hv.at_loc.mono hcd
  · refine .node (hnormal nofun nofun) fun o ho => ?_
    rw [useOperands_unary rfl (by decide)] at ho
    cases ho

end Concludes

/-- A dereference that is built behind a reference in normal form. -/
theorem normal_built {target : NodeId} {span : Span} {f : NodeFlags}
    (hn : d.find? expr = some n)
    (hv : c.Normal room { mode with rvalue := true, read := true } v)
    (href : c.referent? v = some target) (hread : Records room [v] c d)
    (hf : (d.append ⟨.unary .deref v, some target, .empty, span⟩).derivedFlags
      ⟨.unary .deref v, some target, .empty, span⟩ = .ok f) :
    (d.append ⟨.unary .deref v, some target, f, span⟩).Normal (room + 1) mode ⟨d.size⟩ := by
  have hnew := find?_append_new d ⟨.unary .deref v, some target, f, span⟩
  have happend := evolves_append_access (m := ⟨.unary .deref v, some target, f, span⟩) hf rfl
  have hcd := hread.marked.upholds.trans (upholds_append happend)
  have hops : (d.append ⟨.unary .deref v, some target, f, span⟩).useOperands
      ⟨.unary .deref v, some target, f, span⟩ = [v] :=
    useOperands_reference rfl (isReference_eq_true_iff.2 ⟨target, hcd.evolves.referent? href⟩)
  have hrecorded := (upholds_append happend).recorded _ _
    (hread.recorded v (List.mem_singleton_self v))
  obtain ⟨e, he⟩ := isErroneous_isOk (.inr (Option.isSome_of_mem hnew))
  cases e with
  | true =>
    refine .erroneous he fun herror => ?_
    -- the error node is the first node
    have hsize : d.size = 0 := congrArg NodeId.index herror
    rw [find?_eq_none_iff.2 (by omega)] at hn
    cases hn
  | false =>
    refine .node ⟨hnew, he, isRejected_eq_false hnew (Node.wrapped?_deref rfl) rfl, fun _ => ?_,
      fun pointer hp => ?_, nofun⟩ fun op hop => ?_
    · refine ⟨_, hnew, nofun, fun op hop => ?_⟩
      obtain rfl := List.mem_singleton.1 hop
      exact hrecorded
    · cases hp
      exact ⟨true, isReference_eq_true_iff.2 ⟨target, hcd.evolves.referent? href⟩⟩
    · rw [hops] at hop
      obtain rfl := List.mem_singleton.1 hop
      exact hv.mono hcd

theorem Concludes.normal (hd : Concludes .complete room mode expr n op c v d r)
    (h : Enters .complete (room + 1) mode a expr n b) (hbc : b.Upholds c)
    (hop : Classified .complete room (mode.below n.kind loc) b op c v) (hmem : op ∈ b.useOperands n)
    (hv : c.Normal room (mode.below n.kind loc) v) : d.Normal (room + 1) mode r := by
  have hR := Recording.complete_marks
  obtain ⟨m, hm, hk, hw, hmem'⟩ := hop.user hR ((h.marked hR).evolves.isErroneous h.accepted)
    h.node hmem
  have hcd := hd.upholds hR hop hm hk hw hmem'
  cases hd with
  | exchanged hf hnone hd => exact normal_exchanged h hbc hv hm hw hcd hk hf hnone hd
  | kept hkind hwrapped hleaf hd =>
    obtain rfl := hop.eq_of_leaf hleaf
    exact normal_kept h hbc hv hm hw hcd hkind hwrapped hleaf (kept_cases _) hd
  | dropped hkind =>
    rw [hkind, UseMode.below_of_ne_deref (k := .unary .viewConvert op) nofun] at hv
    exact (hv.at_loc.mono hcd).succ
  | same hkind hsame =>
    have href := isReference_of_mem_useOperands (hk.trans hkind) hmem'
    refine .node (h.normalNode hbc hm hw (fun pointer hp => ?_) fun o ho => ?_) fun o ho => ?_
    · cases (hk.trans hkind).symm.trans hp
      exact ⟨true, href⟩
    · cases (hk.trans hkind).symm.trans ho
    · rw [useOperands_reference (hk.trans hkind) href] at ho
      rw [List.mem_singleton.1 ho, ← hsame, hk]
      rw [hkind] at hv ⊢
      exact hv
  | lost hkind =>
    rw [hkind] at hv
    have hr : c.Normal room mode r := hv.weaken (fun _ => rfl) (fun _ => rfl) rfl
    exact hr.succ
  | built hkind _ href hread hf =>
    rw [hkind] at hv
    obtain ⟨n', hn', -⟩ := hread.marked.find? hm
    exact normal_built hn' hv href hread hf

/-- What a use answers with is in normal form. -/
theorem Classified.normal (h : Classified .complete room mode a expr b r) :
    b.Normal room mode r := by
  have hR := Recording.complete_marks
  induction h with
  | erroneous herr hexpr => exact .erroneous herr hexpr
  | @rest room mode a b expr n h hops hderef =>
    refine .node (h.normalNode (.refl b) h.node rfl (fun pointer hp => ⟨false, hderef pointer hp⟩)
      fun op hk _ => ?_) fun op hop => ?_
    · rw [useOperands_unary hk (by decide)] at hops
      cases hops
    · rw [hops] at hop
      cases hop
  | node h hops hop hd ih =>
    exact hd.normal h (hop.upholds hR) hop (hops ▸ List.mem_singleton_self _) ih
  | @cond room mode a b c d e expr first second third v w n h hk hsecond hthird he ih ih' =>
    have hmark := h.marked hR
    obtain ⟨m, hm, hkm⟩ := hsecond.user_cond hR hthird (hmark.evolves.isErroneous h.accepted)
      h.node hk
    have hbd := (hsecond.upholds hR).trans (hthird.upholds hR)
    have hde := hsecond.upholds_branches hR hthird he hm (hkm.trans hk)
    obtain ⟨l, hl, hkl⟩ := he.find? hm
    have hnone : n.wrapped? = none := by
      simp [Node.wrapped?, hk]
    have hnone' : l.wrapped? = none := by
      simp [Node.wrapped?, hkl]
    refine .node (h.normalNode (hbd.trans hde) hl (hnone'.trans hnone.symm)
      (fun _ hp => by cases hkl.symm.trans hp) fun _ ho => by cases hkl.symm.trans ho)
      fun o ho => ?_
    rw [mem_useOperands_cond hkl] at ho
    rw [UseMode.below_of_ne_deref (k := l.kind) fun _ hp => by cases hkl.symm.trans hp]
    rcases List.mem_pair.1 ho with rfl | rfl
    · exact (ih.mono (hthird.upholds hR)).mono hde
    · exact ih'.mono hde

/-! ### No location wrapper is left of a value -/

theorem UsedAlong.not_erroneous (h : a.UsedAlong expr id) : a.isErroneous id = .ok false := by
  cases h with
  | self herr => exact herr
  | operand _ _ _ herr => exact herr

theorem Normal.of_usedAlong (h : a.Normal room mode expr) (hrvalue : mode.rvalue = true)
    (hid : a.UsedAlong expr id) : ∃ room mode, a.Normal room mode id ∧ mode.rvalue = true := by
  induction hid with
  | self => exact ⟨room, mode, h, hrvalue⟩
  | @operand id op n hid hn hop _ ih =>
    obtain ⟨room, mode, h, hrvalue⟩ := ih
    cases h with
    | erroneous htrue => cases hid.not_erroneous.symm.trans htrue
    | @node room mode _ m h hops =>
      cases hn.symm.trans h.node
      refine ⟨room, _, hops op hop, ?_⟩
      unfold UseMode.below
      split
      · rfl
      · exact hrvalue

/-- Where only the value is needed, a use in normal form meets no location wrapper. -/
theorem Normal.isWrapper_eq_false (h : a.Normal room mode expr) (hrvalue : mode.rvalue = true)
    (hid : a.UsedAlong expr id) (hn : a.find? id = some n) (hk : n.kind = .unary .viewConvert op) :
    n.isWrapper = false := by
  obtain ⟨room, mode, h, hrvalue⟩ := h.of_usedAlong hrvalue hid
  cases h with
  | erroneous htrue => cases hid.not_erroneous.symm.trans htrue
  | node h _ =>
    cases hn.symm.trans h.node
    refine Bool.eq_false_iff.2 fun hw => ?_
    cases hrvalue.symm.trans (h.wrapper op hk (Node.wrapped?_of_isWrapper hw hk)).1

end Arena

end ExprTree
