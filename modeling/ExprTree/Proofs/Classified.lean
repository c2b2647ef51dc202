import ExprTree.Proofs.Recordings
import ExprTree.Proofs.UsePaths

/-!
# Derivations of uses

A use that does not answer with the error node has entered one node after the other, each with the
operands that carry its value or its storage, and has come to a conclusion at each of them when its
operands were done.  This is a relation between the arenas before and after the use.  What holds of
all uses is shown by induction on it, with one case for a node without operands, for a node with
one and for a conditional with two.

* `Arena.Enters` — a node that is neither erroneous nor refused, and is read if the use reads it.
* `Arena.Concludes` — what is left to do at a node when its operand is done.
* `Arena.Classified` — the uses of expressions.
* `Arena.Classified.evolves`, `Arena.Classified.user` — what stays: among others the kind of a
  node while its operands are used, since a use that returns never comes back to where it is.
-/

namespace ExprTree

/-- What a use needs of the operand of a node: of a reference it needs the value. -/
def UseMode.below (mode : UseMode) (k : NodeKind) (loc : Span) : UseMode :=
  match k with
  | .unary .deref _ => { mode with rvalue := true, read := true }
  | _ => { mode with loc }

theorem UseMode.below_of_ne_deref {mode : UseMode} {k : NodeKind} {loc : Span}
    (hk : ∀ pointer, k ≠ .unary .deref pointer) : mode.below k loc = { mode with loc } := by
  unfold below
  split
  · exact absurd rfl (hk _)
  · rfl

@[simp] theorem UseMode.rejectBuiltin_below (mode : UseMode) (k : NodeKind) (loc : Span) :
    (mode.below k loc).rejectBuiltin = mode.rejectBuiltin := by
  unfold below
  split <;> rfl

namespace NodeKind

variable {k : NodeKind} {op r v : NodeId} {f : NodeId → NodeKind}

/-- The only operand whose use is part of the use of a node, and the kind of the node with another
one in its place. -/
inductive Carries : NodeKind → NodeId → (NodeId → NodeKind) → Prop
  | component {object field : NodeId} :
    Carries (componentRef object field) object (componentRef · field)
  | comma {lhs rhs : NodeId} : Carries (comma lhs rhs) rhs (comma lhs)
  | branch {first third : NodeId} : Carries (cond first none third) third (cond first none)
  | transparent {op : UnaryOp} {operand : NodeId} (hop : op.isTransparent = true) :
    Carries (unary op operand) operand (unary op)

theorem Carries.self (h : k.Carries op f) : f op = k := by
  cases h <;> rfl

theorem Carries.rewritten {R : NodeId → NodeId → Prop} (h : k.Carries op f) (hr : R op r) :
    k.Rewritten R (f r) := by
  cases h with
  | component => exact .component hr
  | comma => exact .comma hr
  | branch => exact .cond .none hr
  | transparent hop => exact .transparent hop hr

theorem Carries.exchange (h : k.Carries op f) : (f v).Carries v f := by
  cases h with
  | component => exact .component
  | comma => exact .comma
  | branch => exact .branch
  | transparent hop => exact .transparent hop

theorem Carries.skeleton_eq (h : k.Carries op f) : (f v).skeleton = k.skeleton :=
  (h.rewritten (R := fun _ _ => True) trivial).skeleton_eq

theorem Carries.isVariable_eq (h : k.Carries op f) : k.isVariable = false := by
  cases h <;> rfl

theorem Carries.ne_deref (h : k.Carries op f) (pointer : NodeId) : k ≠ .unary .deref pointer := by
  rintro rfl
  cases h with
  | transparent hop => cases hop

end NodeKind

namespace Arena

variable {a b c d : Arena} {id expr op r v : NodeId} {n m : Node} {k : NodeKind} {room : Nat}
  {mode : UseMode} {P : NodeId → Prop}

theorem useOperands_carries {f : NodeId → NodeKind} (h : n.kind.Carries op f) :
    a.useOperands n = [op] := by
  obtain ⟨kind, type, flags, span⟩ := n
  cases h with
  | component | comma | branch => rfl
  | transparent hop =>
    refine (useOperands_unary rfl ?_).trans (if_pos hop)
    rintro rfl
    cases hop

theorem useOperands_reference (hk : n.kind = .unary .deref op)
    (href : a.isReference op = .ok true) : a.useOperands n = [op] := by
  simp only [useOperands, hk, href]

/-! ### One node -/

/-- A node has been given a kind and the flags that follow from it. -/
def Rebuilt (a : Arena) (expr : NodeId) (k : NodeKind) (b : Arena) : Prop :=
  ∃ n f, a.find? expr = some n ∧ a.derivedFlags { n with kind := k } = .ok f ∧
    b = a.change expr fun n => { n with kind := k, flags := n.flags.union f }

/-- A node has been given a kind, unless it had it. -/
def Replaced (a : Arena) (expr : NodeId) (k : NodeKind) (b : Arena) : Prop :=
  a.kindOf expr = .ok k ∧ b = a ∨ a.kindOf expr ≠ .ok k ∧ a.Rebuilt expr k b

/-- What is recorded when an expression is read, with room for so many levels. -/
abbrev Recording := Nat → NodeId → Arena → Arena → Prop

/-- Whatever is recorded, nodes are marked as read and nothing else. -/
def Recording.Marks (R : Recording) : Prop := ∀ room expr a b, R room expr a b → a.Marked b

/-- A node is entered: it is neither erroneous nor refused, and it is read if the use reads it. -/
structure Enters (R : Recording) (room : Nat) (mode : UseMode) (a : Arena) (expr : NodeId)
    (n : Node) (b : Arena) : Prop where
  accepted : a.isErroneous expr = .ok false
  admitted : a.isRejected expr mode = .ok false
  read : mode.read = true → R room expr a b
  unread : mode.read = false → b = a
  node : b.find? expr = some n

/-- What is left to do at a node when the use of its operand `op` has answered with `v`. -/
inductive Concludes (R : Recording) (room : Nat) (mode : UseMode) (expr : NodeId) (n : Node)
    (op : NodeId) (c : Arena) (v : NodeId) : Arena → NodeId → Prop
  | exchanged {f : NodeId → NodeKind} {d : Arena} (hf : n.kind.Carries op f)
    (hw : n.wrapped? = none) (hd : c.Replaced expr (f v) d) :
    Concludes R room mode expr n op c v d expr
  | kept {d : Arena} (hk : n.kind = .unary .viewConvert op) (hw : n.wrapped? = some op)
    (hleaf : c.Leaf v)
    (hd : c.Rebuilt expr (.unary (if mode.rvalue then .nonLvalue else .viewConvert) v) d) :
    Concludes R room mode expr n op c v d expr
  | dropped {d : Arena} (hk : n.kind = .unary .viewConvert op) (hw : n.wrapped? = some op)
    (hleaf : ¬ c.Leaf v)
    (hd : d = c ∨ ∃ span m, c.find? v = some m ∧ d = c.change v fun m => { m with span }) :
    Concludes R room mode expr n op c v d v
  | same (hk : n.kind = .unary .deref op) (hv : v = op) : Concludes R room mode expr n op c v c expr
  | lost (hk : n.kind = .unary .deref op) (hv : v ≠ op) (href : c.referent? v = none) :
    Concludes R room mode expr n op c v c v
  | built {d : Arena} {target : NodeId} {span : Span} {f : NodeFlags}
    (hk : n.kind = .unary .deref op) (hv : v ≠ op) (href : c.referent? v = some target)
    (hread : R room v c d)
    (hf : (d.append ⟨.unary .deref v, some target, .empty, span⟩).derivedFlags
      ⟨.unary .deref v, some target, .empty, span⟩ = .ok f) :
    Concludes R room mode expr n op c v (d.append ⟨.unary .deref v, some target, f, span⟩) ⟨d.size⟩

/-- The use of an expression leads from one arena to another and answers with a node that is not
the error node. -/
inductive Classified (R : Recording) :
    Nat → UseMode → Arena → NodeId → Arena → NodeId → Prop
  | erroneous {room : Nat} {mode : UseMode} {a : Arena} {expr : NodeId}
    (herr : a.isErroneous expr = .ok true) (hexpr : expr ≠ .error) :
    Classified R room mode a expr a expr
  | rest {room : Nat} {mode : UseMode} {a b : Arena} {expr : NodeId} {n : Node}
    (h : Enters R (room + 1) mode a expr n b) (hops : b.useOperands n = [])
    (hderef : ∀ pointer, n.kind = .unary .deref pointer → b.isReference pointer = .ok false) :
    Classified R (room + 1) mode a expr b expr
  | node {room : Nat} {mode : UseMode} {a b c d : Arena} {expr op v r : NodeId} {n : Node}
    {loc : Span} (h : Enters R (room + 1) mode a expr n b) (hops : b.useOperands n = [op])
    (hop : Classified R room (mode.below n.kind loc) b op c v)
    (hd : Concludes R room mode expr n op c v d r) : Classified R (room + 1) mode a expr d r
  | cond {room : Nat} {mode : UseMode} {a b c d e : Arena}
    {expr first second third v w : NodeId} {n : Node} (h : Enters R (room + 1) mode a expr n b)
    (hk : n.kind = .cond first (some second) third) (hsecond : Classified R room mode b second c v)
    (hthird : Classified R room mode c third d w)
    (he : d.Replaced expr (.cond first (some v) w) e) : Classified R (room + 1) mode a expr e expr

variable {R : Recording} (hR : R.Marks)

/-! ### What stays -/

/-- A node that has kept its kind wraps what it did. -/
theorem Evolves.wrapped?_eq (h : a.Evolves b) (hn : a.find? id = some n) (hm : b.find? id = some m)
    (hk : m.kind = n.kind) : m.wrapped? = n.wrapped? := by
  obtain ⟨m', hm', hnm⟩ := h.node id n hn
  cases hm.symm.trans hm'
  exact wrapped?_congr hk hnm.locationWrapper_eq

theorem evolves_moved {span : Span} (hn : a.find? id = some n) :
    a.Evolves (a.change id fun n => { n with span }) :=
  evolves_change hn ⟨rfl, rfl, fun _ h => h, fun _ _ _ _ => rfl⟩

theorem evolves_rebuilt (h : a.Rebuilt expr k b) (hn : a.find? expr = some n)
    (hk : k.skeleton = n.kind.skeleton) : a.Evolves b := by
  obtain ⟨m, f, hm, hf, rfl⟩ := h
  cases hn.symm.trans hm
  exact evolves_change hn (becomes_rebuilt hk hf)

theorem evolves_replaced (h : a.Replaced expr k b) (hn : a.find? expr = some n)
    (hk : k.skeleton = n.kind.skeleton) : a.Evolves b := by
  rcases h with ⟨-, rfl⟩ | ⟨-, h⟩
  · exact .refl _
  · exact evolves_rebuilt h hn hk

include hR

theorem Enters.marked (h : Enters R room mode a expr n b) : a.Marked b := by
  cases hread : mode.read with
  | true => exact hR _ _ _ _ (h.read hread)
  | false => exact h.unread hread ▸ .refl

theorem Concludes.evolves (h : Concludes R room mode expr n op c v d r)
    (hm : c.find? expr = some m) (hk : m.kind.skeleton = n.kind.skeleton) : c.Evolves d := by
  cases h with
  | exchanged hf _ hd =>
    exact evolves_replaced hd hm (hf.skeleton_eq.trans hk.symm)
  | kept hkind _ _ hd =>
    refine evolves_rebuilt hd hm (Eq.trans ?_ hk.symm)
    rw [hkind]
    cases mode.rvalue <;> rfl
  | dropped _ _ _ hd =>
    rcases hd with rfl | ⟨span, m, hm, rfl⟩
    · exact .refl _
    · exact evolves_moved hm
  | same | lost => exact .refl _
  | built _ _ _ hread hf => exact (hR _ _ _ _ hread).evolves.trans (evolves_append_access hf rfl)

theorem Classified.evolves (h : Classified R room mode a expr b r) : a.Evolves b := by
  induction h with
  | erroneous => exact .refl _
  | rest h => exact (h.marked hR).evolves
  | node h _ _ hd ih =>
    obtain ⟨m, hm, hnm⟩ := ih.node _ _ h.node
    exact ((h.marked hR).evolves.trans ih).trans (hd.evolves hR hm hnm.skeleton_eq)
  | cond h hk _ _ he ihsecond ihthird =>
    have hev := ihsecond.trans ihthird
    obtain ⟨m, hm, hnm⟩ := hev.node _ _ h.node
    refine ((h.marked hR).evolves.trans hev).trans (evolves_replaced he hm ?_)
    rw [hnm.skeleton_eq, hk]
    rfl

omit hR

/-- The nodes of a set have the kinds that they had. -/
def KeepsKinds (P : NodeId → Prop) (a b : Arena) : Prop :=
  ∀ id n, P id → a.find? id = some n → ∃ m, b.find? id = some m ∧ m.kind = n.kind

theorem KeepsKinds.refl (P : NodeId → Prop) (a : Arena) : a.KeepsKinds P a :=
  fun _ n _ hn => ⟨n, hn, rfl⟩

theorem KeepsKinds.trans (h : KeepsKinds P a b) (h' : KeepsKinds P b c) : KeepsKinds P a c :=
  fun id n hid hn => by
    obtain ⟨m, hm, hmn⟩ := h id n hid hn
    obtain ⟨k, hk, hkm⟩ := h' id m hid hm
    exact ⟨k, hk, hkm.trans hmn⟩

theorem KeepsKinds.mono {S : NodeId → Prop} (h : KeepsKinds S a b) (hP : ∀ id, P id → S id) :
    KeepsKinds P a b := fun id n hid => h id n (hP id hid)

theorem Marked.keepsKinds (h : a.Marked b) : KeepsKinds P a b := fun id n _ hn => by
  obtain ⟨m, hm, hmn⟩ := h.find? hn
  exact ⟨m, hm, (congrArg Node.kind hmn :)⟩

theorem keepsKinds_change {f : Node → Node} (hn : a.find? id = some n)
    (hf : P id → (f n).kind = n.kind) : KeepsKinds P a (a.change id f) := by
  intro other m hother hm
  by_cases ho : other = id
  · subst ho
    cases hn.symm.trans hm
    exact ⟨f n, find?_change_self hn, hf hother⟩
  · exact ⟨m, by rw [find?_change, if_neg ho, hm], rfl⟩

theorem keepsKinds_append : KeepsKinds P a (a.append m) :=
  fun _ n _ hn => ⟨n, find?_append_of_some hn, rfl⟩

theorem keepsKinds_rebuilt (h : a.Rebuilt expr k b) (hP : ¬ P expr) : KeepsKinds P a b := by
  obtain ⟨n, f, hn, -, rfl⟩ := h
  exact keepsKinds_change hn fun h => absurd h hP

theorem keepsKinds_replaced (h : a.Replaced expr k b) (hP : ¬ P expr) : KeepsKinds P a b := by
  rcases h with ⟨-, rfl⟩ | ⟨-, h⟩
  · exact .refl _ _
  · exact keepsKinds_rebuilt h hP

/-- A node gets another kind only where its own use is concluded. -/
theorem Concludes.keepsKinds (hR : R.Marks) (h : Concludes R room mode expr n op c v d r)
    (hP : ¬ P expr) : KeepsKinds P c d := by
  cases h with
  | exchanged _ _ hd => exact keepsKinds_replaced hd hP
  | kept _ _ _ hd => exact keepsKinds_rebuilt hd hP
  | dropped _ _ _ hd =>
    rcases hd with rfl | ⟨span, m, hm, rfl⟩
    · exact .refl _ _
    · exact keepsKinds_change hm fun _ => rfl
  | same | lost => exact .refl _ _
  | built _ _ _ hread _ => exact (hR _ _ _ _ hread).keepsKinds.trans keepsKinds_append

/-! ### Uses that are under way -/

/-- While an expression is used, the uses of the nodes of a set are under way: each of them has it
for an operand, or another node of the set. -/
def UnderWay (a : Arena) (P : NodeId → Prop) (expr : NodeId) : Prop :=
  ∀ id, P id → a.isErroneous id = .ok false ∧
    ∃ n, a.find? id = some n ∧ ∃ op ∈ a.useOperands n, op = expr ∨ P op

theorem UnderWay.mono (h : a.UnderWay P expr) (hab : a.Evolves b) (hkinds : KeepsKinds P a b) :
    b.UnderWay P expr := fun id hid => by
  obtain ⟨herr, n, hn, op, hop, hmem⟩ := h id hid
  obtain ⟨m, hm, hmn⟩ := hkinds id n hid hn
  exact ⟨hab.isErroneous herr, m, hm, op, hab.mem_useOperands hmn hop, hmem⟩

/-- Where a use has come back to a node of the set, each node has an operand in it. -/
theorem UnderWay.back (h : a.UnderWay P expr) (hexpr : P expr) : a.UnderWay P op := fun id hid => by
  obtain ⟨herr, n, hn, op, hop, hmem⟩ := h id hid
  exact ⟨herr, n, hn, op, hop, .inr (hmem.elim (fun he => he ▸ hexpr) fun h => h)⟩

/-- The use of an operand is under way, too. -/
theorem UnderWay.enter (h : a.UnderWay P expr) (herr : a.isErroneous expr = .ok false)
    (hn : a.find? expr = some n) (hop : op ∈ a.useOperands n) :
    a.UnderWay (fun id => P id ∨ id = expr) op := by
  rintro id (hid | rfl)
  · obtain ⟨herr, m, hm, op', hop', hmem⟩ := h id hid
    exact ⟨herr, m, hm, op', hop', .inr hmem.symm⟩
  · exact ⟨herr, n, hn, op, hop, .inl rfl⟩

theorem mem_useOperands_cond {first second third : NodeId}
    (hk : n.kind = .cond first (some second) third) :
    a.useOperands n = [second, third] := by
  simp only [useOperands, hk]
  rfl

/-- A use that returns does not come back to a node whose use is under way, and leaves its kind as
it is. -/
theorem Classified.stays (hR : R.Marks) (h : Classified R room mode a expr b r)
    (hP : a.UnderWay P expr) : ¬ P expr ∧ KeepsKinds P a b := by
  induction h generalizing P with
  | erroneous herr =>
    refine ⟨fun hexpr => ?_, .refl _ _⟩
    cases herr.symm.trans (hP _ hexpr).1
  | rest h hops =>
    have hmark := h.marked hR
    refine ⟨fun hexpr => ?_, hmark.keepsKinds⟩
    obtain ⟨-, n, hn, op, hop, -⟩ := hP.mono hmark.evolves hmark.keepsKinds _ hexpr
    cases h.node.symm.trans hn
    rw [hops] at hop
    cases hop
  | @node room mode a b c d expr op v r n loc h hops hop hd ih =>
    have hmark := h.marked hR
    have hPb := hP.mono hmark.evolves hmark.keepsKinds
    have hexpr : ¬ P expr := fun hexpr => by
      obtain ⟨-, n', hn, op', hop', hmem⟩ := hPb expr hexpr
      cases h.node.symm.trans hn
      rw [hops] at hop'
      cases List.mem_singleton.1 hop'
      exact (ih (hPb.back hexpr)).1 (hmem.elim (fun he => he ▸ hexpr) fun h => h)
    have hkinds := (ih (hPb.enter (hmark.evolves.isErroneous h.accepted) h.node
      (hops ▸ List.mem_singleton_self op))).2
    exact ⟨hexpr, (hmark.keepsKinds.trans (hkinds.mono fun _ => .inl)).trans
      (hd.keepsKinds hR hexpr)⟩
  | @cond room mode a b c d e expr first second third v w n h hk hsecond hthird he ih ih' =>
    have hmark := h.marked hR
    have hPb := hP.mono hmark.evolves hmark.keepsKinds
    have hev := hsecond.evolves hR
    have hexpr : ¬ P expr := fun hexpr => by
      obtain ⟨hback, hkinds⟩ := ih (hPb.back hexpr)
      obtain ⟨-, n', hn, op', hop', hmem⟩ := hPb expr hexpr
      cases h.node.symm.trans hn
      rw [mem_useOperands_cond hk] at hop'
      have hop : P op' := hmem.elim (fun he => he ▸ hexpr) fun h => h
      rcases List.mem_pair.1 hop' with rfl | rfl
      · exact hback hop
      · exact (ih' ((hPb.mono hev hkinds).back hexpr)).1 hop
    have herr := hmark.evolves.isErroneous h.accepted
    have hkinds := (ih (hPb.enter herr h.node (mem_useOperands_cond hk ▸ by simp))).2
    obtain ⟨m, hm, hmn⟩ := hkinds expr n (.inr rfl) h.node
    have hPc := hPb.mono hev (hkinds.mono fun _ => .inl)
    have hkinds' := (ih' (hPc.enter (hev.isErroneous herr) hm
      (mem_useOperands_cond (hmn.trans hk) ▸ by simp))).2
    exact ⟨hexpr, ((hmark.keepsKinds.trans (hkinds.mono fun _ => .inl)).trans
      (hkinds'.mono fun _ => .inl)).trans (keepsKinds_replaced he hexpr)⟩

/-- A node has the kind that it had when the use of an operand is done. -/
theorem Classified.keeps_user (hR : R.Marks) (h : Classified R room mode b op c v)
    (herr : b.isErroneous expr = .ok false) (hn : b.find? expr = some n)
    (hop : op ∈ b.useOperands n) : ∃ m, c.find? expr = some m ∧ m.kind = n.kind := by
  have hP : b.UnderWay (· = expr) op := by
    rintro id rfl
    exact ⟨herr, n, hn, op, hop, .inl rfl⟩
  exact (h.stays hR hP).2 expr n rfl hn

/-- The node of which an operand has been used. -/
theorem Classified.user (hR : R.Marks) (h : Classified R room mode b op c v)
    (herr : b.isErroneous expr = .ok false) (hn : b.find? expr = some n)
    (hop : op ∈ b.useOperands n) : ∃ m, c.find? expr = some m ∧ m.kind = n.kind ∧
      m.wrapped? = n.wrapped? ∧ op ∈ c.useOperands m := by
  obtain ⟨m, hm, hk⟩ := h.keeps_user hR herr hn hop
  have hbc := h.evolves hR
  exact ⟨m, hm, hk, hbc.wrapped?_eq hn hm hk, hbc.mem_useOperands hk hop⟩

/-- The branches of which both have been used. -/
theorem Classified.user_cond {first second third : NodeId} {v w : NodeId} (hR : R.Marks)
    (hsecond : Classified R room mode b second c v) (hthird : Classified R room mode c third d w)
    (herr : b.isErroneous expr = .ok false) (hn : b.find? expr = some n)
    (hk : n.kind = .cond first (some second) third) :
    ∃ m, d.find? expr = some m ∧ m.kind = n.kind := by
  obtain ⟨m, hm, hkm⟩ := hsecond.keeps_user hR herr hn (by rw [mem_useOperands_cond hk]; simp)
  obtain ⟨l, hl, hkl⟩ := hthird.keeps_user hR ((hsecond.evolves hR).isErroneous herr) hm
    (by rw [mem_useOperands_cond (hkm.trans hk)]; simp)
  exact ⟨l, hl, hkl.trans hkm⟩

end Arena

end ExprTree
