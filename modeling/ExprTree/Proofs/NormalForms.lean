import ExprTree.Proofs.Classified
import ExprTree.Proofs.Settled

/-!
# Normal forms of uses

What a use answers with is in normal form: the same use of it changes nothing.  No location wrapper
is left that the use would promote or drop, no level is refused, and what is read has been recorded.
Nodes are shared, and a node in normal form may be met by another use later on, so that the use of
an operand must uphold the normal forms of all nodes, those that are done included.

* `Arena.Normal` — normal forms with room for so many levels.
* `Arena.Upholds` — arenas in which all normal forms stay, and `Arena.Normal.mono`.
* `Arena.upholds_rebuilt` — when a node can be given another kind.
-/

namespace ExprTree

/-- A node has kept its kind, or it was a location wrapper and is a value now. -/
def Node.Promoted (n m : Node) : Prop :=
  m.kind = n.kind ∨ ∃ op, n.wrapped? = some op ∧ n.kind = .unary .viewConvert op ∧
    m.kind = .unary .nonLvalue op

theorem Node.Promoted.wrapped? {n m : Node} (h : n.Promoted m)
    (hflag : m.flags.has .locationWrapper = n.flags.has .locationWrapper) :
    m.wrapped? = n.wrapped? := by
  rcases h with hk | ⟨op, hw, -, hk⟩
  · exact Arena.wrapped?_congr hk hflag
  · rw [hw]
    exact Node.wrapped?_eq_some_iff.2 ⟨hflag.trans (Node.wrapped?_eq_some_iff.1 hw).1, .inr hk⟩

namespace Arena

variable {a b c : Arena} {id expr op : NodeId} {n m : Node} {k : NodeKind} {room : Nat}
  {mode : UseMode}

theorem Evolves.isRejected (h : a.Evolves b) (hn : a.find? id = some n) (hm : b.find? id = some m)
    (hwrapped : m.wrapped? = n.wrapped?) {r : Bool} (hr : a.isRejected id mode = .ok r) :
    b.isRejected id mode = .ok r := by
  unfold Arena.isRejected at hr ⊢
  split at hr
  · rw [if_pos ‹_›]
    exact h.namesBuiltin hn hm hwrapped hr
  · rw [if_neg ‹_›]
    exact hr

/-- Where it is known of a dereference whether it goes behind a reference, a node of its kind has
the same operands later on. -/
theorem Evolves.useOperands_eq (h : a.Evolves b) (hk : m.kind = n.kind)
    (hknown : ∀ pointer, n.kind = .unary .deref pointer → ∃ r, a.isReference pointer = .ok r) :
    b.useOperands m = a.useOperands n := by
  simp only [useOperands, hk]
  split
  case h_4 pointer hderef =>
    obtain ⟨r, hr⟩ := hknown pointer hderef
    rw [hr, h.isReference hr]
  all_goals rfl

/-! ### Normal forms -/

/-- A node that its use leaves as it is, if the uses of its operands do. -/
structure NormalNode (a : Arena) (room : Nat) (mode : UseMode) (expr : NodeId) (n : Node) : Prop
    where
  node : a.find? expr = some n
  accepted : a.isErroneous expr = .ok false
  admitted : a.isRejected expr mode = .ok false
  read : mode.read = true → a.Recorded room expr
  known : ∀ pointer, n.kind = .unary .deref pointer → ∃ r, a.isReference pointer = .ok r
  /-- A location wrapper is only left around a declaration or a constant whose storage is needed,
  and has its flags. -/
  wrapper : ∀ op, n.kind = .unary .viewConvert op → n.wrapped? = some op → mode.rvalue = false ∧
    a.Leaf op ∧ ∃ e, a.hasEffect op = .ok e ∧ (e = true → n.flags.has .effect = true)

/-- An expression in normal form: the use of it needs so many levels, and changes nothing. -/
inductive Normal (a : Arena) : Nat → UseMode → NodeId → Prop
  | erroneous {room : Nat} {mode : UseMode} {expr : NodeId}
    (herr : a.isErroneous expr = .ok true) (hexpr : expr ≠ .error) : Normal a room mode expr
  | node {room : Nat} {mode : UseMode} {expr : NodeId} {n : Node}
    (h : a.NormalNode (room + 1) mode expr n)
    (hops : ∀ op ∈ a.useOperands n, Normal a room (mode.below n.kind mode.loc) op) :
    Normal a (room + 1) mode expr

namespace Normal

theorem ne_error (h : a.Normal room mode expr) : expr ≠ .error := by
  cases h with
  | erroneous _ hexpr => exact hexpr
  | node h _ => exact (isErroneous_eq_false_iff.1 h.accepted).1

/-- A use that needs no more, wherever it is. -/
theorem weaken {mode' : UseMode} (h : a.Normal room mode expr)
    (hrvalue : mode'.rvalue = true → mode.rvalue = true)
    (hread : mode'.read = true → mode.read = true)
    (hrejects : mode'.rejectBuiltin = mode.rejectBuiltin) : a.Normal room mode' expr := by
  induction h generalizing mode' with
  | erroneous herr hexpr => exact .erroneous herr hexpr
  | @node room mode expr n h hops ih =>
    refine .node
      { node := h.node
        accepted := h.accepted
        admitted := ?_
        read := fun hr => h.read (hread hr)
        known := h.known
        wrapper := fun op hk hw => ?_ } fun op hop => ih op hop ?_ ?_ ?_
    · unfold Arena.isRejected
      rw [hrejects]
      exact h.admitted
    · obtain ⟨hfalse, hleaf⟩ := h.wrapper op hk hw
      exact ⟨Bool.eq_false_iff.2 fun hr => Bool.eq_false_iff.1 hfalse (hrvalue hr), hleaf⟩
    all_goals
      unfold UseMode.below
      split
    · exact fun _ => rfl
    · exact hrvalue
    · exact fun _ => rfl
    · exact hread
    · exact hrejects
    · exact hrejects

/-- It does not matter where the use is. -/
theorem at_loc {loc : Span} (h : a.Normal room { mode with loc } expr) : a.Normal room mode expr :=
  h.weaken (fun h => h) (fun h => h) rfl

theorem at_below {loc loc' : Span} (h : a.Normal room (mode.below k loc) expr) :
    a.Normal room (mode.below k loc') expr := by
  unfold UseMode.below at h ⊢
  split at h
  · exact h
  · exact h.weaken (fun h => h) (fun h => h) rfl

/-- There may be more room. -/
theorem succ (h : a.Normal room mode expr) : a.Normal (room + 1) mode expr := by
  induction h with
  | erroneous herr hexpr => exact .erroneous herr hexpr
  | node h _ ih => exact .node { h with read := fun hr => (h.read hr).succ } ih

end Normal

/-! ### Arenas that uphold normal forms -/

/-- An arena has evolved, and all normal forms have stayed: what was recorded still is, declarations
and constants have the same effect, and of the nodes in normal form at most location wrappers have
changed. -/
structure Upholds (a b : Arena) : Prop where
  evolves : a.Evolves b
  recorded : ∀ room id, a.Recorded room id → b.Recorded room id
  effects : ∀ id e, a.Leaf id → a.hasEffect id = .ok e → b.hasEffect id = .ok e
  promoted : ∀ room mode id n, a.Normal room mode id → a.isErroneous id = .ok false →
    a.find? id = some n → ∃ m, b.find? id = some m ∧ n.Promoted m

/-- Normal forms stay. -/
theorem Normal.mono (h : a.Normal room mode expr) (hab : a.Upholds b) :
    b.Normal room mode expr := by
  induction h with
  | erroneous herr hexpr => exact .erroneous (hab.evolves.isErroneous herr) hexpr
  | @node room mode expr n h hops ih =>
    obtain ⟨m, hm, hnm⟩ := hab.promoted _ mode expr n (.node h hops) h.accepted h.node
    obtain ⟨m', hm', hbecomes⟩ := hab.evolves.node expr n h.node
    cases hm.symm.trans hm'
    have hw := hnm.wrapped? hbecomes.locationWrapper_eq
    have hadmitted := hab.evolves.isRejected h.node hm hw h.admitted
    have haccepted := hab.evolves.isErroneous h.accepted
    have hread : mode.read = true → b.Recorded (room + 1) expr := fun hr =>
      hab.recorded _ _ (h.read hr)
    rcases hnm with hk | ⟨op, -, -, hk⟩
    · refine .node ⟨hm, haccepted, hadmitted, hread, ?_, ?_⟩ ?_
      · rw [hk]
        exact fun pointer hderef => (h.known pointer hderef).imp fun _ => hab.evolves.isReference
      · rw [hk, hw]
        intro op hkind hwrapped
        obtain ⟨hrvalue, hleaf, e, he, hflags⟩ := h.wrapper op hkind hwrapped
        exact ⟨hrvalue, hleaf.mono hab.evolves, e, hab.effects op e hleaf he,
          fun he => hbecomes.flag_mono _ (hflags he)⟩
      · rw [hab.evolves.useOperands_eq hk h.known, hk]
        exact ih
    · -- a value has no operands whose use is part of its use
      refine .node ⟨hm, haccepted, hadmitted, hread, ?_, ?_⟩ ?_
      · rw [hk]
        exact nofun
      · rw [hk]
        exact nofun
      · rw [useOperands_unary hk (by decide)]
        exact nofun

namespace Upholds

protected theorem refl (a : Arena) : a.Upholds a :=
  ⟨.refl a, fun _ _ h => h, fun _ _ _ h => h, fun _ _ _ n _ _ hn => ⟨n, hn, .inl rfl⟩⟩

theorem trans (h : a.Upholds b) (h' : b.Upholds c) : a.Upholds c where
  evolves := h.evolves.trans h'.evolves
  recorded room id hid := h'.recorded room id (h.recorded room id hid)
  effects id e hleaf he := h'.effects id e (hleaf.mono h.evolves) (h.effects id e hleaf he)
  promoted room mode id n hid herr hn := by
    obtain ⟨m, hm, hnm⟩ := h.promoted room mode id n hid herr hn
    obtain ⟨l, hl, hml⟩ := h'.promoted room mode id m (hid.mono h) (h.evolves.isErroneous herr) hm
    refine ⟨l, hl, ?_⟩
    rcases hnm with hk | ⟨op, hw, hkn, hkm⟩
    · rcases hml with hk' | ⟨op, hw, hkm, hkl⟩
      · exact .inl (hk'.trans hk)
      · exact .inr ⟨op, h.evolves.wrapped?_eq hn hm hk ▸ hw, hk ▸ hkm, hkl⟩
    · rcases hml with hk' | ⟨op', -, hkm', -⟩
      · exact .inr ⟨op, hw, hkn, hk'.trans hkm⟩
      · cases hkm.symm.trans hkm'

end Upholds

theorem Marked.upholds (h : a.Marked b) : a.Upholds b where
  evolves := h.evolves
  recorded _ _ := h.recorded
  effects id e _ he :=
    (h.sameButReads.symm.eq (q := (·.hasEffect id)) (·.hasEffect_unread id)).trans he
  promoted _ _ id n _ _ hn := by
    obtain ⟨m, hm, hmn⟩ := h.find? hn
    exact ⟨m, hm, .inl (congrArg Node.kind hmn :)⟩

/-! ### Changes -/

/-- A change that keeps the effects of all other nodes keeps those of declarations and constants. -/
theorem hasEffect_change_of_leaf {f : Node → Node} {e : Bool} (hn : a.find? expr = some n)
    (hk : n.kind.isExchangeable = true) (hid : a.Leaf id) (he : a.hasEffect id = .ok e) :
    (a.change expr f).hasEffect id = .ok e := by
  have hne : id ≠ expr := by
    rintro rfl
    obtain ⟨m, hm, hleaf⟩ := hid
    cases hn.symm.trans hm
    cases hk.symm.trans (isExchangeable_of_leaf hleaf)
  obtain ⟨m, hm, rfl⟩ := hasEffect_eq_ok_iff.1 he
  exact hasEffect_eq_ok_iff.2 ⟨m, by rw [find?_change, if_neg hne, hm], rfl⟩

/-- A node is given another kind.  What is read along with it must have been recorded with it
before, and if it is in normal form, it must be promoted or keep its kind. -/
theorem upholds_rebuilt (hb : a.Rebuilt expr k b) (hn : a.find? expr = some n)
    (hk : k.skeleton = n.kind.skeleton) (hexchangeable : n.kind.isExchangeable = true)
    (hvar : k.isVariable = false)
    (hrecorded : ∀ m : Node, m.kind = k →
      m.flags.has .locationWrapper = n.flags.has .locationWrapper →
      ∀ op ∈ m.readOperands, ∃ s ∈ n.readOperands, ∀ room, a.Recorded room s → a.Recorded room op)
    (hpromoted : ∀ room mode, a.Normal room mode expr → a.isErroneous expr = .ok false →
      n.Promoted { n with kind := k }) : a.Upholds b := by
  have hab := evolves_rebuilt hb hn hk
  obtain ⟨n', f, hn', hf, rfl⟩ := hb
  cases hn.symm.trans hn'
  have hself := find?_change_self (f := fun n => { n with kind := k, flags := n.flags.union f }) hn
  have hother : ∀ id, id ≠ expr → ∀ m, a.find? id = some m →
      (a.change expr fun n => { n with kind := k, flags := n.flags.union f }).find? id = some m :=
    fun id hid m hm => by rw [find?_change, if_neg hid, hm]
  have hflag := (becomes_rebuilt hk hf).locationWrapper_eq
  refine ⟨hab, fun room => ?_, fun id e hleaf he => ?_, fun room mode id m hm herr hfind => ?_⟩
  · induction room with
    | zero => exact fun _ h => h.elim
    | succ room ih =>
      rintro id ⟨m, hm, hread, hops⟩
      by_cases hid : id = expr
      · subst hid
        cases hn.symm.trans hm
        refine ⟨_, hself, fun hk' => (by cases hvar.symm.trans hk'), fun op hop => ih op ?_⟩
        obtain ⟨s, hs, hsop⟩ := hrecorded _ rfl hflag op hop
        exact hsop room (hops s hs)
      · exact ⟨m, hother id hid m hm, hread, fun op hop => ih op (hops op hop)⟩
  · exact hasEffect_change_of_leaf hn hexchangeable hleaf he
  · by_cases hid : id = expr
    · subst hid
      cases hn.symm.trans hfind
      exact ⟨_, hself, hpromoted room mode hm herr⟩
    · exact ⟨m, hother id hid m hfind, .inl rfl⟩

/-- A node is moved. -/
theorem upholds_moved {span : Span} (hn : a.find? id = some n) :
    a.Upholds (a.change id fun n => { n with span }) := by
  have hab : a.Evolves (a.change id fun n => { n with span }) := evolves_moved hn
  have hold : ∀ other m, a.find? other = some m → ∃ m' : Node,
      (a.change id fun n => { n with span }).find? other = some m' ∧ m'.kind = m.kind ∧
        m'.flags = m.flags := fun other m hm => by
    by_cases ho : other = id
    · subst ho
      cases hn.symm.trans hm
      exact ⟨_, find?_change_self hn, rfl, rfl⟩
    · exact ⟨m, by rw [find?_change, if_neg ho, hm], rfl, rfl⟩
  refine ⟨hab, fun room => ?_, fun other e _ he => ?_, fun _ _ other m _ _ hm => ?_⟩
  · induction room with
    | zero => exact fun _ h => h.elim
    | succ room ih =>
      rintro other ⟨m, hm, hread, hops⟩
      obtain ⟨m', hm', hk, hflags⟩ := hold other m hm
      refine ⟨m', hm', hk ▸ hflags ▸ hread, fun op hop => ih op (hops op ?_)⟩
      rwa [← Node.readOperands_congr hk (hflags ▸ rfl)]
  · obtain ⟨m, hm, rfl⟩ := hasEffect_eq_ok_iff.1 he
    obtain ⟨m', hm', -, hflags⟩ := hold other m hm
    exact hasEffect_eq_ok_iff.2 ⟨m', hm', hflags ▸ rfl⟩
  · obtain ⟨m', hm', hk, -⟩ := hold other m hm
    exact ⟨m', hm', .inl hk⟩

/-- A node is appended. -/
theorem upholds_append (hab : a.Evolves (a.append m)) : a.Upholds (a.append m) := by
  refine ⟨hab, fun room => ?_, fun _ _ _ => effectsAgree_append.hasEffect _ _,
    fun _ _ _ n _ _ hn => ⟨n, find?_append_of_some hn, .inl rfl⟩⟩
  induction room with
  | zero => exact fun _ h => h.elim
  | succ room ih =>
    rintro id ⟨n, hn, hread, hops⟩
    exact ⟨n, find?_append_of_some hn, hread, fun op hop => ih op (hops op hop)⟩

end Arena

end ExprTree
