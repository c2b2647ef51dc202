import ExprTree.Proofs.Classified

/-!
# What a use reads

A use that reads an expression marks what is read along with it.  A use that does not read still
reads the references that it goes behind.  While a use exchanges operands, a node that is not marked
stays at the ends of the same paths: this is followed for one node `y`, the nodes `V` that read it
along and the nodes `U` whose use goes behind a reference that does.

* `Arena.DereferencedAlong` — the references that the use of an expression goes behind.
* `Arena.Tracks` — an arena in which a node is not marked as read, and the paths to it.
* `Arena.Classified.tracks` — a use marks the node exactly if a path leads there.
-/

namespace ExprTree

namespace NodeKind

variable {op : NodeId} {f : NodeId → NodeKind}

theorem Carries.readOperands {n : Node} (h : n.kind.Carries op f) : n.readOperands = [op] := by
  obtain ⟨kind, type, flags, span⟩ := n
  cases h with
  | component | comma | branch => rfl
  | @transparent op' operand hop =>
    cases op' with
    | nop | convert | viewConvert | nonDependent => rfl
    | _ => cases hop

end NodeKind

theorem Node.readOperands_of_wrapped? {n : Node} {op : NodeId} (h : n.wrapped? = some op) :
    n.readOperands = [op] := by
  obtain ⟨-, hk | hk⟩ := Node.wrapped?_eq_some_iff.1 h
  · simp [readOperands, hk, UnaryOp.readsOperand]
  · simp [readOperands, hk, h]

/-- A location wrapper stays one with another operand, and as a value. -/
theorem Node.wrapped?_of_kind {n m : Node} {wrapper : UnaryOp} {op v : NodeId}
    (h : n.wrapped? = some op)
    (hflag : m.flags.has .locationWrapper = n.flags.has .locationWrapper)
    (hk : m.kind = .unary wrapper v) (hwrapper : wrapper = .viewConvert ∨ wrapper = .nonLvalue) :
    m.wrapped? = some v := by
  refine Node.wrapped?_eq_some_iff.2 ⟨hflag.trans (Node.wrapped?_eq_some_iff.1 h).1, ?_⟩
  rcases hwrapper with rfl | rfl
  · exact .inl hk
  · exact .inr hk

namespace Arena

variable {a b c d : Arena} {expr id op p r v y : NodeId} {n m : Node} {k : NodeKind} {room : Nat}
  {mode : UseMode} {V U : NodeId → Prop}

/-- What a dereference has for an operand is a reference. -/
theorem isReference_of_mem_useOperands (hk : n.kind = .unary .deref p)
    (hop : op ∈ a.useOperands n) : a.isReference p = .ok true := by
  simp only [useOperands, hk] at hop
  split at hop
  · assumption
  · cases hop

/-- What is used along with a node is read along with it. -/
theorem mem_readOperands_of_mem_useOperands (hop : op ∈ a.useOperands n) : op ∈ n.readOperands := by
  simp only [useOperands] at hop
  split at hop
  case h_4 hk =>
    split at hop
    · simpa [Node.readOperands, hk, UnaryOp.readsOperand] using hop
    · cases hop
  case h_5 op' operand hderef hk =>
    split at hop
    · rename_i htransparent
      rw [List.mem_singleton.1 hop, (hk ▸ NodeKind.Carries.transparent htransparent :
        n.kind.Carries operand (.unary op')).readOperands]
      exact List.mem_singleton_self operand
    · cases hop
  case h_6 => cases hop
  all_goals
    rename_i hk
    simpa [Node.readOperands, hk] using hop

/-! ### Paths -/

theorem UsedAlong.head (h : a.UsedAlong op id) (herr : a.isErroneous expr = .ok false)
    (hn : a.find? expr = some n) (hop : op ∈ a.useOperands n) : a.UsedAlong expr id := by
  induction h with
  | self hself => exact .operand (.self herr) hn hop hself
  | operand _ hm hop' herr' ih => exact .operand ih hm hop' herr'

theorem UsedAlong.readAlong (h : a.UsedAlong expr id) : a.ReadAlong expr id := by
  induction h with
  | self => exact .refl
  | operand _ hn hop _ ih => exact ih.tail ⟨_, hn, mem_readOperands_of_mem_useOperands hop⟩

/-- The references that the use of an expression goes behind.  Erroneous references are not
entered. -/
def DereferencedAlong (a : Arena) (expr p : NodeId) : Prop :=
  ∃ id n, a.UsedAlong expr id ∧ a.find? id = some n ∧ n.kind = .unary .deref p ∧
    a.isReference p = .ok true ∧ a.isErroneous p = .ok false

theorem DereferencedAlong.readAlong (h : a.DereferencedAlong expr p) : a.ReadAlong expr p := by
  obtain ⟨id, n, hid, hn, hk, href, -⟩ := h
  refine hid.readAlong.tail ⟨n, hn, mem_readOperands_of_mem_useOperands (a := a) ?_⟩
  rw [useOperands_reference hk href]
  exact List.mem_singleton_self p

/-- A use goes behind the reference at hand, and behind what the uses of its operands go behind. -/
theorem dereferencedAlong_iff (hn : a.find? expr = some n) (herr : a.isErroneous expr = .ok false) :
    a.DereferencedAlong expr p ↔ ∃ op ∈ a.useOperands n, a.isErroneous op = .ok false ∧
      (n.kind = .unary .deref op ∧ p = op ∨ a.DereferencedAlong op p) := by
  constructor
  · rintro ⟨id, m, hid, hm, hk, href, hp⟩
    rcases hid.cases_head hn with rfl | ⟨op, hop, hid⟩
    · cases hn.symm.trans hm
      exact ⟨p, useOperands_reference hk href ▸ List.mem_singleton_self p, hp, .inl ⟨hk, rfl⟩⟩
    · exact ⟨op, hop, hid.expr_not_erroneous, .inr ⟨id, m, hid, hm, hk, href, hp⟩⟩
  · rintro ⟨op, hop, hnot, ⟨hk, rfl⟩ | ⟨id, m, hid, hm, hk, href, hp⟩⟩
    · exact ⟨expr, n, .self herr, hn, hk, isReference_of_mem_useOperands hk hop, hnot⟩
    · exact ⟨id, m, hid.head herr hn hop, hm, hk, href, hp⟩

/-! ### One node that is not read -/

/-- The use of an operand goes behind a reference of `V`, or is behind it. -/
def Leads (a : Arena) (V U : NodeId → Prop) (n : Node) (op : NodeId) : Prop :=
  op ∈ a.useOperands n ∧ a.isErroneous op = .ok false ∧ (n.kind = .unary .deref op ∧ V op ∨ U op)

/-- A node `y` is not marked as read; `V` are the nodes that it is read along with, and `U` those
whose use goes behind a reference that it is read along with. -/
structure Tracks (a : Arena) (y : NodeId) (V U : NodeId → Prop) : Prop where
  unread : ¬ a.IsRead y
  reads : ∀ id n, a.find? id = some n →
    (V id ↔ id = y ∧ n.kind.isVariable = true ∨ ∃ op ∈ n.readOperands, V op)
  uses : ∀ id n, a.find? id = some n → a.isErroneous id = .ok false →
    (U id ↔ ∃ op, a.Leads V U n op)
  reads_of_uses : ∀ id, U id → V id
  fresh : ∀ id, a.find? id = none → ¬ V id

/-- The paths that there are to a node. -/
theorem tracks (hy : ¬ a.IsRead y) : a.Tracks y (fun id => a.IsVariable y ∧ a.ReadAlong id y)
    fun id => a.IsVariable y ∧ ∃ p, a.DereferencedAlong id p ∧ a.ReadAlong p y where
  unread := hy
  reads id n hn := by
    constructor
    · rintro ⟨hvar, hread⟩
      rcases Relation.ReflTransGen.cases_head hread with rfl | ⟨op, ⟨m, hm, hop⟩, hread⟩
      · obtain ⟨m, hm, hk⟩ := hvar
        cases hn.symm.trans hm
        exact .inl ⟨rfl, hk⟩
      · cases hn.symm.trans hm
        exact .inr ⟨op, hop, hvar, hread⟩
    · rintro (⟨rfl, hk⟩ | ⟨op, hop, hvar, hread⟩)
      · exact ⟨⟨n, hn, hk⟩, .refl⟩
      · exact ⟨hvar, .head ⟨n, hn, hop⟩ hread⟩
  uses id n hn herr := by
    constructor
    · rintro ⟨hvar, p, hp, hread⟩
      obtain ⟨op, hop, hnot, ⟨hk, rfl⟩ | hp⟩ := (dereferencedAlong_iff hn herr).1 hp
      · exact ⟨p, hop, hnot, .inl ⟨hk, hvar, hread⟩⟩
      · exact ⟨op, hop, hnot, .inr ⟨hvar, p, hp, hread⟩⟩
    · rintro ⟨op, hop, hnot, ⟨hk, hvar, hread⟩ | ⟨hvar, p, hp, hread⟩⟩
      · exact ⟨hvar, op, (dereferencedAlong_iff hn herr).2 ⟨op, hop, hnot, .inl ⟨hk, rfl⟩⟩, hread⟩
      · exact ⟨hvar, p, (dereferencedAlong_iff hn herr).2 ⟨op, hop, hnot, .inr hp⟩, hread⟩
  reads_of_uses := by
    rintro id ⟨hvar, p, hp, hread⟩
    exact ⟨hvar, hp.readAlong.trans hread⟩
  fresh := by
    rintro id hid ⟨⟨n, hn, -⟩, hread⟩
    rcases Relation.ReflTransGen.cases_head hread with rfl | ⟨op, ⟨m, hm, -⟩, -⟩
    · cases hid.symm.trans hn
    · cases hid.symm.trans hm

/-- An old node is as erroneous as it was. -/
theorem Evolves.of_isErroneous (h : a.Evolves b) (hid : a.find? id ≠ none) {result : Bool}
    (hr : b.isErroneous id = .ok result) : a.isErroneous id = .ok result := by
  obtain ⟨old, hold⟩ := isErroneous_isOk (.inr (Option.isSome_iff_ne_none.2 hid))
  cases hr.symm.trans (h.isErroneous hold)
  exact hold

/-- An old node that is an operand now was one. -/
theorem Evolves.of_mem_useOperands (h : a.Evolves b) (hk : m.kind = n.kind)
    (hop : op ∈ b.useOperands m) (hold : a.find? op ≠ none) : op ∈ a.useOperands n := by
  simp only [useOperands, hk] at hop ⊢
  split at hop
  case h_4 pointer _ =>
    split at hop
    · rename_i href
      cases List.mem_singleton.1 hop
      obtain ⟨target, htarget⟩ := isReference_eq_true_iff.1 href
      rw [isReference_eq_true_iff.2 ⟨target, h.of_referent? (Option.isSome_iff_ne_none.2 hold)
        htarget⟩]
      exact List.mem_singleton_self _
    · cases hop
  all_goals exact hop

namespace Tracks

/-- While the node is not marked, the paths stay if each node keeps its kind and what is read along
with it, or leads nowhere else than before. -/
theorem evolve (h : a.Tracks y V U) (hab : a.Evolves b) (hy : ¬ b.IsRead y)
    (hnode : ∀ id m, b.find? id = some m →
      (∃ n, a.find? id = some n ∧ m.kind = n.kind ∧ m.readOperands = n.readOperands) ∨
      (V id ↔ id = y ∧ m.kind.isVariable = true ∨ ∃ op ∈ m.readOperands, V op) ∧ ¬ U id ∧
        ∀ op, ¬ b.Leads V U m op) : b.Tracks y V U where
  unread := hy
  reads id m hm := by
    rcases hnode id m hm with ⟨n, hn, hk, hops⟩ | ⟨hreads, -⟩
    · rw [hk, hops]
      exact h.reads id n hn
    · exact hreads
  uses id m hm herr := by
    rcases hnode id m hm with ⟨n, hn, hk, -⟩ | ⟨-, huse, hleads⟩
    · rw [h.uses id n hn (hab.of_isErroneous (by rw [hn]; nofun) herr)]
      refine exists_congr fun op => ⟨fun ⟨hop, hnot, hv⟩ => ?_, fun ⟨hop, hnot, hv⟩ => ?_⟩
      · exact ⟨hab.mem_useOperands hk hop, hab.isErroneous hnot, hk ▸ hv⟩
      · have hold : a.find? op ≠ none := fun hnone =>
          h.fresh op hnone (hv.elim And.right (h.reads_of_uses op))
        exact ⟨hab.of_mem_useOperands hk hop hold, hab.of_isErroneous hold hnot, hk ▸ hv⟩
    · exact ⟨fun hu => absurd hu huse, fun ⟨op, hop⟩ => absurd hop (hleads op)⟩
  reads_of_uses := h.reads_of_uses
  fresh id hid := h.fresh id (Option.eq_none_iff_forall_ne_some.2 fun n hn => by
    obtain ⟨m, hm, -⟩ := hab.node id n hn
    cases hid.symm.trans hm)

/-- What leads to the node is old, and as erroneous as it was. -/
theorem not_erroneous (h : a.Tracks y V U) (hab : a.Evolves b) (hid : V id)
    (herr : b.isErroneous id = .ok false) : a.isErroneous id = .ok false :=
  hab.of_isErroneous (fun hnone => h.fresh id hnone hid) herr

/-- What does not go behind such a reference does not do so later either. -/
theorem not_live (h : a.Tracks y V U) (hab : a.Evolves b)
    (hlive : ¬ (a.isErroneous id = .ok false ∧ U id)) :
    ¬ (b.isErroneous id = .ok false ∧ U id) := fun ⟨herr, hu⟩ =>
  hlive ⟨h.not_erroneous hab (h.reads_of_uses id hu) herr, hu⟩

/-- The node is marked with what it is read along with. -/
theorem of_readAlong (h : a.Tracks y V U) (hy : a.IsVariable y) (hread : a.ReadAlong id y) :
    V id := by
  induction hread using Relation.ReflTransGen.head_induction_on with
  | refl =>
    obtain ⟨n, hn, hk⟩ := hy
    exact (h.reads y n hn).2 (.inl ⟨rfl, hk⟩)
  | head hop _ ih =>
    obtain ⟨n, hn, hop⟩ := hop
    exact (h.reads _ n hn).2 (.inr ⟨_, hop, ih⟩)

end Tracks

/-! ### Recordings -/

theorem Marked.old (h : a.Marked b) (hm : b.find? id = some m) :
    ∃ n, a.find? id = some n ∧ m.kind = n.kind ∧ m.readOperands = n.readOperands := by
  obtain ⟨n, hn, hnm⟩ := h.sameButReads.symm.find? hm
  refine ⟨n, hn, (congrArg Node.kind hnm :).symm, ?_⟩
  rw [← m.readOperands_unread, ← hnm, n.readOperands_unread]

/-- Recording nodes that the node is not read along with does not mark it. -/
theorem Records.tracks {exprs : List NodeId} (h : Records room exprs a b) (ht : a.Tracks y V U)
    (hexprs : ∀ expr ∈ exprs, ¬ V expr) : b.Tracks y V U := by
  refine ht.evolve h.marked.evolves (fun hy => ?_) fun id m hm => .inl (h.marked.old hm)
  rcases (h.isRead_iff y).1 hy with hy | ⟨hvar, expr, hexpr, hread⟩
  · exact ht.unread hy
  · exact hexprs expr hexpr (ht.of_readAlong hvar hread)

/-- Recording a node that it is read along with marks it. -/
theorem Records.isRead (h : Records room [expr] a b) (ht : a.Tracks y V U) (hexpr : V expr) :
    b.IsRead y := by
  have hrecorded : ∀ room id, b.Recorded room id → V id → b.IsRead y := by
    intro room
    induction room with
    | zero => exact fun _ hid => hid.elim
    | succ room ih =>
      rintro id ⟨m, hm, hread, hops⟩ hid
      obtain ⟨n, hn, hk, hreads⟩ := h.marked.old hm
      rcases (ht.reads id n hn).1 hid with ⟨rfl, hvar⟩ | ⟨op, hop, hv⟩
      · exact ⟨m, hm, hread (hk ▸ hvar)⟩
      · exact ih op (hops op (hreads ▸ hop)) hv
  exact hrecorded room expr (h.recorded expr (List.mem_singleton_self expr)) hexpr

/-! ### Changes -/

namespace Tracks

variable (h : a.Tracks y V U) (hb : a.Rebuilt expr k b) (hn : a.find? expr = some n)
include h hb hn

/-- A node is rebuilt that leads behind no reference, and stays at the end of the same paths. -/
theorem rebuilt (hk : k.skeleton = n.kind.skeleton) (hvar : k.isVariable = false)
    (hreads : ∀ m : Node, m.kind = k →
      m.flags.has .locationWrapper = n.flags.has .locationWrapper →
        (V expr ↔ ∃ op ∈ m.readOperands, V op)) (hexpr : ¬ U expr)
    (hleads : ∀ m : Node, m.kind = k → ∀ op, ¬ b.Leads V U m op) : b.Tracks y V U := by
  have hab := evolves_rebuilt hb hn hk
  obtain ⟨n', f, hn', hf, rfl⟩ := hb
  cases hn.symm.trans hn'
  refine h.evolve hab (fun ⟨m, hm, hread⟩ => ?_) fun id m hm => ?_
  · rcases find?_change_cases hn hm with ⟨rfl, rfl⟩ | hm
    · rw [NodeFlags.has_union, Bool.or_eq_true] at hread
      rcases hread with hread | hread
      · exact h.unread ⟨n, hn, hread⟩
      · rcases flag_of_has_derivedFlags hf hread with hflag | hflag <;> cases hflag
    · exact h.unread ⟨m, hm, hread⟩
  · rcases find?_change_cases hn hm with ⟨rfl, rfl⟩ | hm
    · have hsame := hreads { n with kind := k, flags := n.flags.union f } rfl
        (becomes_rebuilt hk hf).locationWrapper_eq
      refine .inr ⟨?_, hexpr, hleads _ rfl⟩
      rw [hsame, hvar]
      simp
    · exact .inl ⟨m, hm, rfl, rfl⟩

omit hb in
/-- A node is read along with what its only operand is read along with. -/
theorem reads_operand (hvar : n.kind.isVariable = false) (hops : n.readOperands = [op]) :
    V expr ↔ V op := by
  rw [h.reads expr n hn, hvar, hops]
  simp

omit hb hn in
/-- Operands that lead behind no reference still lead behind none. -/
theorem not_leads (hab : a.Evolves b) (hm : ∀ pointer, m.kind ≠ .unary .deref pointer)
    (hops : ∀ op ∈ b.useOperands m, ¬ (a.isErroneous op = .ok false ∧ U op)) (op : NodeId) :
    ¬ b.Leads V U m op := by
  rintro ⟨hop, herr, ⟨hk, -⟩ | hu⟩
  · exact hm op hk
  · exact h.not_live hab (hops op hop) ⟨herr, hu⟩

end Tracks

variable {f : NodeId → NodeKind}

/-- What is recorded: every variable that is read. -/
abbrev Recording.complete : Recording := fun room expr => Records room [expr]

theorem Recording.complete_marks : Recording.complete.Marks := fun _ _ _ _ h => h.marked

/-- The operand in the place of the value is exchanged. -/
theorem Tracks.exchanged (h : a.Tracks y V U) (hb : a.Replaced expr (f v) b)
    (hn : a.find? expr = some n) (hf : n.kind.Carries op f) (hv : V v ↔ V op)
    (hlive : ¬ (a.isErroneous v = .ok false ∧ U v)) (hexpr : ¬ U expr) : b.Tracks y V U := by
  rcases hb with ⟨-, rfl⟩ | ⟨-, hb⟩
  · exact h
  have hab := evolves_rebuilt hb hn hf.skeleton_eq
  refine h.rebuilt hb hn hf.skeleton_eq hf.exchange.isVariable_eq (fun m hm _ => ?_) hexpr
    fun m hm => h.not_leads hab (hm ▸ hf.exchange.ne_deref) fun o ho => ?_
  · rw [h.reads_operand hn hf.isVariable_eq hf.readOperands, ← hv,
      (hm ▸ hf.exchange : m.kind.Carries v f).readOperands]
    simp
  · rw [useOperands_carries (hm ▸ hf.exchange : m.kind.Carries v f)] at ho
    exact List.mem_singleton.1 ho ▸ hlive

/-- A location wrapper is rebuilt, as a location wrapper or as a value. -/
theorem Tracks.rewrapped {wrapper : UnaryOp} (h : a.Tracks y V U)
    (hb : a.Rebuilt expr (.unary wrapper v) b) (hn : a.find? expr = some n)
    (hwrapper : wrapper = .viewConvert ∨ wrapper = .nonLvalue)
    (hk : n.kind = .unary .viewConvert op) (hw : n.wrapped? = some op) (hv : V v ↔ V op)
    (hlive : ¬ (a.isErroneous v = .ok false ∧ U v)) (hexpr : ¬ U expr) : b.Tracks y V U := by
  have hskeleton : (NodeKind.unary wrapper v).skeleton = n.kind.skeleton := by
    rw [hk]
    rcases hwrapper with rfl | rfl <;> rfl
  have hne : wrapper ≠ .deref := by
    rintro rfl
    rcases hwrapper with hwrapper | hwrapper <;> cases hwrapper
  refine h.rebuilt hb hn hskeleton rfl (fun m hm hflag => ?_) hexpr fun m hm =>
    h.not_leads (evolves_rebuilt hb hn hskeleton) (fun pointer hp => ?_) fun o ho => ?_
  · rw [h.reads_operand hn (by rw [hk]; rfl) (Node.readOperands_of_wrapped? hw), ← hv,
      Node.readOperands_of_wrapped? (Node.wrapped?_of_kind hw hflag hm hwrapper)]
    simp
  · cases hm.symm.trans hp
    exact hne rfl
  · rw [useOperands_unary hm hne] at ho
    split at ho
    · exact List.mem_singleton.1 ho ▸ hlive
    · cases ho

/-- A node is moved. -/
theorem Tracks.moved {span : Span} (h : a.Tracks y V U) (hn : a.find? id = some n) :
    (a.change id fun n => { n with span }).Tracks y V U := by
  refine h.evolve (evolves_moved hn) (fun ⟨m, hm, hread⟩ => ?_) fun other m hm => ?_
  · rcases find?_change_cases hn hm with ⟨rfl, rfl⟩ | hm
    · exact h.unread ⟨n, hn, hread⟩
    · exact h.unread ⟨m, hm, hread⟩
  · rcases find?_change_cases hn hm with ⟨rfl, rfl⟩ | hm
    · exact .inl ⟨n, hn, rfl, rfl⟩
    · exact .inl ⟨m, hm, rfl, rfl⟩

/-- A dereference of a node is appended that the node in question is not read along with. -/
theorem Tracks.append {target : NodeId} {span : Span} {f : NodeFlags} (h : a.Tracks y V U)
    (hf : (a.append ⟨.unary .deref v, some target, .empty, span⟩).derivedFlags
      ⟨.unary .deref v, some target, .empty, span⟩ = .ok f) (hv : ¬ V v) :
    (a.append ⟨.unary .deref v, some target, f, span⟩).Tracks y V U := by
  have hnew : ¬ V ⟨a.size⟩ := h.fresh _ (find?_eq_none_iff.2 (Nat.le_refl _))
  refine h.evolve (evolves_append_access hf rfl) (fun ⟨m, hm, hread⟩ => ?_) fun id m hm => ?_
  · rcases find?_append_cases hm with ⟨-, rfl⟩ | hm
    · rcases flag_of_has_derivedFlags hf hread with hflag | hflag <;> cases hflag
    · exact h.unread ⟨m, hm, hread⟩
  · rcases find?_append_cases hm with ⟨rfl, rfl⟩ | hm
    · refine .inr ⟨iff_of_false hnew ?_, fun hu => hnew (h.reads_of_uses _ hu), ?_⟩
      · simp [Node.readOperands, NodeKind.isVariable, UnaryOp.readsOperand, hv]
      · rintro o ⟨ho, -, hleads⟩
        cases List.mem_singleton.1 (mem_readOperands_of_mem_useOperands ho)
        exact hv (hleads.elim And.right (h.reads_of_uses _))
    · exact .inl ⟨m, hm, rfl, rfl⟩

/-- Both branches of a conditional are exchanged. -/
theorem Tracks.branches {first second third w : NodeId} (h : a.Tracks y V U)
    (hb : a.Replaced expr (.cond first (some v) w) b) (hn : a.find? expr = some n)
    (hk : n.kind = .cond first (some second) third) (hv : V v ↔ V second) (hw : V w ↔ V third)
    (hlive : ¬ (a.isErroneous v = .ok false ∧ U v)) (hlive' : ¬ (a.isErroneous w = .ok false ∧ U w))
    (hexpr : ¬ U expr) : b.Tracks y V U := by
  rcases hb with ⟨-, rfl⟩ | ⟨-, hb⟩
  · exact h
  have hskeleton : (NodeKind.cond first (some v) w).skeleton = n.kind.skeleton := by
    rw [hk]
    rfl
  refine h.rebuilt hb hn hskeleton rfl (fun m hm _ => ?_) hexpr fun m hm =>
    h.not_leads (evolves_rebuilt hb hn hskeleton) (by rw [hm]; exact nofun) fun o ho => ?_
  · rw [h.reads expr n hn]
    simp [Node.readOperands, hk, hm, NodeKind.isVariable, hv, hw]
  · rw [mem_useOperands_cond hm] at ho
    rcases List.mem_pair.1 ho with rfl | rfl
    · exact hlive
    · exact hlive'

/-- What is done at a node when its operand is done marks nothing, if the operand leads behind no
reference. -/
theorem Concludes.tracks (h : Concludes .complete room mode expr n op c v d r) (ht : c.Tracks y V U)
    (hm : c.find? expr = some m) (hk : m.kind = n.kind) (hw : m.wrapped? = n.wrapped?)
    (hv : V v ↔ V op) (hlive : ¬ (c.isErroneous v = .ok false ∧ U v)) (hexpr : ¬ U expr)
    (hderef : n.kind = .unary .deref op → v ≠ op → ¬ V op) :
    d.Tracks y V U ∧ (V r ↔ V expr) ∧ ¬ (d.isErroneous r = .ok false ∧ U r) := by
  have hreads : n.kind = .unary .deref op → (V expr ↔ V op) := fun hkind => by
    refine ht.reads_operand hm (by rw [hk, hkind]; rfl) ?_
    simp [Node.readOperands, hk, hkind, UnaryOp.readsOperand]
  cases h with
  | exchanged hf _ hd =>
    exact ⟨ht.exchanged hd hm (hk ▸ hf) hv hlive hexpr, .rfl, fun hu => hexpr hu.2⟩
  | kept hkind hwrapped _ hd =>
    refine ⟨ht.rewrapped hd hm ?_ (hk.trans hkind) (hw.trans hwrapped) hv hlive hexpr, .rfl,
      fun hu => hexpr hu.2⟩
    cases mode.rvalue
    · exact .inl rfl
    · exact .inr rfl
  | dropped hkind hwrapped _ hd =>
    have hsame := ht.reads_operand hm (by rw [hk, hkind]; rfl)
      (Node.readOperands_of_wrapped? (hw.trans hwrapped))
    rcases hd with rfl | ⟨span, m', hm', rfl⟩
    · exact ⟨ht, hv.trans hsame.symm, hlive⟩
    · exact ⟨ht.moved hm', hv.trans hsame.symm, ht.not_live (evolves_moved hm') hlive⟩
  | same => exact ⟨ht, .rfl, fun hu => hexpr hu.2⟩
  | lost hkind => exact ⟨ht, hv.trans (hreads hkind).symm, hlive⟩
  | @built e target span f hkind hother _ hread hf =>
    have hop := hderef hkind hother
    have hvalue : ¬ V v := hv.not.2 hop
    have hte := hread.tracks ht fun id hid => List.mem_singleton.1 hid ▸ hvalue
    have hnew : ¬ V ⟨e.size⟩ := hte.fresh _ (find?_eq_none_iff.2 (Nat.le_refl _))
    exact ⟨hte.append hf hvalue, iff_of_false hnew ((hreads hkind).not.2 hop),
      fun hu => hnew (hte.reads_of_uses _ hu.2)⟩

/-! ### Uses -/

/-- A use of an expression reads the node: along with the expression, or behind a reference. -/
def UseReads (a : Arena) (V U : NodeId → Prop) (mode : UseMode) (expr : NodeId) : Prop :=
  a.isErroneous expr = .ok false ∧ if mode.read then V expr else U expr

theorem UseReads.reads (h : a.UseReads V U mode expr) (ht : a.Tracks y V U) : V expr := by
  have hu := h.2
  split at hu
  · exact hu
  · exact ht.reads_of_uses _ hu

/-- The use of an operand that leads to the node reads it. -/
theorem Leads.useReads (loc : Span) (h : a.Leads V U n op) (ht : a.Tracks y V U)
    (hread : mode.read = false) : a.UseReads V U (mode.below n.kind loc) op := by
  obtain ⟨-, herr, hop⟩ := h
  refine ⟨herr, ?_⟩
  unfold UseMode.below
  split
  · exact hop.elim And.right (ht.reads_of_uses op)
  · rename_i hk
    rw [if_neg (by simp [hread])]
    exact hop.resolve_left fun hderef => hk _ hderef.1

section Tracks

variable (ht : a.Tracks y V U)
include ht

theorem Tracks.not_useReads (hab : a.Evolves b) (h : ¬ a.UseReads V U mode expr) :
    ¬ b.UseReads V U mode expr := by
  rintro ⟨herr, hu⟩
  refine h ⟨ht.not_erroneous hab ?_ herr, hu⟩
  split at hu
  · exact hu
  · exact ht.reads_of_uses _ hu

/-- Where a use of an expression does not read the node, it goes behind no reference. -/
theorem Tracks.not_uses (h : ¬ a.UseReads V U mode expr) :
    ¬ (a.isErroneous expr = .ok false ∧ U expr) := by
  rintro ⟨herr, hu⟩
  refine h ⟨herr, ?_⟩
  split
  · exact ht.reads_of_uses _ hu
  · exact hu

/-- Where a use of an expression does not read the node, the uses of its operands do not. -/
theorem Tracks.not_useReads_operand (loc : Span) (hn : a.find? expr = some n)
    (herr : a.isErroneous expr = .ok false) (h : ¬ a.UseReads V U mode expr)
    (hop : op ∈ a.useOperands n) : ¬ a.UseReads V U (mode.below n.kind loc) op := by
  intro hu
  have hreads : V expr :=
    (ht.reads expr n hn).2 (.inr ⟨op, mem_readOperands_of_mem_useOperands hop, hu.reads ht⟩)
  refine h ⟨herr, ?_⟩
  split
  · exact hreads
  · rename_i hread
    refine (ht.uses expr n hn herr).2 ⟨op, hop, hu.1, ?_⟩
    obtain ⟨-, hu⟩ := hu
    unfold UseMode.below at hu
    split at hu
    · rename_i hk
      have hop := mem_readOperands_of_mem_useOperands hop
      simp only [Node.readOperands, hk, UnaryOp.readsOperand, if_true, List.mem_singleton] at hop
      exact .inl ⟨hop ▸ hk, hu⟩
    · rw [if_neg hread] at hu
      exact .inr hu

end Tracks

/-- An erroneous operand is its own use. -/
theorem Classified.eq_or_accepted {R : Recording} (h : Classified R room mode a expr b r) :
    r = expr ∨ a.isErroneous expr = .ok false := by
  cases h with
  | erroneous => exact .inl rfl
  | rest => exact .inl rfl
  | node h => exact .inr h.accepted
  | cond => exact .inl rfl

/-- A node that is entered is read if the use reads it. -/
theorem Enters.tracks (h : Enters .complete room mode a expr n b) (ht : a.Tracks y V U) :
    (a.UseReads V U mode expr → b.IsRead y ∨
      mode.read = false ∧ b.Tracks y V U ∧ ∃ op, b.Leads V U n op) ∧
    (¬ a.UseReads V U mode expr → b.Tracks y V U ∧ ¬ b.UseReads V U mode expr) := by
  have herr := h.accepted
  cases hread : mode.read with
  | true =>
    have hrecords := h.read hread
    refine ⟨fun hu => .inl (hrecords.isRead ht (hu.reads ht)), fun hu => ?_⟩
    refine ⟨hrecords.tracks ht fun id hid => List.mem_singleton.1 hid ▸ fun hv => hu ⟨herr, ?_⟩,
      ht.not_useReads hrecords.marked.evolves hu⟩
    rwa [if_pos hread]
  | false =>
    obtain rfl := h.unread hread
    refine ⟨fun hu => .inr ⟨rfl, ht, ?_⟩, fun hu => ⟨ht, hu⟩⟩
    obtain ⟨-, hu⟩ := hu
    rw [if_neg (by simp [hread])] at hu
    exact (ht.uses expr n h.node herr).1 hu

/-- A use marks the node if it reads it.  If not, the paths stay. -/
def KeepsTrack (y : NodeId) (V U : NodeId → Prop) (mode : UseMode) (a : Arena) (expr : NodeId)
    (b : Arena) (r : NodeId) : Prop :=
  (a.UseReads V U mode expr → b.IsRead y) ∧ (¬ a.UseReads V U mode expr →
    b.Tracks y V U ∧ (V r ↔ V expr) ∧ ¬ (b.isErroneous r = .ok false ∧ U r))

section KeepsTrack

variable {loc : Span} (h : Enters .complete (room + 1) mode a expr n b) (ht : a.Tracks y V U)
include h ht

theorem keepsTrack_rest (hops : b.useOperands n = []) : KeepsTrack y V U mode a expr b expr := by
  obtain ⟨hyes, hno⟩ := h.tracks ht
  refine ⟨fun hu => (hyes hu).elim id fun ⟨_, _, op, hop, _⟩ => ?_, fun hu => ?_⟩
  · rw [hops] at hop
    cases hop
  · obtain ⟨ht, hu⟩ := hno hu
    exact ⟨ht, .rfl, ht.not_uses hu⟩

theorem keepsTrack_node (hops : b.useOperands n = [op])
    (hop : Classified .complete room (mode.below n.kind loc) b op c v)
    (hd : Concludes .complete room mode expr n op c v d r)
    (ih : b.Tracks y V U → KeepsTrack y V U (mode.below n.kind loc) b op c v) :
    KeepsTrack y V U mode a expr d r := by
  have hb := Recording.complete_marks
  have hmem : op ∈ b.useOperands n := hops ▸ List.mem_singleton_self op
  have herr := (h.marked hb).evolves.isErroneous h.accepted
  obtain ⟨m, hm, hk, hw, -⟩ := hop.user hb herr h.node hmem
  have hcd := hd.evolves hb hm (congrArg NodeKind.skeleton hk)
  obtain ⟨hyes, hno⟩ := h.tracks ht
  refine ⟨fun hu => ?_, fun hu => ?_⟩
  · rcases hyes hu with hread | ⟨hread, ht, o, hleads⟩
    · exact hcd.isRead ((hop.evolves hb).isRead hread)
    · cases List.mem_singleton.1 (hops ▸ hleads.1)
      exact hcd.isRead ((ih ht).1 (hleads.useReads loc ht hread))
  · obtain ⟨ht, hu⟩ := hno hu
    have hbelow := ht.not_useReads_operand loc h.node herr hu hmem
    obtain ⟨htc, hv, hlive⟩ := (ih ht).2 hbelow
    refine hd.tracks htc hm hk hw hv hlive (fun huses => ht.not_uses hu ⟨herr, huses⟩)
      fun hkind hother hvop => ?_
    -- an erroneous reference would be its own value
    have hnot := hop.eq_or_accepted.resolve_left hother
    refine hbelow ⟨hnot, ?_⟩
    rw [hkind]
    exact hvop

theorem keepsTrack_cond {e : Arena} {first second third w : NodeId}
    (hk : n.kind = .cond first (some second) third)
    (hsecond : Classified .complete room mode b second c v)
    (hthird : Classified .complete room mode c third d w)
    (he : d.Replaced expr (.cond first (some v) w) e)
    (ih : b.Tracks y V U → KeepsTrack y V U mode b second c v)
    (ih' : c.Tracks y V U → KeepsTrack y V U mode c third d w) :
    KeepsTrack y V U mode a expr e expr := by
  have hb := Recording.complete_marks
  have hmem : ∀ o, o ∈ b.useOperands n ↔ o = second ∨ o = third := fun o => by
    rw [mem_useOperands_cond hk, List.mem_pair]
  have hbelow : mode.below n.kind mode.loc = mode :=
    UseMode.below_of_ne_deref fun _ hp => by cases hk.symm.trans hp
  have herr := (h.marked hb).evolves.isErroneous h.accepted
  have hbc := hsecond.evolves hb
  have hcd := hthird.evolves hb
  obtain ⟨m, hm, hkm⟩ := hsecond.user_cond hb hthird herr h.node hk
  have hkind := hkm.trans hk
  have hde : d.Evolves e := evolves_replaced he hm (by rw [hkind]; rfl)
  obtain ⟨hyes, hno⟩ := h.tracks ht
  refine ⟨fun hu => ?_, fun hu => ?_⟩
  · rcases hyes hu with hread | ⟨hread, ht, o, hleads⟩
    · exact hde.isRead (hcd.isRead (hbc.isRead hread))
    have huses := hleads.useReads mode.loc ht hread
    rw [hbelow] at huses
    refine hde.isRead ?_
    by_cases hu : b.UseReads V U mode second
    · exact hcd.isRead ((ih ht).1 hu)
    · obtain rfl := ((hmem o).1 hleads.1).resolve_left fun ho => hu (ho ▸ huses)
      exact (ih' ((ih ht).2 hu).1).1 ⟨hbc.isErroneous huses.1, huses.2⟩
  · obtain ⟨ht, hu⟩ := hno hu
    have hoperand : ∀ o, o = second ∨ o = third → ¬ b.UseReads V U mode o := fun o ho =>
      hbelow ▸ ht.not_useReads_operand mode.loc h.node herr hu ((hmem o).2 ho)
    obtain ⟨htc, hv, hlive⟩ := (ih ht).2 (hoperand second (.inl rfl))
    obtain ⟨htd, hw, hlive'⟩ := (ih' htc).2 (ht.not_useReads hbc (hoperand third (.inr rfl)))
    have huses : ¬ U expr := fun huses => ht.not_uses hu ⟨herr, huses⟩
    exact ⟨htd.branches he hm hkind hv hw (htc.not_live hcd hlive) hlive' huses, .rfl,
      fun hu => huses hu.2⟩

end KeepsTrack

/-- Uses keep track of the paths to a node that is not marked. -/
theorem Classified.tracks (h : Classified .complete room mode a expr b r) (ht : a.Tracks y V U) :
    KeepsTrack y V U mode a expr b r := by
  induction h with
  | erroneous herr =>
    refine ⟨fun hu => ?_, fun _ => ⟨ht, .rfl, fun hu => ?_⟩⟩
    · cases herr.symm.trans hu.1
    · cases herr.symm.trans hu.1
  | rest h hops => exact keepsTrack_rest h ht hops
  | node h hops hop hd ih => exact keepsTrack_node h ht hops hop hd ih
  | cond h hk hsecond hthird he ih ih' =>
    exact keepsTrack_cond h ht hk hsecond hthird he ih ih'

end Arena

end ExprTree
