import ExprTree.Proofs.Appends
import ExprTree.Proofs.ErrorReports
import ExprTree.Proofs.Footprint
import ExprTree.Proofs.Resting

/-!
# Complete recordings

Recording a read marks all variables that are read along with an expression, and no others, unless a
level of recursion is refused on the way.  A refused level is reported, and all that is seen of it
is the report.

* `Arena.IsRead`, `Arena.IsVariable` — the marks of reads, and the nodes that may get them.
* `Arena.Recorded` — nodes of which a read has been recorded to the end.
* `Arena.Records` — an arena, and the same after complete recordings.
* `Queue.Unrefused` — queues between which no level has been refused.
* `Pass.recordRead_records` — a recording is complete, or a level is refused.
-/

namespace ExprTree

/-! ### Marks -/

namespace Arena

variable {a b c : Arena} {id op expr y : NodeId} {exprs : List NodeId} {n : Node} {room : Nat}

/-- A node that is marked as read. -/
def IsRead (a : Arena) (id : NodeId) : Prop := ∃ n, a.find? id = some n ∧ n.flags.has .read = true

/-- A variable or a parameter. -/
def IsVariable (a : Arena) (id : NodeId) : Prop :=
  ∃ n, a.find? id = some n ∧ n.kind.isVariable = true

/-- What is read along with a node is there within so many levels, and its variables are marked as
read. -/
def Recorded (a : Arena) : Nat → NodeId → Prop
  | 0, _ => False
  | room + 1, id => ∃ n, a.find? id = some n ∧
    (n.kind.isVariable = true → n.flags.has .read = true) ∧
    ∀ op ∈ n.readOperands, a.Recorded room op

theorem Recorded.succ (h : a.Recorded room id) : a.Recorded (room + 1) id := by
  induction room generalizing id with
  | zero => exact h.elim
  | succ room ih =>
    obtain ⟨n, hn, hread, hops⟩ := h
    exact ⟨n, hn, hread, fun op hop => ih (hops op hop)⟩

theorem Evolves.isRead (h : a.Evolves b) (hid : a.IsRead id) : b.IsRead id := by
  obtain ⟨n, hn, hread⟩ := hid
  obtain ⟨m, hm, hnm⟩ := h.node id n hn
  exact ⟨m, hm, hnm.flag_mono _ hread⟩

/-! ### Marked arenas -/

theorem SameButReads.readOperand (h : a.SameButReads b) (hop : a.ReadOperand id op) :
    b.ReadOperand id op := by
  obtain ⟨n, hn, hop⟩ := hop
  obtain ⟨m, hm, hmn⟩ := h.find? hn
  refine ⟨m, hm, ?_⟩
  rwa [← m.readOperands_unread, hmn, n.readOperands_unread]

theorem SameButReads.readAlong (h : a.SameButReads b) (hy : a.ReadAlong id y) : b.ReadAlong id y :=
  Relation.ReflTransGen.mono (fun _ _ hop => h.readOperand hop) _ _ hy

theorem SameButReads.isVariable (h : a.SameButReads b) (hid : a.IsVariable id) :
    b.IsVariable id := by
  obtain ⟨n, hn, hk⟩ := hid
  obtain ⟨m, hm, hmn⟩ := h.find? hn
  have hkind : m.kind = n.kind := (congrArg Node.kind hmn :)
  exact ⟨m, hm, hkind ▸ hk⟩

theorem Marked.recorded (h : a.Marked b) (hid : a.Recorded room id) : b.Recorded room id := by
  induction room generalizing id with
  | zero => exact hid.elim
  | succ room ih =>
    obtain ⟨n, hn, hread, hops⟩ := hid
    obtain ⟨m, hm, hmn⟩ := h.find? hn
    have hkind : m.kind = n.kind := (congrArg Node.kind hmn :)
    refine ⟨m, hm, fun hk => ?_, fun op hop => ?_⟩
    · obtain ⟨m', hm', hread⟩ := h.evolves.isRead ⟨n, hn, hread (hkind ▸ hk)⟩
      cases hm.symm.trans hm'
      exact hread
    · rw [← m.readOperands_unread, hmn, n.readOperands_unread] at hop
      exact ih (hops op hop)

/-! ### Recordings -/

/-- Of some expressions, reads have been recorded to the end, and nothing else has happened. -/
structure Records (room : Nat) (exprs : List NodeId) (a b : Arena) : Prop where
  marked : a.Marked b
  isRead_iff : ∀ y, b.IsRead y ↔
    a.IsRead y ∨ a.IsVariable y ∧ ∃ expr ∈ exprs, a.ReadAlong expr y
  recorded : ∀ expr ∈ exprs, b.Recorded room expr

theorem records_nil : Records room [] a a where
  marked := .refl
  isRead_iff y := by simp
  recorded := by simp

theorem Records.cons (h : Records room [expr] a b) (h' : Records room exprs b c) :
    Records room (expr :: exprs) a c where
  marked := h.marked.trans h'.marked
  isRead_iff y := by
    have hsame := h.marked.sameButReads
    rw [h'.isRead_iff, h.isRead_iff]
    simp only [List.mem_cons, List.not_mem_nil, or_false, exists_eq_or_imp, exists_eq_left]
    constructor
    · rintro ((hy | ⟨hy, hread⟩) | ⟨hy, e, he, hread⟩)
      · exact .inl hy
      · exact .inr ⟨hy, .inl hread⟩
      · exact .inr ⟨hsame.symm.isVariable hy, .inr ⟨e, he, hsame.symm.readAlong hread⟩⟩
    · rintro (hy | ⟨hy, hread | ⟨e, he, hread⟩⟩)
      · exact .inl (.inl hy)
      · exact .inl (.inr ⟨hy, hread⟩)
      · exact .inr ⟨hsame.isVariable hy, e, he, hsame.readAlong hread⟩
  recorded := by
    rintro e (_ | ⟨_, he⟩)
    · exact h'.marked.recorded (h.recorded expr (List.mem_singleton_self expr))
    · exact h'.recorded e he

/-- A variable is marked. -/
theorem records_variable (hn : a.find? expr = some n) (hk : n.kind.isVariable = true) :
    Records (room + 1) [expr] a (a.change expr Node.markRead) where
  marked := .mark .refl hn
  isRead_iff y := by
    have hops : ∀ op, ¬ a.ReadOperand expr op := by
      rintro op ⟨m, hm, hop⟩
      cases hn.symm.trans hm
      rw [Node.readOperands_of_not_isExpression (NodeKind.isExpression_of_isVariable hk)] at hop
      cases hop
    have halong : a.ReadAlong expr y ↔ y = expr := by
      refine ⟨fun h => ?_, fun h => h ▸ .refl⟩
      rcases Relation.ReflTransGen.cases_head h with rfl | ⟨op, hop, -⟩
      · rfl
      · exact absurd hop (hops op)
    simp only [List.mem_singleton, exists_eq_left, halong]
    constructor
    · rintro ⟨m, hm, hread⟩
      rcases find?_change_cases hn hm with ⟨rfl, -⟩ | hm
      · exact .inr ⟨⟨n, hn, hk⟩, rfl⟩
      · exact .inl ⟨m, hm, hread⟩
    · rintro (hy | ⟨-, rfl⟩)
      · exact (evolves_change hn (becomes_markRead n)).isRead hy
      · exact ⟨n.markRead, find?_change_self hn, by simp [Node.markRead]⟩
  recorded e he := by
    cases List.mem_singleton.1 he
    refine ⟨n.markRead, find?_change_self hn, fun _ => by simp [Node.markRead], fun op hop => ?_⟩
    rw [Node.readOperands_of_not_isExpression (n := n.markRead)
      (NodeKind.isExpression_of_isVariable hk)] at hop
    cases hop

/-- Any other node is recorded with its operands. -/
theorem Records.node (h : Records room n.readOperands a b) (hn : a.find? expr = some n)
    (hk : n.kind.isVariable = false) : Records (room + 1) [expr] a b where
  marked := h.marked
  isRead_iff y := by
    rw [h.isRead_iff]
    simp only [List.mem_singleton, exists_eq_left]
    refine or_congr_right (and_congr_right fun ⟨m, hm, hmk⟩ => ⟨?_, fun halong => ?_⟩)
    · rintro ⟨op, hop, halong⟩
      exact .head ⟨n, hn, hop⟩ halong
    · rcases Relation.ReflTransGen.cases_head halong with rfl | ⟨op, ⟨m', hm', hop⟩, halong⟩
      · cases hn.symm.trans hm
        cases hk.symm.trans hmk
      · cases hn.symm.trans hm'
        exact ⟨op, hop, halong⟩
  recorded e he := by
    cases List.mem_singleton.1 he
    obtain ⟨m, hm, hmn⟩ := h.marked.find? hn
    have hkind : m.kind = n.kind := (congrArg Node.kind hmn :)
    refine ⟨m, hm, fun hmk => ?_, fun op hop => h.recorded op ?_⟩
    · rw [hkind, hk] at hmk
      cases hmk
    · rwa [← n.readOperands_unread, ← hmn, m.readOperands_unread]

end Arena

/-! ### Refused levels -/

/-- The number of reports with a code. -/
def Queue.reports (q : Queue) (code : Code) : Nat :=
  q.diagnostics.toList.countP fun d => d.code == code

/-- All reports have been kept, and no level of recursion has been refused in between. -/
def Queue.Unrefused (q q' : Queue) : Prop :=
  q.config = .unlimited ∧ q'.reports .tooDeep = q.reports .tooDeep

theorem Queue.reports_offerError (q : Queue) (d : Diagnostic) (code : Code) :
    (q.offerError d).2.reports code =
      q.reports code + if d.code = code ∧ (q.offerError d).1 = true then 1 else 0 := by
  rw [reports, diagnostics_offerError, List.countP_append]
  cases (q.offerError d).1 <;> simp [reports, List.countP_singleton]

/-- A refused level is seen where all reports are kept. -/
theorem Queue.not_unrefused (q : Queue) (span : Span) (limit : Nat) :
    ¬ q.Unrefused (q.offerError (.tooDeeplyNested span limit)).2 := by
  rintro ⟨hconfig, hreports⟩
  have hkept : (q.offerError (.tooDeeplyNested span limit)).1 = true := by
    simp [offerError, keepsError, limitReached, hconfig, QueueConfig.unlimited]
  rw [reports_offerError, hkept] at hreports
  exact Nat.succ_ne_self _ hreports

namespace Context

variable {cx t u : Context}

/-- A pass leads from the first context to the second: it leaves the depth as it was, and takes no
report of a refused level back. -/
structure Precedes (cx t : Context) : Prop where
  nesting_eq : t.nesting = cx.nesting
  config_eq : t.queue.config = cx.queue.config
  reports_le : cx.queue.reports .tooDeep ≤ t.queue.reports .tooDeep

protected theorem Precedes.refl (cx : Context) : cx.Precedes cx := ⟨rfl, rfl, Nat.le_refl _⟩

theorem Precedes.trans (h : cx.Precedes t) (h' : t.Precedes u) : cx.Precedes u where
  nesting_eq := h'.nesting_eq.trans h.nesting_eq
  config_eq := h'.config_eq.trans h.config_eq
  reports_le := Nat.le_trans h.reports_le h'.reports_le

/-- Where no level is refused in the whole, none is refused in a part. -/
theorem Precedes.unrefused (h : cx.Precedes t) (h' : t.Precedes u)
    (hu : cx.queue.Unrefused u.queue) :
    cx.queue.Unrefused t.queue ∧ t.queue.Unrefused u.queue := by
  obtain ⟨hconfig, hreports⟩ := hu
  have hle := h.reports_le
  have hle' := h'.reports_le
  exact ⟨⟨hconfig, by omega⟩, h.config_eq.trans hconfig, by omega⟩

end Context

namespace Pass

open ExprTree.Action

variable {cx : Context} {expr : NodeId}

theorem precedes_reportError (d : Diagnostic) : cx.Precedes (cx.reportError d) := by
  refine ⟨rfl, (cx.queue.offerError_counts _).1, ?_⟩
  rw [Context.reportError, Queue.reports_offerError]
  exact Nat.le_add_right _ _

theorem precedes_twins : Twins fun {α} (p _ : Pass α) => ∀ cx, wlp p (fun _ t => cx.Precedes t) cx
    where
  ask _ _ := wlp_ask.2 fun _ _ => .refl _
  bind hp hf cx := wlp_bind.2 ((hp cx).mono fun r t ht => (hf r t).mono fun _ _ hu => ht.trans hu)
  edit _ _ := wlp_edit.2 fun _ _ _ => ⟨rfl, rfl, Nat.le_refl _⟩
  nested hp cx := by
    refine wlp_level (fun inner hinner => (hp _).mono fun r t ht outer houter => ?_)
      fun _ _ => precedes_reportError _
    rw [ht.nesting_eq, Nesting.leave_of_enter hinner] at houter
    cases houter
    exact ⟨rfl, ht.config_eq, ht.reports_le⟩

/-- A recording is complete, or a level is refused. -/
def Completes (exprs : List NodeId) (cx t : Context) : Prop :=
  cx.Precedes t ∧ (cx.queue.Unrefused t.queue →
    Arena.Records cx.nesting.room exprs cx.arena t.arena)

theorem Completes.cons {exprs : List NodeId} {t u : Context} (h : Completes [expr] cx t)
    (h' : Completes exprs t u) : Completes (expr :: exprs) cx u := by
  refine ⟨h.1.trans h'.1, fun hu => ?_⟩
  obtain ⟨hcx, ht⟩ := h.1.unrefused h'.1 hu
  exact (h.2 hcx).cons (h.1.nesting_eq ▸ h'.2 ht)

theorem forM_completes {self : NodeId → Pass Unit}
    (hself : ∀ op cx, wlp (self op) (fun _ t => Completes [op] cx t) cx) (exprs : List NodeId)
    (cx : Context) : wlp (exprs.forM self) (fun _ t => Completes exprs cx t) cx := by
  induction exprs generalizing cx with
  | nil => exact wlp_pure.2 ⟨.refl cx, fun _ => Arena.records_nil⟩
  | cons expr exprs ih =>
    show wlp (self expr >>= fun _ => exprs.forM self) _ cx
    rw [wlp_bind]
    exact (hself expr cx).mono fun _ t ht => (ih t).mono fun _ _ hu => ht.cons hu

theorem recordReadStep_records {self : NodeId → Pass Unit}
    (hself : ∀ op cx, wlp (self op) (fun _ t => Completes [op] cx t) cx) (expr : NodeId)
    (cx : Context) : wlp (recordReadStep self expr) (fun _ t => cx.queue.Unrefused t.queue →
      Arena.Records cx.nesting.room [expr] cx.arena t.arena) cx := by
  unfold recordReadStep
  rw [wlp_bind, wlp_query]
  intro span _
  refine wlp_level (fun inner hinner => ?_) fun _ _ h => (Queue.not_unrefused _ _ _ h).elim
  rw [wlp_bind, wlp_query]
  intro n hn
  rw [Arena.node_eq_ok_iff] at hn
  rw [Nesting.room_of_enter hinner]
  split
  · rename_i hk
    rw [wlp_edit, Arena.insertFlags, Arena.wlp_update]
    intro m hm outer houter _
    cases hn.symm.trans hm
    exact Arena.records_variable hn hk
  · rename_i hk
    refine (forM_completes hself _ _).mono fun _ t ht outer houter hu => ?_
    exact (ht.2 hu).node hn (Bool.eq_false_iff.2 hk)

/-- A recording is complete, or a level is refused and reported. -/
theorem recordRead_records : wlp (recordRead expr) (fun _ t => Completes [expr] cx t) cx :=
  wlp_recursively_keeping (P := fun _ _ => True)
    (Q := fun cx expr _ t => cx.queue.Unrefused t.queue →
      Arena.Records cx.nesting.room [expr] cx.arena t.arena)
    (fun self hself expr => @Twins.recordReadStep _ precedes_twins self self hself expr)
    (fun _ hself expr cx _ => recordReadStep_records (fun op cx => hself op cx trivial) expr cx)
    trivial

end Pass

end ExprTree
