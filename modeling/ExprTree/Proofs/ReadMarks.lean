import ExprTree.Proofs.ClassifiedRuns
import ExprTree.Proofs.Confinement
import ExprTree.Proofs.ReadPaths

/-!
# Marks of reads are exact

A use marks the variables that it reads, and no others, unless a level of recursion is refused.  If
it reads the expression, these are the variables that are read along with it; they are marked before
the use goes on to the operands.  If it does not read the expression, they are those that are read
along with the references that it goes behind.

* `Arena.MarksVariables` — an arena in which only variables of another have been marked.
* `Pass.classifyUse_marksVariables` — uses mark no other nodes, and no new ones.
* `Pass.classifyUse_reads` — the nodes that are marked after a use.
-/

namespace ExprTree

namespace Arena

variable {a b c : Arena} {id : NodeId} {n m : Node} {k : NodeKind}

/-- Marks stay, and only variables are marked: those that have been variables before. -/
structure MarksVariables (a b : Arena) : Prop where
  kept : ∀ id, a.IsRead id → b.IsRead id
  isVariable : ∀ id, b.IsVariable id → a.IsVariable id
  isRead : ∀ id, b.IsRead id → a.IsRead id ∨ a.IsVariable id

namespace MarksVariables

protected theorem refl (a : Arena) : a.MarksVariables a :=
  ⟨fun _ h => h, fun _ h => h, fun _ => .inl⟩

theorem trans (h : a.MarksVariables b) (h' : b.MarksVariables c) : a.MarksVariables c where
  kept id hid := h'.kept id (h.kept id hid)
  isVariable id hid := h.isVariable id (h'.isVariable id hid)
  isRead id hid := (h'.isRead id hid).elim (h.isRead id) fun hvar => .inr (h.isVariable id hvar)

end MarksVariables

theorem marksVariables_change {f : Node → Node} (hn : a.find? id = some n)
    (hkept : n.flags.has .read = true → (f n).flags.has .read = true)
    (hvar : (f n).kind.isVariable = true → n.kind.isVariable = true)
    (hread : (f n).flags.has .read = true → n.flags.has .read = true ∨ n.kind.isVariable = true) :
    a.MarksVariables (a.change id f) where
  kept other := fun ⟨m, hm, hmread⟩ => by
    by_cases ho : other = id
    · subst ho
      cases hn.symm.trans hm
      exact ⟨f n, find?_change_self hn, hkept hmread⟩
    · exact ⟨m, by rw [find?_change, if_neg ho, hm], hmread⟩
  isVariable other := fun ⟨m, hm, hk⟩ => by
    rcases find?_change_cases hn hm with ⟨rfl, rfl⟩ | hm
    · exact ⟨n, hn, hvar hk⟩
    · exact ⟨m, hm, hk⟩
  isRead other := fun ⟨m, hm, hmread⟩ => by
    rcases find?_change_cases hn hm with ⟨rfl, rfl⟩ | hm
    · exact (hread hmread).imp (fun hold => ⟨n, hn, hold⟩) fun hk => ⟨n, hn, hk⟩
    · exact .inl ⟨m, hm, hmread⟩

theorem marksVariables_append (hvar : m.kind.isVariable = false)
    (hread : m.flags.has .read = false) : a.MarksVariables (a.append m) where
  kept _ := fun ⟨n, hn, hnread⟩ => ⟨n, find?_append_of_some hn, hnread⟩
  isVariable _ := fun ⟨n, hn, hk⟩ => by
    rcases find?_append_cases hn with ⟨-, rfl⟩ | hn
    · cases hvar.symm.trans hk
    · exact ⟨n, hn, hk⟩
  isRead _ := fun ⟨n, hn, hnread⟩ => by
    rcases find?_append_cases hn with ⟨-, rfl⟩ | hn
    · cases hread.symm.trans hnread
    · exact .inl ⟨n, hn, hnread⟩

end Arena

namespace Pass

open ExprTree.Action

variable {a : Arena} {cx t : Context} {expr op r : NodeId} {mode : UseMode} {kind : NodeKind}

/-! ### Only variables are marked -/

theorem recordRead_marksVariables (h : a.MarksVariables cx.arena) :
    wlp (recordRead expr) (fun _ t => a.MarksVariables t.arena) cx := by
  refine wlp_recursively_of (P := fun cx _ => a.MarksVariables cx.arena)
    (Q := fun _ _ _ t => a.MarksVariables t.arena) (fun self hself expr cx h => ?_) h
  unfold recordReadStep
  rw [wlp_bind, wlp_query]
  intro span _
  refine wlp_nested (Q := fun _ b => a.MarksVariables b) (fun inner => ?_) h
  rw [wlp_bind, wlp_query]
  intro n hn
  rw [Arena.node_eq_ok_iff] at hn
  split
  · rename_i hk
    rw [wlp_edit, Arena.insertFlags, Arena.wlp_update]
    intro m hm
    cases hn.symm.trans hm
    exact h.trans (Arena.marksVariables_change (f := Node.markRead) hn
      ((Arena.becomes_markRead n).flag_mono _) (fun hk => hk) fun _ => .inr hk)
  · exact wlp_forM (I := fun t : Context => a.MarksVariables t.arena)
      (fun op _ t ht => hself op t ht) h

theorem rebuild_marksVariables (h : a.MarksVariables cx.arena) (hk : kind.isVariable = false) :
    wlp (rebuild expr kind) (fun _ t => a.MarksVariables t.arena) cx := by
  refine wlp_rebuild fun n f hn hf => ?_
  have hread := (Arena.diff_acquired_derivedFlags hf).2
  refine h.trans (Arena.marksVariables_change hn (fun hmark => ?_)
    (fun hvar => by cases hk.symm.trans hvar) fun hmark => .inl ?_)
  · rw [NodeFlags.has_union, hmark, Bool.true_or]
  · rwa [NodeFlags.has_union, hread, Bool.or_false] at hmark

theorem dereference_marksVariables {value : NodeId} (h : a.MarksVariables cx.arena) :
    wlp (dereference value) (fun _ t => a.MarksVariables t.arena) cx :=
  wlp_dereference (fun _ => h) fun _ _ => (recordRead_marksVariables h).mono fun _ _ ht _ _ =>
    Arena.wlp_build fun _ hf =>
      ht.trans (Arena.marksVariables_append rfl (Arena.diff_acquired_derivedFlags hf).2)

section Node

variable {self : NodeId × UseMode → Pass NodeId}
  (hself : ∀ p cx, a.MarksVariables cx.arena →
    wlp (self p) (fun _ t => a.MarksVariables t.arena) cx)
include hself

theorem exchanged_marksVariables {f : NodeId → NodeKind} (h : a.MarksVariables cx.arena)
    (hf : ∀ r, (f r).isVariable = false) : wlp (self (op, mode))
      (OrError (fun r => replaceKind expr (f r)) fun _ t => a.MarksVariables t.arena) cx :=
  (hself _ cx h).mono fun r _ ht => ⟨fun _ => ht, fun _ =>
    wlp_replaceKind (fun _ => ht) fun _ => rebuild_marksVariables ht (hf r)⟩

theorem classifyNode_marksVariables (cx : Context) (h : a.MarksVariables cx.arena) :
    wlp (classifyNode self expr mode) (fun _ t => a.MarksVariables t.arena) cx := by
  refine wlp_classifyNode fun n _ =>
    { component := fun _ _ _ => exchanged_marksVariables hself h fun _ => rfl
      comma := fun _ _ _ _ => exchanged_marksVariables hself h fun _ => rfl
      cond := fun first second third _ => ?_
      reference := fun pointer _ _ => ?_
      wrapper := fun operand _ _ => ?_
      transparent := fun _ _ _ _ _ => exchanged_marksVariables hself h fun _ => rfl
      keep := fun _ _ => h }
  · rw [wlp_mapM]
    cases second with
    | none => exact ⟨fun _ => h, fun _ => exchanged_marksVariables hself h fun _ => rfl⟩
    | some second => exact (hself _ cx h).mono fun _ _ ht =>
        ⟨fun _ => ht, fun _ => exchanged_marksVariables hself ht fun _ => rfl⟩
  · exact wlp_classifyReference ((hself _ cx h).mono fun _ _ ht =>
      ⟨fun _ => ht, fun _ _ => ht, fun _ _ => dereference_marksVariables ht⟩)
  · refine wlp_classifyWrapper fun loc _ => (hself _ cx h).mono fun r t ht =>
      ⟨fun _ => ht, fun _ kind _ => ⟨fun _ => rebuild_marksVariables ht rfl, fun _ => ?_⟩⟩
    rw [wlp_when]
    split
    · rw [wlp_edit, Arena.setSpan, Arena.wlp_update]
      exact fun m hm =>
        ht.trans (Arena.marksVariables_change hm (fun h => h) (fun hk => hk) .inl)
    · exact ht

theorem classifyUseStep_marksVariables (cx : Context) (h : a.MarksVariables cx.arena) :
    wlp (classifyUseStep self (expr, mode)) (fun _ t => a.MarksVariables t.arena) cx := by
  refine wlp_classifyUseStep_cases (fun _ => h) (fun _ _ => ?_) fun _ _ => ?_
  · unfold rejectBuiltin Pass.error
    simp only [wlp_bind, wlp_query, wlp_location, wlp_modify, wlp_pure]
    exact fun _ _ _ _ _ _ => h
  · have hread : wlp (when mode.read (recordRead expr))
        (fun _ t => a.MarksVariables t.arena) cx := by
      rw [wlp_when]
      split
      · exact recordRead_marksVariables h
      · exact h
    exact hread.mono fun _ t ht span => wlp_nested (Q := fun _ b => a.MarksVariables b)
      (fun inner => classifyNode_marksVariables hself { t with nesting := inner } ht) ht

end Node

/-! ### What is read along is marked -/

/-- A pass leads to a context and marks no other nodes than variables. -/
def Marking (cx t : Context) : Prop := cx.Precedes t ∧ cx.arena.MarksVariables t.arena

/-- A use reads the expression and goes on from there. -/
theorem classifyUseStep_reads {self : NodeId × UseMode → Pass NodeId}
    (hself : ∀ p cx, wlp (self p) (fun _ t => Marking cx t) cx)
    (hread : mode.read = true) (herr : cx.arena.isErroneous expr = .ok false)
    (hadmitted : cx.arena.isRejected expr mode = .ok false) :
    wlp (classifyUseStep self (expr, mode)) (fun _ t => cx.queue.Unrefused t.queue →
      ∀ y, cx.arena.IsVariable y → cx.arena.ReadAlong expr y → t.arena.IsRead y) cx := by
  refine wlp_classifyUseStep_cases (fun htrue => ?_) (fun _ htrue => ?_) fun _ _ => ?_
  · cases herr.symm.trans htrue
  · cases hadmitted.symm.trans htrue
  rw [hread]
  refine recordRead_records.mono fun _ t ht span => ?_
  have hprecedes := @Twins.nested _ precedes_twins _ span .error _ (classifyNode self expr mode)
    (@Twins.classifyNode _ precedes_twins self self expr mode
      fun op mode' _ cx => (hself (op, mode') cx).mono fun _ _ => And.left)
  have hmarks : wlp (nested span .error (classifyNode self expr mode))
      (fun _ u => t.arena.MarksVariables u.arena) t :=
    wlp_nested (Q := fun _ b => t.arena.MarksVariables b) (fun inner =>
      classifyNode_marksVariables (fun p cx h => (hself p cx).mono fun _ _ hp => h.trans hp.2)
        { t with nesting := inner } (.refl _)) (.refl _)
  refine ((hprecedes t).and hmarks).mono fun _ u ⟨hu, hmarks⟩ hgood y hvar halong => ?_
  have hrecords := ht.2 (ht.1.unrefused hu hgood).1
  exact hmarks.kept y ((hrecords.isRead_iff y).2
    (.inr ⟨hvar, expr, List.mem_singleton_self expr, halong⟩))

/-- What is read along with an expression that a use reads is marked, and at most variables are. -/
theorem classifyUse_marks : wlp (classifyUse expr mode) (fun _ t => Marking cx t ∧
    (mode.read = true → cx.arena.isErroneous expr = .ok false →
      cx.arena.isRejected expr mode = .ok false → cx.queue.Unrefused t.queue →
      ∀ y, cx.arena.IsVariable y → cx.arena.ReadAlong expr y → t.arena.IsRead y)) cx := by
  refine wlp_recursively_keeping (K := Marking) (P := fun _ _ => True)
    (Q := fun cx (p : NodeId × UseMode) _ t => p.2.read = true →
      cx.arena.isErroneous p.1 = .ok false → cx.arena.isRejected p.1 p.2 = .ok false →
      cx.queue.Unrefused t.queue →
      ∀ y, cx.arena.IsVariable y → cx.arena.ReadAlong p.1 y → t.arena.IsRead y)
    (fun self hself ⟨expr, mode⟩ cx => ?_) (fun self hself ⟨expr, mode⟩ cx _ => ?_) trivial
  · have hprecedes := @Twins.classifyUseStep _ precedes_twins self self expr mode
      (fun op mode' _ cx => (hself (op, mode') cx).mono fun _ _ => And.left)
      fun _ _ _ _ => precedes_rejectBuiltin.mono fun _ _ => And.right
    exact (hprecedes cx).and (classifyUseStep_marksVariables
      (fun p cx h => (hself p cx).mono fun _ _ hp => h.trans hp.2) cx (.refl _))
  · intro r t hrun hread herr hadmitted
    exact classifyUseStep_reads (fun p cx => (hself p cx trivial).mono fun _ _ => And.left)
      hread herr hadmitted r t hrun

/-- Where a use reads neither an erroneous expression nor one that it refuses, what is marked is
what is read along with it. -/
theorem isRead_iff_of_read (hrun : classifyUse expr mode cx = .ok r t) (hread : mode.read = true)
    (herr : cx.arena.isErroneous expr = .ok false)
    (hadmitted : cx.arena.isRejected expr mode = .ok false) (hgood : cx.queue.Unrefused t.queue)
    (y : NodeId) : t.arena.IsRead y ↔
      cx.arena.IsRead y ∨ cx.arena.IsVariable y ∧ cx.arena.ReadAlong expr y := by
  obtain ⟨⟨-, hmarks⟩, hcomplete⟩ := classifyUse_marks r t hrun
  constructor
  · intro hy
    by_cases halong : cx.arena.ReadAlong expr y
    · exact (hmarks.isRead y hy).imp_right fun hvar => ⟨hvar, halong⟩
    · obtain ⟨n, hn⟩ : ∃ n, cx.arena.find? y = some n := by
        rcases hmarks.isRead y hy with ⟨n, hn, -⟩ | ⟨n, hn, -⟩ <;> exact ⟨n, hn⟩
      have hwithin := (classifyUse_within (cx.arena.within_footprint expr) (.inl .refl) r t hrun).1
      have hsame := (hwithin.confined fun _ h => h).outside y n hn halong
      obtain ⟨m, hm, hmread⟩ := hy
      cases hsame.symm.trans hm
      exact .inl ⟨n, hn, hmread⟩
  · rintro (hy | ⟨hvar, halong⟩)
    · exact hmarks.kept y hy
    · exact hcomplete hread herr hadmitted hgood y hvar halong

/-- Where a use does not read the expression, what is marked is what is read along with the
references that the use goes behind. -/
theorem isRead_iff_of_not_read (hrun : classifyUse expr mode cx = .ok r t)
    (hread : mode.read = false) (hr : r ≠ .error) (hgood : cx.queue.Unrefused t.queue)
    (y : NodeId) : t.arena.IsRead y ↔ cx.arena.IsRead y ∨ cx.arena.IsVariable y ∧
      ∃ p, cx.arena.DereferencedAlong expr p ∧ cx.arena.ReadAlong p y := by
  have hderives := (classifyUse_derives recordsAs_records r t hrun).2 hgood hr
  by_cases hy : cx.arena.IsRead y
  · exact ⟨fun _ => .inl hy, fun _ => (hderives.evolves Arena.Recording.complete_marks).isRead hy⟩
  obtain ⟨hmarked, hunmarked⟩ := hderives.tracks (Arena.tracks hy)
  constructor
  · intro hmark
    by_contra hnone
    refine (hunmarked fun ⟨_, hu⟩ => hnone (.inr ?_)).1.unread hmark
    rwa [if_neg (by simp [hread])] at hu
  · rintro (h | ⟨hvar, p, hp, halong⟩)
    · exact absurd h hy
    · obtain ⟨id, n, hid, -⟩ := id hp
      refine hmarked ⟨hid.expr_not_erroneous, ?_⟩
      rw [if_neg (by simp [hread])]
      exact ⟨hvar, p, hp, halong⟩

/-- A use that reads an expression marks the variables that are read along with it, and no other
nodes.  A use that does not read the expression, and does not answer with the error node, marks the
variables that are read along with the references that it goes behind, and no other nodes. -/
theorem classifyUse_reads (hrun : classifyUse expr mode cx = .ok r t)
    (hdeep : ∀ d ∈ (classifyUse expr mode).reported cx, d.code ≠ .tooDeep) :
    (mode.read = true → cx.arena.isErroneous expr = .ok false →
      cx.arena.isRejected expr mode = .ok false → ∀ y, t.arena.IsRead y ↔
        cx.arena.IsRead y ∨ cx.arena.IsVariable y ∧ cx.arena.ReadAlong expr y) ∧
    (mode.read = false → r ≠ .error → ∀ y, t.arena.IsRead y ↔
      cx.arena.IsRead y ∨ cx.arena.IsVariable y ∧
        ∃ p, cx.arena.DereferencedAlong expr p ∧ cx.arena.ReadAlong p y) := by
  obtain ⟨u, hrun', harena, hgood⟩ := exists_run_unrefused hrun hdeep
  rw [← harena]
  have hreads := isRead_iff_of_read hrun'
  have hbehind := isRead_iff_of_not_read hrun'
  exact ⟨fun hread herr hadmitted => hreads hread herr hadmitted hgood,
    fun hread hr => hbehind hread hr hgood⟩

end Pass

/-- The arena of `x ? x : r`, its last node, where `r` is a reference to a number, which the
expression goes behind. -/
def Arena.behindReference : Arena :=
  { Arena.initial with
    nodes := Arena.initial.nodes ++ #[
      ⟨.referenceType .intType, none, .empty, .unknown⟩,
      ⟨.decl .var (.named ⟨1⟩), some ⟨6⟩, .empty, .unknown⟩,
      ⟨.unary .deref ⟨7⟩, some .intType, .empty, .unknown⟩,
      ⟨.decl .var (.named ⟨1⟩), some .intType, .empty, .unknown⟩,
      ⟨.cond ⟨9⟩ (some ⟨9⟩) ⟨8⟩, some .intType, .empty, .unknown⟩] }

namespace Pass

open ExprTree.Action

/-- The use of the value of `x ? x : r` reads `x` and `r`; the use of its storage reads `r`. -/
theorem classifyUse_reads_behindReference :
    let cx := Context.ofArena .behindReference ⟨16, .unlimited⟩
    (∃ t, classifyUse ⟨10⟩ ⟨true, true, .unknown, true⟩ cx = .ok ⟨10⟩ t ∧ t.arena.IsRead ⟨9⟩ ∧
      t.arena.IsRead ⟨7⟩) ∧
    ∃ t, classifyUse ⟨10⟩ ⟨false, false, .unknown, true⟩ cx = .ok ⟨10⟩ t ∧
      (∀ y, t.arena.IsRead y ↔ cx.arena.IsRead y ∨ cx.arena.IsVariable y ∧
        ∃ p, cx.arena.DereferencedAlong ⟨10⟩ p ∧ cx.arena.ReadAlong p y) ∧ t.arena.IsRead ⟨7⟩ := by
  intro cx
  obtain ⟨t, ht⟩ := answer?_eq_some_iff.1 (show
    (classifyUse ⟨10⟩ ⟨true, true, .unknown, true⟩).answer? cx = some ⟨10⟩ by decide +kernel)
  obtain ⟨u, hu⟩ := answer?_eq_some_iff.1 (show
    (classifyUse ⟨10⟩ ⟨false, false, .unknown, true⟩).answer? cx = some ⟨10⟩ by decide +kernel)
  have hreads := (classifyUse_reads ht (by decide +kernel)).1 rfl rfl rfl
  have hbehind := (classifyUse_reads hu (by decide +kernel)).2 rfl (by decide)
  have hvar : ∀ y : NodeId, y = ⟨7⟩ ∨ y = ⟨9⟩ → cx.arena.IsVariable y := by
    rintro y (rfl | rfl) <;> exact ⟨_, rfl, rfl⟩
  -- the third operand of the conditional is the dereference of `r`
  have hderef : cx.arena.ReadOperand ⟨10⟩ ⟨8⟩ := ⟨_, rfl, by decide⟩
  have hpath : cx.arena.UsedAlong ⟨10⟩ ⟨8⟩ := .operand (.self rfl) rfl (by decide) rfl
  refine ⟨⟨t, ht, (hreads _).2 (.inr ⟨hvar _ (.inr rfl), .single ⟨_, rfl, by decide⟩⟩),
    (hreads _).2 (.inr ⟨hvar _ (.inl rfl), .head hderef (.single ⟨_, rfl, by decide⟩)⟩)⟩,
    u, hu, hbehind, (hbehind _).2 (.inr ⟨hvar _ (.inl rfl), ⟨7⟩, ?_, .refl⟩)⟩
  exact ⟨⟨8⟩, _, hpath, rfl, rfl, rfl, rfl⟩

end Pass

end ExprTree
