import ExprTree.Proofs.ReadHeights
import ExprTree.Proofs.StateReports

/-!
# Room for a read

Recording a read takes one level for each node on its way.  So no level is refused where there is
room for as many levels as the expression is high; and where the expression is higher, a level is
refused, unless a handle dangles on the way.

* `Action.logsAt_forM`, `Pass.logsAt_level`, `Pass.logsAt_recursively` — what runs report that have
  room for their levels.
* `Pass.HasRoom` — runs of which no level is refused.
* `Pass.hasRoom_recordRead` — a read with room for the height of the expression.
* `Queue.refusals`, `Pass.HasRead`, `Pass.recordRead_hasRead` — reads that return, with or without
  such room.
-/

namespace ExprTree

open HasContext

namespace Action

variable {σ α : Type} [MonadLiftT Pass (Action σ)] [HasContext σ] {Own : Diagnostic → Prop} {s : σ}

theorem LogsAt.congr {p q : Action σ α} (h : LogsAt Own p s) (hq : q s = p s) :
    LogsAt Own q s := by
  unfold LogsAt last
  rw [hq]
  exact h

theorem logsAt_forM {I : σ → Prop} {f : α → Action σ PUnit} {xs : List α}
    (h : ∀ x ∈ xs, ∀ t, I t → LogsAt Own (f x) t ∧ wlp (f x) (fun _ => I) t) (hs : I s) :
    LogsAt Own (xs.forM f) s := by
  induction xs generalizing s with
  | nil => exact logsAt_pure PUnit.unit
  | cons x xs ih =>
    obtain ⟨hx, hI⟩ := h x (by simp) s hs
    exact hx.bind (hI.mono fun _ t ht => ih (fun y hy => h y (by simp [hy])) ht)

end Action

namespace Pass

open ExprTree.Action

variable {α β : Type} {Own : Diagnostic → Prop} {cx : Context} {expr : NodeId}

/-! ### Levels for which there is room -/

/-- Where there is room for a level, only the part that runs a level deeper reports. -/
theorem logsAt_level {span : Span} {overflow : α} {body : Pass α} (hroom : 0 < cx.nesting.room)
    (hbody : ∀ inner, cx.nesting.enter = .ok inner →
      LogsAt Own body { cx with nesting := inner }) :
    LogsAt Own (nested span overflow body) cx := by
  rw [nested_eq]
  cases hlevel : cx.nesting.enter with
  | error e => exact absurd (Nesting.room_of_refused hlevel).1 hroom.ne'
  | ok inner =>
    have henter : LogsAt Own (enter span) cx := by
      refine ⟨[], nofun, ?_⟩
      rw [last_eq_of_ok (enter_of_ok hlevel), List.append_nil]
      rfl
    refine henter.bind ?_
    rw [wlp_enter]
    refine ⟨fun inner' hinner' => ?_, fun e he => ?_⟩
    · rw [if_pos rfl]
      exact (hbody inner' hinner').bind fun r t _ =>
        LogsAt.bind (logs_leave t) fun _ _ _ => logsAt_pure r
    · cases hlevel.symm.trans he

/-- What a recursive pass reports, if each of its levels reports such things where its calls do,
which have room for one level less. -/
theorem logsAt_recursively {step : (α → Pass β) → α → Pass β} {P : Context → α → Prop}
    (h : ∀ self cx x, (∀ y t, t.nesting.room + 1 = cx.nesting.room →
      self y t = recursively step y t ∧ (P t y → LogsAt Own (self y) t)) →
      P cx x → LogsAt Own (step self x) cx) {x : α} (hP : P cx x) :
    LogsAt Own (recursively step x) cx := by
  generalize hroom : cx.nesting.room = room
  -- the induction is on the room: a call is made where there is one level less of it
  induction room generalizing cx x with
  | zero =>
    have hrun : recursively step x cx = step (fun _ => throw .endless) x cx := by
      show unroll step cx.nesting.room x cx = _
      rw [hroom]
      rfl
    refine LogsAt.congr (h _ cx x (fun y t ht => ?_) hP) hrun
    omega
  | succ room ih =>
    have hrun : recursively step x cx = step (unroll step room) x cx := by
      show unroll step cx.nesting.room x cx = _
      rw [hroom]
      rfl
    refine LogsAt.congr (h (unroll step room) cx x (fun y t ht => ?_) hP) hrun
    obtain rfl : t.nesting.room = room := by omega
    exact ⟨rfl, fun hPt => LogsAt.congr (ih hPt rfl) rfl⟩

/-- A run of which no level is refused. -/
abbrev HasRoom {α : Type} (p : Pass α) (cx : Context) : Prop :=
  LogsAt (fun d => d.code ≠ .tooDeep) p cx

end Pass

/-- What is lower than all levels together is no higher than the levels below the first. -/
theorem Nesting.le_room {n inner : Nesting} {c : ℕ∞} (hinner : n.enter = .ok inner)
    (h : c + 1 ≤ n.room) : c ≤ inner.room := by
  rw [Nesting.room_of_enter hinner, Nat.cast_succ] at h
  exact (ENat.add_le_add_iff_right ENat.one_ne_top).1 h

namespace Pass

open ExprTree.Action

variable {cx : Context} {expr : NodeId}

/-! ### Reads with room -/

/-- A read with room for the height of the expression. -/
theorem hasRoom_recordRead (h : cx.arena.readHeight expr ≤ cx.nesting.room) :
    HasRoom (recordRead expr) cx := by
  refine logsAt_recursively (P := fun cx expr => cx.arena.readHeight expr ≤ cx.nesting.room)
    (fun self cx expr hself h => ?_) h
  refine logsAt_query.bind (wlp_query.2 fun span hspan => ?_)
  obtain ⟨n, hn, -⟩ := Arena.map_eq_ok_iff.1 hspan
  have hheight := cx.arena.mounts_readHeight
  have hpos : (1 : ℕ∞) ≤ cx.nesting.room := (hheight.pos (Arena.node_eq_ok_iff.1 hn)).trans h
  refine logsAt_level (by exact_mod_cast hpos) fun inner hinner => ?_
  refine logsAt_query.bind (wlp_query.2 fun m hm => ?_)
  cases hn.symm.trans hm
  split
  · exact logs_edit _ _
  refine logsAt_forM (I := fun t => t.nesting = inner ∧ cx.arena.Marked t.arena)
    (fun op hop t ht => ?_) ⟨rfl, .refl⟩
  have hroom : t.nesting.room + 1 = cx.nesting.room := by
    rw [ht.1, Nesting.room_of_enter hinner]
  obtain ⟨hrun, hlogs⟩ := hself op t hroom
  refine ⟨hlogs ?_, fun r u hu => ?_⟩
  · -- the operand is lower by one level, and the marks of reads do not raise it
    rw [ht.2.readHeight_eq, ht.1]
    exact Nesting.le_room hinner ((hheight.operand (Arena.node_eq_ok_iff.1 hn) op hop).trans h)
  · have hread : recordRead op t = .ok r u := hrun.symm.trans hu
    exact ⟨((balanced_law.recordRead op).restores t r u hread).nesting_eq.trans ht.1,
      ht.2.trans (recordRead_marks r u hread)⟩

end Pass

/-! ### Reads that return -/

/-- A queue to which refused levels have been reported at some places. -/
def Queue.refusals (q : Queue) (limit : Nat) (spans : List Span) : Queue :=
  spans.foldl (fun q span => (q.offerError (.tooDeeplyNested span limit)).2) q

theorem Queue.refusals_append (q : Queue) (limit : Nat) (spans spans' : List Span) :
    q.refusals limit (spans ++ spans') = (q.refusals limit spans).refusals limit spans' :=
  List.foldl_append

/-- Nothing has happened but marks of reads and refused levels; if levels are scarce, at least one
has been refused. -/
structure Context.Refused (scarce : Prop) (cx t : Context) : Prop where
  marked : cx.arena.Marked t.arena
  exists_refusals : ∃ spans : List Span, (scarce → spans ≠ []) ∧
    t = { cx with arena := t.arena, queue := cx.queue.refusals cx.nesting.limit spans }

namespace Context.Refused

variable {cx t u : Context} {scarce scarce' : Prop}

/-- Nothing has been refused. -/
theorem of_marked (hmarked : cx.arena.Marked t.arena) (ht : t = { cx with arena := t.arena })
    (hscarce : ¬ scarce) : cx.Refused scarce t :=
  ⟨hmarked, [], fun h => absurd h hscarce, ht⟩

theorem nesting_eq (h : Refused scarce cx t) : t.nesting = cx.nesting := by
  obtain ⟨-, spans, -, ht⟩ := h
  rw [ht]

theorem trans (h : Refused scarce cx t) (h' : Refused scarce' t u) :
    Refused (scarce ∨ scarce') cx u := by
  obtain ⟨hmarked, spans, hspans, ht⟩ := h
  obtain ⟨hmarked', spans', hspans', hu⟩ := h'
  refine ⟨hmarked.trans hmarked', spans ++ spans', fun hscarce hnil => ?_, ?_⟩
  · obtain ⟨hleft, hright⟩ := List.append_eq_nil_iff.1 hnil
    exact hscarce.elim (fun h => hspans h hleft) fun h => hspans' h hright
  · rw [hu, ht, Queue.refusals_append]

/-- What has been refused below a level has been refused. -/
theorem leave {inner : Nesting} (hinner : cx.nesting.enter = .ok inner)
    (h : Refused scarce { cx with nesting := inner } t) (hscarce : scarce' → scarce) :
    Refused scarce' cx { t with nesting := cx.nesting } := by
  obtain ⟨hmarked, spans, hspans, ht⟩ := h
  refine ⟨hmarked, spans, fun h => hspans (hscarce h), ?_⟩
  rw [ht, Nesting.limit_of_enter hinner]

end Context.Refused

namespace Pass

open ExprTree.Action

variable {cx : Context} {expr : NodeId} {self : NodeId → Pass Unit}

/-- A read that has returned: if there was no room, a level has been refused, and if there was, the
read has come to everything that is read along. -/
def HasRead (expr : NodeId) (cx t : Context) : Prop :=
  cx.Refused ((cx.nesting.room : ℕ∞) < cx.arena.readHeight expr) t ∧
    (cx.arena.readHeight expr ≤ cx.nesting.room → cx.arena.Intact expr)

/-- The operands are read one after the other. -/
theorem wlp_forM_hasRead {ops : List NodeId}
    (hself : ∀ op t, wlp (self op) (fun _ => HasRead op t) t) :
    wlp (ops.forM self) (fun _ t =>
      cx.Refused (∃ op ∈ ops, (cx.nesting.room : ℕ∞) < cx.arena.readHeight op) t ∧
      ∀ op ∈ ops, cx.arena.readHeight op ≤ cx.nesting.room → cx.arena.Intact op) cx := by
  induction ops generalizing cx with
  | nil => exact wlp_pure.2 ⟨.of_marked .refl rfl (by simp), by simp⟩
  | cons op ops ih =>
    show wlp (self op >>= fun _ => ops.forM self) _ cx
    rw [wlp_bind]
    refine (hself op cx).mono fun _ t ht => ih.mono fun _ u hu => ?_
    -- neither the depth nor the paths have changed in between
    have hsame := ht.1.marked.sameButReads
    simp only [ht.1.nesting_eq, ht.1.marked.readHeight_eq] at hu
    refine ⟨?_, List.forall_mem_cons.2 ⟨ht.2, fun op hop h => hsame.symm.intact (hu.2 op hop h)⟩⟩
    have hboth := ht.1.trans hu.1
    simpa only [List.mem_cons, exists_eq_or_imp] using hboth

/-- One level of a read: a variable takes one level, and any other node one more than its
operands. -/
theorem recordReadStep_hasRead (hself : ∀ op t, wlp (self op) (fun _ => HasRead op t) t) :
    wlp (recordReadStep self expr) (fun _ => HasRead expr cx) cx := by
  unfold recordReadStep
  rw [wlp_bind, wlp_query]
  intro span hspan
  obtain ⟨n, hn, -⟩ := Arena.map_eq_ok_iff.1 hspan
  rw [Arena.node_eq_ok_iff] at hn
  refine wlp_level (fun inner hinner => ?_) fun e he => ?_
  · have hleave : ∀ {outer : Nesting}, inner.leave = .ok outer → outer = cx.nesting :=
      fun h => Except.ok.inj (h.symm.trans (Nesting.leave_of_enter hinner))
    rw [wlp_bind, wlp_query]
    intro m hm
    cases hn.symm.trans (Arena.node_eq_ok_iff.1 hm)
    -- a node for which there is no room has an operand for which there is none below
    have hlow : (cx.nesting.room : ℕ∞) < cx.arena.readHeight expr →
        ∃ op ∈ n.readOperands, (inner.room : ℕ∞) < cx.arena.readHeight op := by
      intro hscarce
      rw [Nesting.room_of_enter hinner] at hscarce
      obtain ⟨op, ⟨m, hm, hop⟩, hless⟩ := Arena.exists_operand_of_lt hscarce
      cases hn.symm.trans hm
      exact ⟨op, hop, hless⟩
    split
    · rename_i hvar
      have hkind := NodeKind.isExpression_of_isVariable hvar
      rw [wlp_edit, Arena.insertFlags, Arena.wlp_update]
      intro m hm outer houter
      cases hn.symm.trans hm
      refine ⟨.of_marked (.mark .refl hn) (by rw [hleave houter]) fun hscarce => ?_,
        fun _ => Arena.intact_of_not_isExpression hn hkind⟩
      obtain ⟨op, hop, -⟩ := hlow hscarce
      rw [Node.readOperands_of_not_isExpression hkind] at hop
      cases hop
    · refine (wlp_forM_hasRead hself).mono fun _ t ht outer houter => ?_
      rw [ht.1.nesting_eq] at houter
      rw [hleave houter]
      refine ⟨ht.1.leave hinner hlow, fun hroom => Arena.intact_of_operands hn fun op hop => ?_⟩
      have hop' := (cx.arena.mounts_readHeight.operand hn op hop).trans hroom
      exact ht.2 op hop (Nesting.le_room hinner hop')
  · obtain ⟨hroom, hlimit⟩ := Nesting.room_of_refused he
    rw [hlimit]
    refine ⟨⟨.refl, [_], fun _ => List.cons_ne_nil _ _, rfl⟩, fun h => ?_⟩
    have hpos := (cx.arena.mounts_readHeight.pos hn).trans h
    rw [hroom] at hpos
    exact absurd hpos (by simp)

/-- A read marks nodes; if there is no room for the height of the expression, a level is refused on
the way, and if there is, nothing is left out. -/
theorem recordRead_hasRead : wlp (recordRead expr) (fun _ => HasRead expr cx) cx :=
  wlp_recursively (Q := fun cx expr _ => HasRead expr cx)
    (fun _ hself _ _ => recordReadStep_hasRead hself) expr cx

end Pass

end ExprTree
