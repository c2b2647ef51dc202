import ExprTree.Proofs.Classified
import ExprTree.Proofs.QueuePairs

/-!
# Runs of classified uses

Every run of a use that answers with another node than the error node is a derivation.  What it has
recorded depends on whether levels of recursion were refused on the way, which is why the derivation
is for a relation `R` that recordings satisfy, and for runs between queues of which some `G` holds.

* `Pass.RecordsAs` — recordings satisfy a relation.
* `Pass.recordsAs_marked`, `Pass.recordsAs_records` — they mark nodes as read, and where no level is
  refused they are complete.
* `Pass.Derives`, `Pass.classifyUse_derives` — what a use has done.
* `Pass.exists_run_unrefused` — uses that report no refused level, wherever they report to.
-/

namespace ExprTree

/-- What recording a read does between queues of which `G` holds, if that also holds of the parts of
a run. -/
structure Pass.RecordsAs (G : Queue → Queue → Prop) (R : Arena.Recording) : Prop where
  parts : ∀ {cx t u : Context}, cx.Precedes t → t.Precedes u → G cx.queue u.queue →
    G cx.queue t.queue ∧ G t.queue u.queue
  record : ∀ expr cx, Action.wlp (recordRead expr)
    (fun _ t => G cx.queue t.queue → R cx.nesting.room expr cx.arena t.arena) cx

theorem Pass.recordsAs_marked : RecordsAs (fun _ _ => True) fun _ _ a b => a.Marked b where
  parts _ _ _ := ⟨trivial, trivial⟩
  record _ _ := recordRead_marks.mono fun _ _ h _ => h

theorem Pass.recordsAs_records :
    RecordsAs Queue.Unrefused fun room expr => Arena.Records room [expr] where
  parts := Context.Precedes.unrefused
  record _ _ := recordRead_records.mono fun _ _ h => h.2

namespace Pass

open ExprTree.Action Arena

variable {G : Queue → Queue → Prop} {R : Recording} {cx t u : Context} {a : Arena}
  {expr op r v : NodeId} {mode : UseMode} {n : Node} {loc : Span}

/-- The use of an expression is a use in the sense of the relation, if `G` holds throughout. -/
def Derives (G : Queue → Queue → Prop) (R : Recording) (expr : NodeId) (mode : UseMode)
    (cx : Context) (r : NodeId) (t : Context) : Prop :=
  cx.Precedes t ∧
    (G cx.queue t.queue → r ≠ .error → Classified R cx.nesting.room mode cx.arena expr t.arena r)

/-- From a node that has been entered, a use answers with the error node, or is a use in the sense
of the relation. -/
def Concluded (G : Queue → Queue → Prop) (R : Recording) (a : Arena) (expr : NodeId)
    (mode : UseMode) (cx : Context) (r : NodeId) (t : Context) : Prop :=
  G cx.queue t.queue → r ≠ .error →
    Classified R (cx.nesting.room + 1) mode a expr t.arena r

theorem rebuild_rebuilt {k : NodeKind} : wlp (rebuild expr k)
    (fun _ t => t.queue = cx.queue ∧ cx.arena.Rebuilt expr k t.arena) cx :=
  wlp_rebuild fun n f hn hf => ⟨rfl, n, f, hn, hf, rfl⟩

theorem replaceKind_replaced {k : NodeKind} : wlp (replaceKind expr k)
    (fun r t => r = expr ∧ t.queue = cx.queue ∧ cx.arena.Replaced expr k t.arena) cx :=
  wlp_replaceKind (fun hk => ⟨rfl, rfl, .inl ⟨hk, rfl⟩⟩) fun hk =>
    rebuild_rebuilt.mono fun _ _ h => ⟨rfl, h.1, .inr ⟨hk, h.2⟩⟩

section Node

variable (hG : RecordsAs G R) {self : NodeId × UseMode → Pass NodeId}
  (hself : ∀ op mode cx, wlp (self (op, mode)) (Derives G R op mode cx) cx)
  (h : Enters R (cx.nesting.room + 1) mode a expr n cx.arena)
include hself h

theorem exchanged_concluded (loc : Span) {f : NodeId → NodeKind} (hf : n.kind.Carries op f)
    (hw : n.wrapped? = none) : wlp (self (op, { mode with loc }))
      (OrError (fun r => replaceKind expr (f r)) (Concluded G R a expr mode cx)) cx := by
  refine (hself op _ cx).mono fun v t ⟨_, hv⟩ => ⟨fun _ _ hne => absurd rfl hne, fun hne => ?_⟩
  refine replaceKind_replaced.mono ?_
  rintro _ u ⟨rfl, hqueue, hd⟩ hu _
  rw [hqueue] at hu
  have hop := hv hu hne
  rw [← UseMode.below_of_ne_deref hf.ne_deref] at hop
  exact .node h (useOperands_carries hf) hop (.exchanged hf hw hd)

theorem classifyWrapper_concluded (hk : n.kind = .unary .viewConvert op)
    (hw : n.wrapped? = some op) :
    wlp (classifyWrapper self expr op mode) (Concluded G R a expr mode cx) cx := by
  have hops : cx.arena.useOperands n = [op] := useOperands_unary hk (by decide)
  refine wlp_classifyWrapper fun loc _ => (hself op _ cx).mono fun v t ⟨_, hv⟩ =>
    ⟨fun _ _ hne => absurd rfl hne, fun hne kind hkind => ?_⟩
  obtain ⟨m, hm, rfl⟩ := kindOf_eq_ok_iff.1 hkind
  have hbelow : G cx.queue t.queue → Classified R cx.nesting.room (mode.below n.kind loc)
      cx.arena op t.arena v := fun hu => by
    rw [UseMode.below_of_ne_deref (by rw [hk]; exact nofun)]
    exact hv hu hne
  refine ⟨fun hleaf => rebuild_rebuilt.mono fun _ u ⟨hqueue, hd⟩ hu _ => ?_, fun hleaf => ?_⟩
  · exact .node h hops (hbelow (hqueue ▸ hu)) (.kept hk hw ⟨m, hm, hleaf⟩ hd)
  · have hnot : ¬ t.arena.Leaf v := fun ⟨m', hm', hleaf'⟩ => by
      cases hm.symm.trans hm'
      cases hleaf.symm.trans hleaf'
    rw [wlp_when]
    split
    · rw [wlp_edit, Arena.setSpan, Arena.wlp_update]
      exact fun m hm hu _ =>
        .node h hops (hbelow hu) (.dropped hk hw hnot (.inr ⟨loc, m, hm, rfl⟩))
    · exact fun hu _ => .node h hops (hbelow hu) (.dropped hk hw hnot (.inl rfl))

include hG

theorem cond_concluded {first second third : NodeId}
    (hk : n.kind = .cond first (some second) third) :
    wlp (self (second, mode)) (fun v t =>
      (some v = some .error → Concluded G R a expr mode cx .error t) ∧
      (some v ≠ some .error → wlp (self (third, mode))
        (OrError (fun w => replaceKind expr (.cond first (some v) w))
          (Concluded G R a expr mode cx)) t)) cx := by
  refine (hself second mode cx).mono fun v t ⟨ht, hv⟩ =>
    ⟨fun _ _ hne => absurd rfl hne, fun hvne => ?_⟩
  refine (hself third mode t).mono fun w u ⟨hu, hw⟩ =>
    ⟨fun _ _ hne => absurd rfl hne, fun hwne => ?_⟩
  refine replaceKind_replaced.mono ?_
  rintro _ x ⟨rfl, hqueue, hx⟩ hgood _
  rw [hqueue] at hgood
  obtain ⟨hgood, hgood'⟩ := hG.parts ht hu hgood
  exact .cond h hk (hv hgood fun he => hvne (congrArg some he)) (ht.nesting_eq ▸ hw hgood' hwne) hx

theorem classifyReference_concluded (hk : n.kind = .unary .deref op)
    (href : cx.arena.isReference op = .ok true) :
    wlp (classifyReference self expr op mode) (Concluded G R a expr mode cx) cx := by
  have hops : cx.arena.useOperands n = [op] := useOperands_reference hk href
  refine wlp_classifyReference ((hself op _ cx).mono fun v t ⟨ht, hv⟩ =>
    ⟨fun _ _ hne => absurd rfl hne, ?_⟩)
  have hbelow : v ≠ .error → G cx.queue t.queue →
      Classified R cx.nesting.room (mode.below n.kind .unknown) cx.arena op t.arena v := by
    rw [hk]
    exact fun hne hu => hv hu hne
  refine ⟨fun hne hsame hu _ => .node h hops (hbelow hne hu) (.same hk hsame), fun hne hother => ?_⟩
  refine wlp_dereference (fun hnone hu _ => ?_) fun target htarget => ?_
  · exact .node h hops (hbelow hne hu) (.lost hk hother hnone)
  · have hprecedes := @Twins.recordRead _ precedes_twins v
    refine ((hG.record v t).and (hprecedes t)).mono fun _ u ⟨hread, hu⟩ span _ =>
      Arena.wlp_build fun f hf hgood _ => ?_
    obtain ⟨hgood, hgood'⟩ := hG.parts ht hu hgood
    exact .node h hops (hbelow hne hgood)
      (.built hk hother htarget (ht.nesting_eq ▸ hread hgood') hf)

omit h in
theorem classifyNode_concluded (h : ∀ n, cx.arena.find? expr = some n →
    Enters R (cx.nesting.room + 1) mode a expr n cx.arena) :
    wlp (classifyNode self expr mode) (Concluded G R a expr mode cx) cx := by
  refine wlp_classifyNode fun n hn => ?_
  have h := h n hn
  exact
    { component := fun object field hk => exchanged_concluded hself h mode.loc
        (hk ▸ .component) (by simp only [Node.wrapped?, hk])
      comma := fun lhs rhs loc hk => exchanged_concluded hself h loc (hk ▸ .comma)
        (by simp only [Node.wrapped?, hk])
      cond := fun first second third hk => by
        rw [wlp_mapM]
        cases second with
        | none => exact ⟨fun h => (by cases h), fun _ => exchanged_concluded hself h mode.loc
            (hk ▸ .branch) (by simp only [Node.wrapped?, hk])⟩
        | some second => exact cond_concluded hG hself h hk
      reference := fun pointer hk href => classifyReference_concluded hG hself h hk href
      wrapper := fun operand hk hw => classifyWrapper_concluded hself h hk hw
      transparent := fun op operand hk hop hw => exchanged_concluded hself h mode.loc
        (hk ▸ .transparent hop) hw
      keep := fun hops hderef _ _ => .rest h hops hderef }

end Node

theorem precedes_rejectBuiltin {loc : Span} :
    wlp (rejectBuiltin expr loc) (fun r t => r = .error ∧ cx.Precedes t) cx := by
  unfold rejectBuiltin Pass.error
  simp only [wlp_bind, wlp_query, wlp_location, wlp_modify, wlp_pure]
  exact fun _ _ _ _ _ _ => ⟨trivial, precedes_reportError _⟩

theorem classifyUseStep_derives (hG : RecordsAs G R) {self : NodeId × UseMode → Pass NodeId}
    (hself : ∀ op mode cx, wlp (self (op, mode)) (Derives G R op mode cx) cx) :
    wlp (classifyUseStep self (expr, mode)) (fun r t => G cx.queue t.queue → r ≠ .error →
      Classified R cx.nesting.room mode cx.arena expr t.arena r) cx := by
  refine wlp_classifyUseStep_cases (fun herr _ hne => .erroneous herr hne)
    (fun _ _ => precedes_rejectBuiltin.mono fun _ _ hr _ hne => absurd hr.1 hne)
    fun haccepted hadmitted => ?_
  have hread : wlp (when mode.read (recordRead expr)) (fun _ t => cx.Precedes t ∧
      (mode.read = true → G cx.queue t.queue → R cx.nesting.room expr cx.arena t.arena) ∧
      (mode.read = false → t = cx)) cx := by
    rw [wlp_when]
    cases mode.read with
    | true =>
      rw [if_pos rfl]
      have hprecedes := @Twins.recordRead _ precedes_twins expr
      exact ((hprecedes cx).and (hG.record expr cx)).mono fun _ t ⟨ht, hread⟩ =>
        ⟨ht, fun _ => hread, nofun⟩
    | false => exact ⟨.refl cx, nofun, fun _ => rfl⟩
  refine hread.mono fun _ t ⟨ht, hrecord, hsame⟩ span => wlp_level (fun inner hinner => ?_)
    fun _ _ _ hne => absurd rfl hne
  have hroom : inner.room + 1 = cx.nesting.room := by
    rw [← Nesting.room_of_enter hinner, ht.nesting_eq]
  have hprecedes := @Twins.classifyNode _ precedes_twins self self expr mode
    fun op mode' _ cx => (hself op mode' cx).mono fun _ _ => And.left
  intro r u hrun outer _ hgood hne
  have hu := hprecedes _ r u hrun
  have ht' : t.Precedes { u with nesting := t.nesting } := ⟨rfl, hu.config_eq, hu.reports_le⟩
  obtain ⟨hgood, hgood'⟩ := hG.parts ht ht' hgood
  rw [← hroom]
  refine classifyNode_concluded hG hself (fun n hn => ?_) r u hrun hgood' hne
  exact ⟨haccepted, hadmitted, fun hr => hroom ▸ hrecord hr hgood, fun hr => by rw [hsame hr], hn⟩

/-- What the use of an expression has done, if it does not answer with the error node. -/
theorem classifyUse_derives (hG : RecordsAs G R) :
    wlp (classifyUse expr mode) (Derives G R expr mode cx) cx := by
  refine wlp_recursively_keeping (K := Context.Precedes) (P := fun _ _ => True)
    (Q := fun cx (p : NodeId × UseMode) r t => G cx.queue t.queue → r ≠ .error →
      Classified R cx.nesting.room p.2 cx.arena p.1 t.arena r)
    (fun self hself p => @Twins.classifyUseStep _ precedes_twins self self p.1 p.2
      (fun op mode' _ => hself (op, mode')) fun _ _ _ _ =>
        precedes_rejectBuiltin.mono fun _ _ => And.right)
    (fun self hself p cx _ => ?_) trivial
  exact classifyUseStep_derives hG (fun op mode cx => hself (op, mode) cx trivial)

/-- A use that reports no refused level does the same where all reports are kept, and none is
refused there. -/
theorem exists_run_unrefused (hrun : classifyUse expr mode cx = .ok r t)
    (hdeep : ∀ d ∈ (classifyUse expr mode).reported cx, d.code ≠ .tooDeep) :
    ∃ u, classifyUse expr mode { cx with queue := .fresh .unlimited } = .ok r u ∧
      u.arena = t.arena ∧ (Queue.fresh .unlimited).Unrefused u.queue := by
  obtain ⟨u, hrun', harena, hreported⟩ := exists_run_reported hrun
  refine ⟨u, hrun', harena, rfl, List.countP_eq_zero.2 fun d hd => ?_⟩
  rw [hreported] at hd
  simpa using hdeep d hd

end Pass

end ExprTree
