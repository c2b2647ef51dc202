import ExprTree.Proofs.Typing

/-!
# Reads

Recording a read marks variables as read and leaves everything else as it is.

* `Arena.Marked` — an arena and the same arena with some nodes marked as read.
* `Pass.recordRead_marks` — recording a read marks nodes as read.
* `Pass.wlp_dereference` — a dereference of a value of reference type.
* `Pass.wlp_classifyUseStep_cases` — one level of a classified use, which may record a read first.
-/

namespace ExprTree

/-- A node marked as read. -/
def Node.markRead (n : Node) : Node := { n with flags := n.flags.union (.single .read) }

namespace Arena

/-- An arena and the same arena with some nodes marked as read. -/
inductive Marked (a : Arena) : Arena → Prop
  | refl : Marked a a
  | mark {b : Arena} {id : NodeId} {n : Node} (h : Marked a b) (hn : b.find? id = some n) :
    Marked a (b.change id Node.markRead)

variable {a b c : Arena} {id : NodeId}

theorem Marked.trans (h : a.Marked b) (h' : b.Marked c) : a.Marked c := by
  induction h' with
  | refl => exact h
  | mark _ hn ih => exact .mark ih hn

theorem becomes_markRead (n : Node) : n.Becomes n.markRead where
  type_eq := rfl
  skeleton_eq := rfl
  flag_mono g hg := by simp [Node.markRead, hg]
  flag_eq g _ _ hg := by simp [Node.markRead, Ne.symm hg]

/-- A marked node has the kind that it had. -/
theorem Marked.kind_eq (h : a.Marked b) {m : Node} (hm : b.find? id = some m) :
    ∃ n, a.find? id = some n ∧ m.kind = n.kind := by
  induction h generalizing m with
  | refl => exact ⟨m, hm, rfl⟩
  | mark _ hn ih =>
    rcases find?_change_cases hn hm with ⟨rfl, rfl⟩ | hm
    · obtain ⟨n, ha, hk⟩ := ih hn
      exact ⟨n, ha, hk⟩
    · exact ih hm

end Arena

namespace Pass

open ExprTree.Action

variable {cx : Context} {expr : NodeId}

theorem recordReadStep_marks {self : NodeId → Pass Unit}
    (hself : ∀ op cx, wlp (self op) (fun _ t => cx.arena.Marked t.arena) cx) (expr : NodeId)
    (cx : Context) : wlp (recordReadStep self expr) (fun _ t => cx.arena.Marked t.arena) cx := by
  unfold recordReadStep
  rw [wlp_bind, wlp_query]
  intro span _
  refine wlp_nested (Q := fun _ b => cx.arena.Marked b) (fun inner => ?_) .refl
  rw [wlp_bind, wlp_query]
  intro n _
  split
  · rw [wlp_edit, Arena.insertFlags, Arena.wlp_update]
    exact fun n hn => Arena.Marked.mark .refl hn
  · refine wlp_forM (I := fun t : Context => cx.arena.Marked t.arena)
      (fun op _ t ht => ?_) .refl
    exact (hself op t).mono fun _ u hu => ht.trans hu

theorem recordRead_marks :
    wlp (recordRead expr) (fun _ t => cx.arena.Marked t.arena) cx :=
  wlp_recursively (Q := fun cx _ _ t => cx.arena.Marked t.arena)
    (fun _ => recordReadStep_marks) expr cx

theorem wlp_read {asked : Bool} :
    wlp (when asked (recordRead expr)) (fun _ t => cx.arena.Marked t.arena) cx := by
  rw [wlp_when]
  split
  · exact recordRead_marks
  · exact .refl

/-- Where a value of reference type is dereferenced, a dereference is built where the value is. -/
theorem wlp_dereference {value : NodeId} {Q : NodeId → Context → Prop}
    (hvalue : cx.arena.referent? value = none → Q value cx)
    (href : ∀ target, cx.arena.referent? value = some target →
      wlp (recordRead value) (fun _ t => ∀ span, t.arena.spanOf value = .ok span →
        wlp (Arena.build (.unary .deref value) (some target) span)
          (fun r b => Q r { t with arena := b }) t.arena) cx) :
    wlp (dereference value) Q cx := by
  unfold dereference
  simp only [wlp_bind, wlp_query, Arena.typeOf, Arena.kindOf, Arena.map_eq_ok_iff,
    Arena.node_eq_ok_iff]
  rintro _ ⟨n, hn, rfl⟩
  have hnone : cx.arena.referent? value = none → wlp (pure value) Q cx := fun h =>
    wlp_pure.2 (hvalue h)
  split
  · rename_i type htype
    simp only [wlp_bind, wlp_query, Arena.map_eq_ok_iff, Arena.node_eq_ok_iff]
    rintro _ ⟨m, hm, rfl⟩
    split
    · rename_i target hk
      simp only [wlp_bind, wlp_query, wlp_edit]
      exact href target (Arena.referent?_eq_some_iff.2 ⟨n, type, m, hn, htype, hm, hk⟩)
    · rename_i hk
      refine hnone (Option.eq_none_iff_forall_ne_some.2 fun target h => ?_)
      obtain ⟨n', type', m', hn', htype', hm', hk'⟩ := Arena.referent?_eq_some_iff.1 h
      cases hn.symm.trans hn'
      cases htype.symm.trans htype'
      cases hm.symm.trans hm'
      exact hk target hk'
  · rename_i htype
    refine hnone (Option.eq_none_iff_forall_ne_some.2 fun target h => ?_)
    obtain ⟨n', type', m', hn', htype', -⟩ := Arena.referent?_eq_some_iff.1 h
    cases hn.symm.trans hn'
    exact htype type' htype'

/-- One level of a use: an erroneous expression is kept, a function may be refused, and any other
expression is read first if the use reads it. -/
theorem wlp_classifyUseStep_cases {self : NodeId × UseMode → Pass NodeId} {mode : UseMode}
    {Q : NodeId → Context → Prop} (hkeep : cx.arena.isErroneous expr = .ok true → Q expr cx)
    (hreject : cx.arena.isErroneous expr = .ok false → cx.arena.isRejected expr mode = .ok true →
      wlp (rejectBuiltin expr mode.loc) Q cx)
    (hlevel : cx.arena.isErroneous expr = .ok false → cx.arena.isRejected expr mode = .ok false →
      wlp (when mode.read (recordRead expr)) (fun _ t => ∀ span,
        wlp (nested span .error (classifyNode self expr mode)) Q t) cx) :
    wlp (classifyUseStep self (expr, mode)) Q cx := by
  unfold classifyUseStep
  rw [wlp_bind, wlp_query]
  intro erroneous herr
  cases erroneous with
  | true => exact wlp_pure.2 (hkeep herr)
  | false =>
    rw [if_neg Bool.false_ne_true, wlp_bind, wlp_query]
    intro rejected hrejected
    cases rejected with
    | true => exact hreject herr hrejected
    | false =>
      rw [if_neg Bool.false_ne_true, wlp_bind]
      refine (hlevel herr hrejected).mono fun _ t ht => ?_
      rw [wlp_bind, wlp_query]
      exact fun span _ => ht span

theorem wlp_classifyUseStep {self : NodeId × UseMode → Pass NodeId} {mode : UseMode}
    {Q : NodeId → Context → Prop} (hkeep : Q expr cx)
    (hreject : wlp (rejectBuiltin expr mode.loc) Q cx)
    (hlevel : ∀ (t : Context) (span : Span), cx.arena.Marked t.arena →
      wlp (nested span .error (classifyNode self expr mode)) Q t) :
    wlp (classifyUseStep self (expr, mode)) Q cx :=
  wlp_classifyUseStep_cases (fun _ => hkeep) (fun _ _ => hreject) fun _ _ =>
    wlp_read.mono fun _ t ht span => hlevel t span ht

end Pass

end ExprTree
