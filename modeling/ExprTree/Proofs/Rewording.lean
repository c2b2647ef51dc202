import ExprTree.Proofs.QueuePairs

/-!
# Reports in other words

A discarded value is reported in words that name its place.  The words decide about nothing: two
reductions at named places do the same in lockstep, in a fault or not, and leave queues that differ
in the messages of their diagnostics alone.

* `Diagnostic.unworded` — a diagnostic without its message.
* `Queue.Reworded`, `Context.Reworded` — queues and contexts that differ in messages alone.
* `Pass.reworded_toVoid` — reductions at two named places, and at two casts.
-/

namespace ExprTree

namespace Diagnostic

/-- A diagnostic without its message. -/
def unworded (d : Diagnostic) : Diagnostic := { d with message := "" }

theorem unworded_withLabels (d : Diagnostic) (labels : List Label) :
    (d.withLabels labels).unworded = d.unworded.withLabels labels := rfl

end Diagnostic

namespace Queue

/-- Two queues that differ in the messages of their diagnostics alone. -/
structure Reworded (q p : Queue) : Prop extends Agrees q p where
  lastAccepted_eq : q.lastAccepted = p.lastAccepted
  unworded_eq : q.diagnostics.toList.map Diagnostic.unworded =
    p.diagnostics.toList.map Diagnostic.unworded

namespace Reworded

variable {q p : Queue}

protected theorem refl (q : Queue) : q.Reworded q := ⟨⟨rfl, rfl, rfl, rfl⟩, rfl, rfl⟩

/-- A warning is kept in whatever words, or not at all. -/
theorem offerWarning (h : q.Reworded p) {d e : Diagnostic} (hde : d.unworded = e.unworded) :
    (q.offerWarning d).1 = (p.offerWarning e).1 ∧
      (q.offerWarning d).2.Reworded (p.offerWarning e).2 := by
  have hcode : d.unworded.code = e.unworded.code := congrArg Diagnostic.code hde
  have hkeeps : q.keepsWarning d.code = p.keepsWarning e.code := by
    rw [show d.code = e.code from hcode, h.keepsWarning]
  unfold Queue.offerWarning
  rw [hkeeps]
  split
  · refine ⟨rfl, ⟨h.config_eq, h.errorCount_eq, h.lastError_eq, ?_⟩, rfl, ?_⟩
    · simp [h.size_eq]
    · simp [h.unworded_eq, hde]
  · exact ⟨rfl, ⟨h.config_eq, h.errorCount_eq, h.lastError_eq, h.size_eq⟩, rfl, h.unworded_eq⟩

theorem offerError (h : q.Reworded p) (d : Diagnostic) :
    (q.offerError d).1 = (p.offerError d).1 ∧
      (q.offerError d).2.Reworded (p.offerError d).2 := by
  obtain ⟨hkept, hagrees, hlast⟩ := h.offer_of_lastAccepted h.lastAccepted_eq (r := .error d)
  refine ⟨hkept, hagrees, hlast, ?_⟩
  rw [q.diagnostics_offerError, p.diagnostics_offerError, List.map_append, List.map_append,
    h.unworded_eq, show (q.offerError d).1 = (p.offerError d).1 from hkept]

theorem offerNote (h : q.Reworded p) (span : Span) (message : String) :
    (q.offerNote span message).1 = (p.offerNote span message).1 ∧
      (q.offerNote span message).2.Reworded (p.offerNote span message).2 := by
  obtain ⟨hkept, hagrees, hlast⟩ :=
    h.offer_of_lastAccepted h.lastAccepted_eq (r := .note span message)
  refine ⟨hkept, hagrees, hlast, ?_⟩
  have hwords := h.unworded_eq
  cases hq : q.lastAccepted with
  | false =>
    have hp : p.lastAccepted = false := h.lastAccepted_eq ▸ hq
    rw [offerNote_of_refused hq, offerNote_of_refused hp]
    exact hwords
  | true =>
    have hp : p.lastAccepted = true := h.lastAccepted_eq ▸ hq
    -- the lists are of the same length, hence both empty or both with a last diagnostic
    rcases List.eq_nil_or_concat q.diagnostics.toList with hnil | ⟨before, d, hbefore⟩
    · have hnil' : p.diagnostics.toList = [] := by
        rw [hnil] at hwords
        exact List.map_eq_nil_iff.1 hwords.symm
      rw [offerNote_of_nil hnil, offerNote_of_nil hnil']
      exact hwords
    · -- the note goes to the last diagnostics, which differ in their messages alone
      rw [List.concat_eq_append] at hbefore
      rw [hbefore, List.map_append] at hwords
      obtain ⟨before', rest, hbefore', hmap, hrest⟩ := List.map_eq_append_iff.1 hwords.symm
      obtain ⟨d', rfl, hd⟩ := List.map_eq_singleton_iff.1 hrest
      rw [(diagnostics_offerNote hq hbefore span message).2,
        (diagnostics_offerNote hp hbefore' span message).2]
      simp only [List.map_append, List.map_cons, List.map_nil, Diagnostic.unworded_withLabels, hmap,
        hd]

end Reworded

end Queue

/-- Two contexts that differ in the messages of their diagnostics alone. -/
def Context.Reworded (cx cx' : Context) : Prop :=
  ∃ queue, cx' = { cx with queue } ∧ cx.queue.Reworded queue

theorem Context.Reworded.refl (cx : Context) : cx.Reworded cx := ⟨cx.queue, rfl, .refl _⟩

namespace Pass

open ExprTree.Action

variable {α : Type}

theorem reworded_explains : Explains (fun _ => True) (Parallel Context.Reworded) where
  ask := withQueues_ask
  bind := Parallel.bind
  warn {code} _ span message message' := by
    rintro cx _ ⟨queue, rfl, h⟩
    let d (message : String) := ((Diagnostic.warning code).withMessage message).withLabel span ""
    obtain ⟨hkept, h⟩ := h.offerWarning (d := d message) (e := d message') rfl
    show Alike _ (.ok (cx.queue.offerWarning (d message)).1 _)
      (.ok (queue.offerWarning (d message')).1 _)
    rw [hkept]
    exact .ok ⟨_, rfl, h⟩
  note span message := by
    rintro cx _ ⟨queue, rfl, h⟩
    obtain ⟨hkept, h⟩ := h.offerNote span message
    show Alike _ (.ok (cx.queue.offerNote span message).1 _)
      (.ok (queue.offerNote span message).1 _)
    rw [hkept]
    exact .ok ⟨_, rfl, h⟩

theorem reworded_twins : Twins (Parallel Context.Reworded) :=
  withQueues_twins fun d h => (h.offerError d).2

/-- Reductions of an expression at two named places, or at two casts. -/
theorem reworded_toVoid (expr : NodeId) {site site' : DiscardSite} (h : AlikeSites site site') :
    Parallel Context.Reworded (toVoid expr site) (toVoid expr site') :=
  (reworded_twins.alikeSites reworded_explains).toVoid h expr

end Pass

end ExprTree
