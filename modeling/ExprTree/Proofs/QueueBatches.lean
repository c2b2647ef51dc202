import Mathlib.Data.List.Permutation
import ExprTree.Proofs.QueueHistory

/-!
# What a flush returns

A flush hands out what has been kept since the flush before it: every diagnostic once, with the
notes on it, in the order of the places, and where two places are the same in the order of the
reports.  Behind a flush nothing is left of the reports before it, so that a run falls into parts
that know nothing of each other.

* `Diagnostic.place` — where a diagnostic stands in a listing.
* `Listing` — a listing of diagnostics by their places; there is only one (`Listing.unique`).
* `Queue.run` — reports in order, with what the flushes among them return.
* `History.flushed` — what had been kept at each flush of a history.
* `Queue.run_flushes` — every flush of every run returns the listing of what had been kept.
-/

namespace ExprTree

/-! ### Places -/

/-- Where the first primary label starts; without one, or if its span is unknown, the largest
offset. -/
def Label.place : List Label → Nat
  | [] => UInt32.size - 1
  | l :: labels =>
    if l.primary then if l.span = .unknown then UInt32.size - 1 else l.span.start.toNat
    else place labels

namespace Diagnostic

/-- Where a diagnostic stands in a listing. -/
def place (d : Diagnostic) : Nat := Label.place d.labels

theorem place_eq (d : Diagnostic) : d.place = d.position.toNat := by
  obtain ⟨code, severity, message, labels, notes⟩ := d
  simp only [place, position, primarySpan?]
  induction labels with
  | nil => rfl
  | cons l labels ih =>
    simp only [Label.place, List.find?_cons]
    cases hl : l.primary with
    | false => simpa using ih
    | true =>
      by_cases hspan : l.span = .unknown
      · simp [hspan, Span.unknown, Span.maxOffset]
      · simp [hspan]

/-- A note does not move the diagnostic that it explains. -/
theorem place_withLabels (d : Diagnostic) {labels : List Label}
    (hlabels : ∀ l ∈ labels, l.primary = false) : (d.withLabels labels).place = d.place := by
  have hnotes : Label.place labels = UInt32.size - 1 := by
    induction labels with
    | nil => rfl
    | cons l labels ih =>
      rw [List.forall_mem_cons] at hlabels
      rw [Label.place, hlabels.1]
      exact ih hlabels.2
  simp only [place, withLabels]
  induction d.labels with
  | nil => exact hnotes
  | cons l rest ih => simp only [List.cons_append, Label.place, ih]

end Diagnostic

/-! ### Listings -/

/-- A listing of the stored diagnostics by their places. -/
structure Listing (stored listing : List Diagnostic) : Prop where
  /-- Every diagnostic is listed, and none is listed more often than it is stored. -/
  perm : listing.Perm stored
  sorted : listing.Pairwise fun d e => d.place ≤ e.place
  /-- The diagnostics of one place stay in their order. -/
  stable : ∀ n, (listing.filter fun d => d.place = n) = stored.filter fun d => d.place = n

/-- Lists by places are the same if they are the same at every place. -/
theorem eq_of_filter_place {l m : List Diagnostic} (hl : l.Pairwise fun d e => d.place ≤ e.place)
    (hm : m.Pairwise fun d e => d.place ≤ e.place)
    (h : ∀ n, (l.filter fun d => d.place = n) = m.filter fun d => d.place = n) : l = m := by
  induction l generalizing m with
  | nil =>
    cases m with
    | nil => rfl
    | cons e m => simpa using h e.place
  | cons d l ih =>
    cases m with
    | nil => simpa using h d.place
    | cons e m =>
      rw [List.pairwise_cons] at hl hm
      -- each of the two heads is in the other list, behind its head
      have hd : d ∈ e :: m := by
        have hmem : d ∈ (e :: m).filter fun x => x.place = d.place := by
          rw [← h d.place]
          simp
        exact (List.mem_filter.1 hmem).1
      have he : e ∈ d :: l := by
        have hmem : e ∈ (d :: l).filter fun x => x.place = e.place := by
          rw [h e.place]
          simp
        exact (List.mem_filter.1 hmem).1
      have hplace : d.place = e.place := by
        rcases List.mem_cons.1 hd with rfl | hd
        · rfl
        · rcases List.mem_cons.1 he with rfl | he
          · rfl
          · exact Nat.le_antisymm (hl.1 e he) (hm.1 d hd)
      have hhead : d = e := by
        have hn := h d.place
        simp only [List.filter_cons, hplace, decide_true, if_true, List.cons.injEq] at hn
        exact hn.1
      subst hhead
      rw [ih hl.2 hm.2]
      intro n
      have hn := h n
      simp only [List.filter_cons] at hn
      split at hn
      · exact (List.cons.inj hn).2
      · exact hn

namespace Listing

variable {stored l m : List Diagnostic}

/-- What is stored has one listing only. -/
theorem unique (hl : Listing stored l) (hm : Listing stored m) : l = m :=
  eq_of_filter_place hl.sorted hm.sorted fun n => (hl.stable n).trans (hm.stable n).symm

end Listing

namespace Queue

theorem listing_flush (q : Queue) : Listing q.diagnostics.toList q.flush.1 := by
  have htrans : ∀ d e f : Diagnostic, decide (d.position ≤ e.position) = true →
      decide (e.position ≤ f.position) = true → decide (d.position ≤ f.position) = true := by
    simp only [decide_eq_true_eq]
    exact fun _ _ _ => UInt32.le_trans
  have htotal : ∀ d e : Diagnostic,
      (decide (d.position ≤ e.position) || decide (e.position ≤ d.position)) = true := by
    simp only [Bool.or_eq_true, decide_eq_true_eq]
    exact fun _ _ => UInt32.le_total _ _
  have hperm : q.flush.1.Perm q.diagnostics.toList := List.mergeSort_perm _ _
  refine ⟨hperm, ?_, fun n => ?_⟩
  · refine (List.pairwise_mergeSort htrans htotal _).imp fun {d e} h => ?_
    rw [d.place_eq, e.place_eq]
    exact UInt32.le_iff_toNat_le.1 (of_decide_eq_true h)
  · -- the diagnostics of one place are sorted already, so sorting keeps them in their order
    have hsorted : (q.diagnostics.toList.filter fun d => d.place = n).Pairwise
        fun d e => decide (d.position ≤ e.position) = true := by
      refine List.pairwise_of_forall_mem_list fun d hd e he => ?_
      simp only [List.mem_filter, decide_eq_true_eq, Diagnostic.place_eq] at hd he
      simp only [decide_eq_true_eq, UInt32.le_iff_toNat_le]
      omega
    have hsub := (List.sublist_mergeSort htrans htotal hsorted List.filter_sublist).filter
      fun d => decide (d.place = n)
    simp only [List.filter_filter, Bool.and_self] at hsub
    exact (hsub.eq_of_length (hperm.filter _).length_eq.symm).symm

/-! ### Runs -/

/-- Reports in order: what the flushes among them return, and the queue behind them. -/
def run (q : Queue) : List Report → Except Fault (List (List Diagnostic) × Queue)
  | [] => .ok ([], q)
  | r :: reports => do
    let (_, next) ← q.take r
    let (listings, last) ← next.run reports
    return (if r = .flush then q.flush.1 :: listings else listings, last)

end Queue

/-- What had been kept at each flush of a history, the first flush first. -/
def History.flushed : History → List (List Diagnostic)
  | [] => []
  | ⟨.flush, _⟩ :: h => flushed h ++ [stored h]
  | ⟨.warning _, _⟩ :: h | ⟨.error _, _⟩ :: h | ⟨.note .., _⟩ :: h => flushed h

namespace Queue

variable {config : QueueConfig} {h : History} {q : Queue}

theorem After.listing (hq : After config h q) : Listing h.stored q.flush.1 := by
  rw [← hq.recalls.diagnostics_eq]
  exact q.listing_flush

theorem After.flush_eq (hq : After config h q) : q.flush.2 = fresh config := by
  show fresh q.config = fresh config
  rw [hq.recalls.config_eq]

/-- A run goes on from a queue with a history: each flush lists what had been kept then. -/
theorem After.run (hq : After config h q) (reports : List Report)
    (hfits : ∀ r ∈ reports, r.fits = true) : ∃ (h' : History) (q' : Queue)
      (stored listings : List (List Diagnostic)), q.run reports = .ok (listings, q') ∧
      After config (h' ++ h) q' ∧ h'.reverse.map Entry.report = reports ∧
      (h' ++ h).flushed = h.flushed ++ stored ∧ List.Forall₂ Listing stored listings := by
  induction reports generalizing h q with
  | nil => exact ⟨[], q, [], [], rfl, hq, rfl, by simp, .nil⟩
  | cons r reports ih =>
    rw [List.forall_mem_cons] at hfits
    have htake : q.take r = .ok ((q.offer r).1, (q.offer r).2) :=
      take_eq_ok_iff.2 ⟨hfits.1, rfl⟩
    obtain ⟨h', q', stored, listings, hrun, hafter, hreports, hflushed, hlistings⟩ :=
      ih (hq.cons htake) hfits.2
    simp only [Queue.run, htake]
    let entry : Entry := ⟨r, (q.offer r).1⟩
    have hall : (h' ++ [entry]).reverse.map Entry.report = r :: reports := by
      simp [entry, hreports]
    refine ⟨h' ++ [entry], q', ?_⟩
    rw [List.append_assoc, List.singleton_append]
    cases r with
    | flush =>
      refine ⟨h.stored :: stored, q.flush.1 :: listings, ?_, hafter, hall, ?_,
        .cons hq.listing hlistings⟩
      · simp [bind, Except.bind, hrun, pure, Except.pure]
      · rw [hflushed, History.flushed, List.append_assoc, List.singleton_append]
    | warning d | error d | note span message =>
      refine ⟨stored, listings, ?_, hafter, hall, hflushed, hlistings⟩
      simp [bind, Except.bind, hrun, pure, Except.pure]

/-- Whatever is reported to a fresh queue, each flush returns the listing of what has been kept
since the flush before it, and behind a flush the queue answers as if it were fresh. -/
theorem run_flushes (config : QueueConfig) (reports : List Report)
    (hfits : ∀ r ∈ reports, r.fits = true) : ∃ (h : History) (q : Queue)
      (listings : List (List Diagnostic)), (fresh config).run reports = .ok (listings, q) ∧
      After config h q ∧ h.reverse.map Entry.report = reports ∧
      List.Forall₂ Listing h.flushed listings ∧ Listing h.stored q.flush.1 ∧
      q.flush.2 = fresh config ∧
      ∀ later, q.answers (.flush :: later) = ((fresh config).answers later).map (true :: ·) ∧
        q.run (.flush :: later) =
          ((fresh config).run later).map fun (listings, p) => (q.flush.1 :: listings, p) := by
  have hfresh : After config [] (fresh config) := .nil
  obtain ⟨h, q, stored, listings, hrun, hafter, hreports, hflushed, hlistings⟩ :=
    hfresh.run reports hfits
  rw [List.append_nil] at hafter hflushed
  rw [History.flushed, List.nil_append] at hflushed
  refine ⟨h, q, listings, hrun, hafter, hreports, hflushed ▸ hlistings, hafter.listing,
    hafter.flush_eq, fun later => ⟨?_, ?_⟩⟩
  · rw [answers_cons, ← hafter.flush_eq]
    rfl
  · simp only [Queue.run, take, hafter.flush_eq]
    show Except.bind ((fresh config).run later) _ = _
    cases (fresh config).run later <;> rfl

/-- Three warnings and a note come in two batches: the first is sorted by the places, and carries
the note on the warning before it; the note behind the flush explains nothing. -/
theorem run_flushes_twice :
    let far := (Diagnostic.warning .unusedValue).withLabel ⟨30, 31⟩ "here"
    let near := (Diagnostic.warning .ignoredResult).withLabel ⟨10, 11⟩ "there"
    ∃ (h : History) (q : Queue), After .standard h q ∧ q.flush.2 = fresh .standard ∧
      (fresh .standard).run [.warning (.warning .unusedValue), .warning far, .warning near,
          .note ⟨4, 5⟩ "declared here", .flush, .note ⟨4, 5⟩ "lost", .warning far, .flush] =
        .ok ([[near.withSecondary ⟨4, 5⟩ "declared here", far, .warning .unusedValue], [far]],
          q) := by
  intro far near
  obtain ⟨h, q, listings, hrun, hafter, -, -, -, hfresh, -⟩ := run_flushes .standard
    [.warning (.warning .unusedValue), .warning far, .warning near, .note ⟨4, 5⟩ "declared here",
      .flush, .note ⟨4, 5⟩ "lost", .warning far, .flush] (by decide)
  refine ⟨h, q, hafter, hfresh, hrun.trans ?_⟩
  have heval : (fresh .standard).run [.warning (.warning .unusedValue), .warning far,
      .warning near, .note ⟨4, 5⟩ "declared here", .flush, .note ⟨4, 5⟩ "lost", .warning far,
      .flush] = .ok ([[near.withSecondary ⟨4, 5⟩ "declared here", far, .warning .unusedValue],
        [far]], fresh .standard) := by
    cbv
  rw [heval] at hrun
  cases hrun
  rfl

end Queue

end ExprTree
