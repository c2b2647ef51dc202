import ExprTree.Diagnostic.Queue

/-!
# What a queue keeps

What a queue keeps follows from what has been reported to it and what it has kept so far, since it
was last emptied.  The rules are stated of the history alone; the queue has its counts and its
memory of the last report only to follow them.

* `Report`, `History` — reports to a queue, and the reports so far with their answers.
* `History.Keeps` — the rules of acceptance.
* `History.stored` — what has been kept, each diagnostic with its notes.
* `Queue.After` — a queue after a history.
* `Queue.After.follows` — the queue follows the rules, and a refused report leaves it as it was but
  for the notes on that report.
-/

namespace ExprTree

/-- What a queue is told. -/
inductive Report
  | warning (d : Diagnostic)
  | error (d : Diagnostic)
  | note (span : Span) (message : String)
  /-- All diagnostics are taken out. -/
  | flush
  deriving DecidableEq, Repr

namespace Report

/-- Is a diagnostic reported under its own severity? -/
def fits : Report → Bool
  | warning d => d.isWarning
  | error d => d.isError
  | note .. | flush => true

/-- Does this explain the report before it? -/
def isNote : Report → Bool
  | note .. => true
  | _ => false

end Report

/-- A report and what became of it. -/
structure Entry where
  report : Report
  /-- Has the report been kept? -/
  kept : Bool
  deriving DecidableEq, Repr

/-- What has been reported to a queue, the last report first. -/
abbrev History := List Entry

namespace Diagnostic

/-- Errors are told apart by their places and by the first thirty characters of their messages. -/
def Repeats (d e : Diagnostic) : Prop :=
  d.primarySpan?.getD .unknown = e.primarySpan?.getD .unknown ∧
    d.message.toList.take 30 = e.message.toList.take 30

theorem errorKey_eq_iff {d e : Diagnostic} : d.errorKey = e.errorKey ↔ d.Repeats e := by
  simp only [errorKey, ErrorKey.mk.injEq, Repeats, ErrorKey.openingLength]

/-- A diagnostic with more labels behind its own. -/
def withLabels (d : Diagnostic) (labels : List Label) : Diagnostic :=
  { d with labels := d.labels ++ labels }

@[simp] theorem withLabels_nil (d : Diagnostic) : d.withLabels [] = d := by simp [withLabels]

@[simp] theorem isError_withLabels (d : Diagnostic) (labels : List Label) :
    (d.withLabels labels).isError = d.isError := rfl

@[simp] theorem isWarning_withLabels (d : Diagnostic) (labels : List Label) :
    (d.withLabels labels).isWarning = d.isWarning := rfl

theorem isError_eq_false {d : Diagnostic} (h : d.isWarning = true) : d.isError = false := by
  simp only [isWarning, beq_iff_eq] at h
  simp [isError, h]

theorem isWarning_eq_false {d : Diagnostic} (h : d.isError = true) : d.isWarning = false := by
  simp only [isError, beq_iff_eq] at h
  simp [isWarning, h]

theorem withLabels_cons (d : Diagnostic) (span : Span) (message : String) (labels : List Label) :
    d.withLabels (⟨span, message, false⟩ :: labels) =
      (d.withSecondary span message).withLabels labels := by
  simp [withLabels, withSecondary]

end Diagnostic

namespace History

/-- The errors kept since the last flush, the last one first. -/
def errors : History → List Diagnostic
  | [] => []
  | ⟨.error d, kept⟩ :: h => if kept then d :: errors h else errors h
  | ⟨.flush, _⟩ :: _ => []
  | ⟨.warning _, _⟩ :: h | ⟨.note .., _⟩ :: h => errors h

/-- Is there a warning or an error since the last flush, and has the last one been kept? -/
def lastKept : History → Bool
  | [] => false
  | ⟨.warning _, kept⟩ :: _ | ⟨.error _, kept⟩ :: _ => kept
  | ⟨.flush, _⟩ :: _ => false
  | ⟨.note .., _⟩ :: h => lastKept h

/-- Is a report kept after what has happened? -/
def Keeps (config : QueueConfig) (h : History) : Report → Prop
  | .warning d => ∃ c, d.code.category? = some c ∧ config.warnings.has c = true
  | .error d => (config.errorLimit = 0 ∨ (errors h).length < config.errorLimit) ∧
      (config.deduplicate = true → ∀ e, (errors h).head? = some e → ¬ e.Repeats d)
  | .note .. => lastKept h = true
  | .flush => True

/-- What has been kept since the last flush, if the given notes come next: every diagnostic with
the notes on it behind its own labels, in the order of the reports. -/
def storedWith (notes : List Label) : History → List Diagnostic
  | [] => []
  | ⟨.warning d, kept⟩ :: h | ⟨.error d, kept⟩ :: h =>
    if kept then storedWith [] h ++ [d.withLabels notes] else storedWith [] h
  | ⟨.note span message, kept⟩ :: h =>
    storedWith (if kept then ⟨span, message, false⟩ :: notes else notes) h
  | ⟨.flush, _⟩ :: _ => []

/-- What has been kept since the last flush. -/
def stored (h : History) : List Diagnostic := storedWith [] h

variable {h : History}

/-- A note goes to the last diagnostic, which is the report that it explains. -/
theorem storedWith_of_lastKept (he : lastKept h = true) : ∃ (before : List Diagnostic)
    (d : Diagnostic), ∀ notes, storedWith notes h = before ++ [d.withLabels notes] := by
  induction h with
  | nil => cases he
  | cons entry h ih =>
    obtain ⟨report, kept⟩ := entry
    cases report with
    | warning d | error d =>
      cases he
      exact ⟨storedWith [] h, d, fun notes => rfl⟩
    | note span message =>
      obtain ⟨before, d, hd⟩ := ih he
      cases kept with
      | false => exact ⟨before, d, hd⟩
      | true =>
        refine ⟨before, d.withSecondary span message, fun notes => ?_⟩
        rw [← Diagnostic.withLabels_cons]
        exact hd _
    | flush => cases he

end History

namespace Queue

/-- Tell a queue something, and ask whether it has been kept. -/
def take (q : Queue) : Report → Except Fault (Bool × Queue)
  | .warning d => q.warn d
  | .error d => q.error d
  | .note span message => .ok (q.offerNote span message)
  | .flush => .ok (true, q.flush.2)

/-- The same without a look at the severity. -/
def offer (q : Queue) : Report → Bool × Queue
  | .warning d => q.offerWarning d
  | .error d => q.offerError d
  | .note span message => q.offerNote span message
  | .flush => (true, q.flush.2)

/-- What a queue answers to reports in order. -/
def answers (q : Queue) : List Report → Except Fault (List Bool)
  | [] => .ok []
  | r :: reports => do
    let (kept, q) ← q.take r
    return kept :: (← q.answers reports)

/-- A queue after reports to a fresh one. -/
inductive After (config : QueueConfig) : History → Queue → Prop
  | nil : After config [] (fresh config)
  | cons {h : History} {q q' : Queue} {r : Report} {kept : Bool} (hq : After config h q)
    (hr : q.take r = .ok (kept, q')) : After config (⟨r, kept⟩ :: h) q'

/-- The state of a queue is what the history says. -/
structure Recalls (config : QueueConfig) (h : History) (q : Queue) : Prop where
  config_eq : q.config = config
  diagnostics_eq : q.diagnostics.toList = h.stored
  errorCount_eq : q.errorCount = h.errors.length
  lastError_eq : q.lastError = h.errors.head?.map Diagnostic.errorKey
  lastAccepted_eq : q.lastAccepted = h.lastKept

variable {config : QueueConfig} {h : History} {q q' : Queue} {r : Report} {kept : Bool}
  {d : Diagnostic}

theorem take_eq (q : Queue) (r : Report) :
    q.take r = if r.fits then .ok (q.offer r) else .error .wrongSeverity := by
  cases r with
  | warning d => simp only [take, warn, offer, Report.fits, Diagnostic.isWarning, beq_iff_eq]
  | error d => simp only [take, error, offer, Report.fits, Diagnostic.isError, beq_iff_eq]
  | note span message => rfl
  | flush => rfl

theorem take_eq_ok_iff : q.take r = .ok (kept, q') ↔ r.fits = true ∧ q.offer r = (kept, q') := by
  rw [take_eq]
  split <;> simp [*]

/-! ### The rules -/

theorem recalls_fresh : Recalls config [] (fresh config) := ⟨rfl, rfl, rfl, rfl, rfl⟩

theorem keepsWarning_iff {code : Code} : q.keepsWarning code = true ↔
    ∃ c, code.category? = some c ∧ q.config.warnings.has c = true := by
  simp [keepsWarning, isEnabled, Option.any_eq_true]

theorem Recalls.keepsError_iff (hq : Recalls config h q) :
    q.keepsError d = true ↔ h.Keeps config (.error d) := by
  have hlimit : q.limitReached = false ↔
      config.errorLimit = 0 ∨ h.errors.length < config.errorLimit := by
    simp only [limitReached, hq.config_eq, hq.errorCount_eq, Bool.and_eq_false_iff,
      decide_eq_false_iff_not]
    omega
  have hlast : (q.lastError == some d.errorKey) = true ↔
      ∃ e, h.errors.head? = some e ∧ e.Repeats d := by
    simp [hq.lastError_eq, Diagnostic.errorKey_eq_iff]
  simp only [keepsError, Bool.and_eq_true, Bool.not_eq_true', hlimit, ← Bool.not_eq_true,
    hq.config_eq, hlast, History.Keeps, not_and, not_exists]

theorem Recalls.offerWarning (hq : Recalls config h q) :
    ((q.offerWarning d).1 = true ↔ h.Keeps config (.warning d)) ∧
      Recalls config (⟨.warning d, (q.offerWarning d).1⟩ :: h) (q.offerWarning d).2 := by
  have hrule : q.keepsWarning d.code = true ↔ h.Keeps config (.warning d) := by
    rw [keepsWarning_iff, hq.config_eq]
    rfl
  unfold Queue.offerWarning
  split
  · rename_i hkeep
    refine ⟨iff_of_true rfl (hrule.1 hkeep), hq.config_eq, ?_, hq.errorCount_eq, hq.lastError_eq,
      rfl⟩
    simp [History.stored, History.storedWith, hq.diagnostics_eq]
  · rename_i hkeep
    exact ⟨iff_of_false Bool.false_ne_true fun h => hkeep (hrule.2 h), hq.config_eq,
      hq.diagnostics_eq, hq.errorCount_eq, hq.lastError_eq, rfl⟩

theorem Recalls.offerError (hq : Recalls config h q) :
    ((q.offerError d).1 = true ↔ h.Keeps config (.error d)) ∧
      Recalls config (⟨.error d, (q.offerError d).1⟩ :: h) (q.offerError d).2 := by
  have hrule := hq.keepsError_iff (d := d)
  unfold Queue.offerError
  split
  · rename_i hkeep
    refine ⟨iff_of_true rfl (hrule.1 hkeep), hq.config_eq, ?_, ?_, rfl, rfl⟩
    · simp [History.stored, History.storedWith, hq.diagnostics_eq]
    · simp [History.errors, hq.errorCount_eq]
  · rename_i hkeep
    exact ⟨iff_of_false Bool.false_ne_true fun h => hkeep (hrule.2 h), hq.config_eq,
      hq.diagnostics_eq, hq.errorCount_eq, hq.lastError_eq, rfl⟩

theorem Recalls.offerNote (hq : Recalls config h q) {span : Span} {message : String} :
    ((q.offerNote span message).1 = true ↔ h.Keeps config (.note span message)) ∧
      Recalls config (⟨.note span message, (q.offerNote span message).1⟩ :: h)
        (q.offerNote span message).2 := by
  cases hkept : h.lastKept with
  | false =>
    have hnote : q.offerNote span message = (false, q) := by
      simp only [Queue.offerNote, hq.lastAccepted_eq, hkept]
    rw [hnote]
    exact ⟨iff_of_false Bool.false_ne_true (by simp [History.Keeps, hkept]), hq.config_eq,
      hq.diagnostics_eq, hq.errorCount_eq, hq.lastError_eq, hq.lastAccepted_eq⟩
  | true =>
    obtain ⟨before, d, hd⟩ := History.storedWith_of_lastKept hkept
    have hstored : q.diagnostics.toList = before ++ [d] := by
      rw [hq.diagnostics_eq, History.stored, hd, Diagnostic.withLabels_nil]
    have hdiagnostics : q.diagnostics = before.toArray.push d := by
      simp [← Array.toList_inj, hstored]
    have hnote : q.offerNote span message = (true, { q with
        diagnostics := before.toArray.push (d.withSecondary span message) }) := by
      simp [Queue.offerNote, hq.lastAccepted_eq, hkept, hdiagnostics]
    rw [hnote]
    refine ⟨iff_of_true rfl hkept, hq.config_eq, ?_, hq.errorCount_eq, hq.lastError_eq,
      hq.lastAccepted_eq⟩
    show _ = History.storedWith [⟨span, message, false⟩] h
    rw [hd, Diagnostic.withLabels_cons]
    simp

/-- A queue keeps a report if the rules say so, and goes on as they say. -/
theorem Recalls.take (hq : Recalls config h q) (hr : q.take r = .ok (kept, q')) :
    (kept = true ↔ h.Keeps config r) ∧ Recalls config (⟨r, kept⟩ :: h) q' := by
  have hr : q.offer r = (kept, q') := (take_eq_ok_iff.1 hr).2
  obtain ⟨rfl, rfl⟩ : (q.offer r).1 = kept ∧ (q.offer r).2 = q' := by simp [hr]
  cases r with
  | warning d => exact hq.offerWarning
  | error d => exact hq.offerError
  | note span message => exact hq.offerNote
  | flush => exact ⟨iff_of_true rfl trivial, hq.config_eq, rfl, rfl, rfl, rfl⟩

theorem After.recalls (hq : After config h q) : Recalls config h q := by
  induction hq with
  | nil => exact recalls_fresh
  | cons _ hr ih => exact (ih.take hr).2

/-- Whatever has been reported, it was kept if the rules said so then. -/
theorem After.rule (hq : After config h q) {e : Entry} {before : History}
    (he : e :: before <:+ h) : e.kept = true ↔ before.Keeps config e.report := by
  induction hq with
  | nil => simp at he
  | cons hq hr ih =>
    rcases List.suffix_cons_iff.1 he with heq | he
    · cases heq
      exact (hq.recalls.take hr).1
    · exact ih he

/-! ### Counts -/

theorem After.fits (hq : After config h q) : ∀ e ∈ h, e.report.fits = true := by
  induction hq with
  | nil => simp
  | cons _ hr ih => simpa using ⟨(take_eq_ok_iff.1 hr).1, ih⟩

end Queue

namespace History

variable {h : History}

/-- What is kept is an error or a warning, as it was reported. -/
theorem countP_storedWith (hfits : ∀ e ∈ h, e.report.fits = true) (notes : List Label) :
    (storedWith notes h).countP Diagnostic.isError = (errors h).length ∧
      (storedWith notes h).length =
        (errors h).length + (storedWith notes h).countP Diagnostic.isWarning := by
  induction h generalizing notes with
  | nil => simp [storedWith, errors]
  | cons entry h ih =>
    obtain ⟨report, kept⟩ := entry
    rw [List.forall_mem_cons] at hfits
    cases report with
    | warning d =>
      have hd : d.isWarning = true := hfits.1
      obtain ⟨herror, hlength⟩ := ih hfits.2 []
      cases kept with
      | false => exact ⟨herror, hlength⟩
      | true => simp [storedWith, errors, herror, hlength, hd, Diagnostic.isError_eq_false hd,
          Nat.add_assoc]
    | error d =>
      have hd : d.isError = true := hfits.1
      obtain ⟨herror, hlength⟩ := ih hfits.2 []
      cases kept with
      | false => exact ⟨herror, hlength⟩
      | true =>
        simp [storedWith, errors, herror, hlength, hd, Diagnostic.isWarning_eq_false hd]
        omega
    | note span message => exact ih hfits.2 _
    | flush => simp [storedWith, errors]

end History

namespace Queue

variable {config : QueueConfig} {h : History} {q q' p : Queue} {r : Report} {kept : Bool}

theorem After.counts (hq : After config h q) :
    q.errorCount = h.stored.countP Diagnostic.isError ∧
      q.warningCount = h.stored.countP Diagnostic.isWarning ∧
      q.size = q.errorCount + q.warningCount := by
  obtain ⟨herror, hlength⟩ := History.countP_storedWith hq.fits []
  have hstored := hq.recalls.diagnostics_eq
  have herrors := hq.recalls.errorCount_eq
  have hwarnings : q.warningCount = h.stored.countP Diagnostic.isWarning := by
    rw [warningCount, hstored, List.countP_eq_length_filter]
  refine ⟨herrors.trans herror.symm, hwarnings, ?_⟩
  rw [herrors, hwarnings, size, ← Array.length_toList, hstored]
  exact hlength

/-- No more errors are kept than the limit allows. -/
theorem After.errorCount_le (hq : After config h q) (hlimit : config.errorLimit ≠ 0) :
    q.errorCount ≤ config.errorLimit := by
  induction hq with
  | nil => exact Nat.zero_le _
  | @cons h q q' r kept hq hr ih =>
    have hstep := hq.recalls.take hr
    have herrors := hq.recalls.errorCount_eq
    rw [hstep.2.errorCount_eq]
    cases r with
    | error d =>
      cases kept with
      | false =>
        rw [herrors] at ih
        exact ih
      | true => exact (hstep.1.1 rfl).1.resolve_left hlimit
    | flush => exact Nat.zero_le _
    | warning d | note span message =>
      rw [herrors] at ih
      exact ih

/-! ### Refused reports -/

/-- Two queues decide alike on warnings and errors, and on the notes behind them. -/
structure Agrees (q p : Queue) : Prop where
  config_eq : q.config = p.config
  errorCount_eq : q.errorCount = p.errorCount
  lastError_eq : q.lastError = p.lastError
  size_eq : q.diagnostics.size = p.diagnostics.size

theorem Agrees.keepsError (hqp : Agrees q p) (d : Diagnostic) :
    q.keepsError d = p.keepsError d := by
  simp only [Queue.keepsError, limitReached, hqp.config_eq, hqp.errorCount_eq, hqp.lastError_eq]

theorem Agrees.keepsWarning (hqp : Agrees q p) (code : Code) :
    q.keepsWarning code = p.keepsWarning code := by
  have henabled : q.isEnabled = p.isEnabled := by
    funext c
    simp only [isEnabled, hqp.config_eq]
  rw [Queue.keepsWarning, Queue.keepsWarning, henabled]

theorem Agrees.trans {o : Queue} (hqp : Agrees q p) (hpo : Agrees p o) : Agrees q o :=
  ⟨hqp.1.trans hpo.1, hqp.2.trans hpo.2, hqp.3.trans hpo.3, hqp.4.trans hpo.4⟩

theorem Agrees.symm (hqp : Agrees q p) : Agrees p q :=
  ⟨hqp.1.symm, hqp.2.symm, hqp.3.symm, hqp.4.symm⟩

/-- The next warning or error finds the queue as it was before a note. -/
theorem offerNote_keeps (q : Queue) (span : Span) (message : String) :
    (q.offerNote span message).1 = (q.lastAccepted && decide (q.diagnostics.size ≠ 0)) ∧
      Agrees (q.offerNote span message).2 q ∧
      (q.offerNote span message).2.lastAccepted = q.lastAccepted := by
  obtain ⟨diagnostics, errorCount, lastError, lastAccepted, config⟩ := q
  simp only [Queue.offerNote]
  cases lastAccepted with
  | false => exact ⟨rfl, ⟨rfl, rfl, rfl, rfl⟩, rfl⟩
  | true =>
    cases hback : diagnostics.back? with
    | none => exact ⟨by simpa using hback, ⟨rfl, rfl, rfl, rfl⟩, rfl⟩
    | some last =>
      have hsize : diagnostics.size ≠ 0 := fun hzero => by
        simp [Array.size_eq_zero_iff.1 hzero] at hback
      refine ⟨by simpa using hsize, ⟨rfl, rfl, rfl, ?_⟩, rfl⟩
      simp only [Array.size_push, Array.size_pop]
      omega

/-- A refused report changes no diagnostic and no count. -/
theorem refused_keeps (hr : (q.offer r).1 = false) :
    (q.offer r).2.diagnostics = q.diagnostics ∧ Agrees (q.offer r).2 q := by
  cases r with
  | warning d | error d =>
    simp only [offer, offerWarning, offerError] at hr ⊢
    split at hr
    · cases hr
    · rename_i hkeep
      rw [if_neg hkeep]
      exact ⟨rfl, rfl, rfl, rfl, rfl⟩
  | note span message =>
    refine ⟨?_, (offerNote_keeps q span message).2.1⟩
    simp only [offer, offerNote] at hr ⊢
    split at hr
    · cases hr
    · rfl
  | flush => cases hr

/-- Warnings, errors and flushes meet the same answers, and leave the same state for notes. -/
theorem Agrees.offer (hqp : Agrees q p) (hr : r.isNote = false) :
    (q.offer r).1 = (p.offer r).1 ∧ Agrees (q.offer r).2 (p.offer r).2 ∧
      (q.offer r).2.lastAccepted = (p.offer r).2.lastAccepted := by
  have hsize := hqp.size_eq
  cases r with
  | warning d =>
    simp only [Queue.offer, offerWarning, hqp.keepsWarning]
    split
    · exact ⟨rfl, ⟨hqp.config_eq, hqp.errorCount_eq, hqp.lastError_eq, by simp [hsize]⟩, rfl⟩
    · exact ⟨rfl, ⟨hqp.config_eq, hqp.errorCount_eq, hqp.lastError_eq, hsize⟩, rfl⟩
  | error d =>
    simp only [Queue.offer, offerError, hqp.keepsError]
    split
    · exact ⟨rfl, ⟨hqp.config_eq, by simp [hqp.errorCount_eq], rfl, by simp [hsize]⟩, rfl⟩
    · exact ⟨rfl, ⟨hqp.config_eq, hqp.errorCount_eq, hqp.lastError_eq, hsize⟩, rfl⟩
  | note span message => cases hr
  | flush => exact ⟨rfl, ⟨hqp.config_eq, rfl, rfl, rfl⟩, rfl⟩

/-- Notes meet the same answers where the report that they explain has been answered alike. -/
theorem Agrees.offer_of_lastAccepted (hqp : Agrees q p) (hlast : q.lastAccepted = p.lastAccepted) :
    (q.offer r).1 = (p.offer r).1 ∧ Agrees (q.offer r).2 (p.offer r).2 ∧
      (q.offer r).2.lastAccepted = (p.offer r).2.lastAccepted := by
  cases r with
  | note span message =>
    obtain ⟨hkept, hq, hqlast⟩ := offerNote_keeps q span message
    obtain ⟨hkept', hp, hplast⟩ := offerNote_keeps p span message
    refine ⟨?_, (hq.trans hqp).trans hp.symm, hqlast.trans (hlast.trans hplast.symm)⟩
    exact hkept.trans (by rw [hlast, hqp.size_eq, ← hkept']; rfl)
  | warning d | error d | flush => exact hqp.offer rfl

theorem answers_cons (q : Queue) (r : Report) (reports : List Report) : q.answers (r :: reports) =
    if r.fits then ((q.offer r).2.answers reports).map ((q.offer r).1 :: ·)
    else .error .wrongSeverity := by
  simp only [answers, take_eq]
  split
  · show Except.bind ((q.offer r).2.answers reports) _ = _
    cases (q.offer r).2.answers reports <;> rfl
  · rfl

theorem Agrees.answers_eq (hqp : Agrees q p) (hlast : q.lastAccepted = p.lastAccepted)
    (reports : List Report) : q.answers reports = p.answers reports := by
  induction reports generalizing q p with
  | nil => rfl
  | cons r reports ih =>
    obtain ⟨hkept, hagree, hlast⟩ := hqp.offer_of_lastAccepted hlast (r := r)
    rw [answers_cons, answers_cons, hkept, ih hagree hlast]

theorem map_drop_cons (kept : Bool) (n : Nat) (answers : Except Fault (List Bool)) :
    (answers.map (kept :: ·)).map (·.drop (n + 1)) = answers.map (·.drop n) := by
  cases answers <;> rfl

/-- What agrees answers alike from the next warning, error or flush on. -/
theorem Agrees.answers_drop (hqp : Agrees q p) (reports : List Report) :
    (q.answers reports).map (·.drop (reports.takeWhile Report.isNote).length) =
      (p.answers reports).map (·.drop (reports.takeWhile Report.isNote).length) := by
  induction reports generalizing q p with
  | nil => rfl
  | cons r reports ih =>
    rw [answers_cons, answers_cons]
    cases hr : r.isNote with
    | false =>
      obtain ⟨hkept, hagree, hlast⟩ := hqp.offer hr
      rw [hkept, hagree.answers_eq hlast]
    | true =>
      have hagree : Agrees (q.offer r).2 (p.offer r).2 := by
        cases r with
        | note span message =>
          exact ((offerNote_keeps q span message).2.1.trans hqp).trans
            (offerNote_keeps p span message).2.1.symm
        | warning d | error d | flush => cases hr
      rw [List.takeWhile_cons_of_pos hr, List.length_cons]
      split
      · rw [map_drop_cons, map_drop_cons, ih hagree]
      · rfl

/-- Whatever is reported to a fresh queue, a report is kept if and only if the rules say so of what
had happened before; the queue holds what has been kept since the last flush, each diagnostic with
its notes; it counts its errors, of which there are no more than the limit allows; and a report of
its own severity is answered.  If it is refused, the diagnostics and the counts stay, and so does
every later answer but those on notes before the next warning, error or flush. -/
theorem After.follows (hq : After config h q) :
    (∀ (e : Entry) (before : History), e :: before <:+ h →
      (e.kept = true ↔ before.Keeps config e.report)) ∧
    q.diagnostics.toList = h.stored ∧
    q.errorCount = h.stored.countP Diagnostic.isError ∧
    q.warningCount = h.stored.countP Diagnostic.isWarning ∧
    q.size = q.errorCount + q.warningCount ∧
    (config.errorLimit ≠ 0 → q.errorCount ≤ config.errorLimit) ∧
    ∀ r, r.fits = true → ∃ kept q', q.take r = .ok (kept, q') ∧
      (kept = false → q'.diagnostics = q.diagnostics ∧ q'.errorCount = q.errorCount ∧
        ∀ later, (q'.answers later).map (·.drop (later.takeWhile Report.isNote).length) =
          (q.answers later).map (·.drop (later.takeWhile Report.isNote).length)) := by
  obtain ⟨herrors, hwarnings, hsize⟩ := hq.counts
  refine ⟨fun e before he => hq.rule he, hq.recalls.diagnostics_eq, herrors, hwarnings, hsize,
    hq.errorCount_le, fun r hr => ⟨_, _, take_eq_ok_iff.2 ⟨hr, rfl⟩, fun hkept => ?_⟩⟩
  obtain ⟨hdiagnostics, hagree⟩ := refused_keeps hkept
  exact ⟨hdiagnostics, hagree.errorCount_eq, hagree.answers_drop⟩

/-- The error for an expression that is nested too deeply is reported three times: the second
report is a repetition and so is the third, although a warning stands between them, and the note
on the second is lost. -/
theorem after_follows_repeated : ∃ q, After .standard
      [⟨.error (.tooDeeplyNested .unknown 4), false⟩, ⟨.warning (.warning .unusedValue), true⟩,
        ⟨.note .unknown "again", false⟩, ⟨.error (.tooDeeplyNested .unknown 4), false⟩,
        ⟨.note .unknown "here", true⟩, ⟨.error (.tooDeeplyNested .unknown 4), true⟩] q ∧
      q.diagnostics.toList =
        [(Diagnostic.tooDeeplyNested .unknown 4).withSecondary .unknown "here",
          .warning .unusedValue] ∧ q.errorCount = 1 := by
  have hempty : After .standard [] (fresh .standard) := .nil
  have hq := (((((hempty.cons (r := .error (.tooDeeplyNested .unknown 4)) rfl).cons
    (r := .note .unknown "here") rfl).cons (r := .error (.tooDeeplyNested .unknown 4)) rfl).cons
    (r := .note .unknown "again") rfl).cons (r := .warning (.warning .unusedValue)) rfl).cons
    (r := .error (.tooDeeplyNested .unknown 4)) rfl
  obtain ⟨-, hstored, herrors, -⟩ := hq.follows
  exact ⟨_, hq, hstored, herrors⟩

end Queue

end ExprTree
