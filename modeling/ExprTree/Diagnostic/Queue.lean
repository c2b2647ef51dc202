import ExprTree.Diagnostic.Basic

/-!
# The diagnostic queue

All diagnostics go into one queue, which keeps those that are worth showing.  A warning is kept
when its category is enabled.  An error is kept as long as there are fewer of them than the limit,
and when it does not repeat the error kept before it.  A note is kept when the diagnostic that it
explains was.

* `Queue.offerWarning`, `Queue.offerError`, `Queue.offerNote` — the rules of acceptance.
* `Queue.warn`, `Queue.error` — the same with a check of the severity.
* `Queue.flush` — all kept diagnostics in the order of their places, and a fresh queue.
-/

namespace ExprTree

/-- What a queue keeps. -/
structure QueueConfig where
  /-- The number of errors behind which no more are kept; zero for no limit. -/
  errorLimit : Nat
  /-- Is an error that repeats the one before it dropped? -/
  deduplicate : Bool
  /-- The categories whose warnings are kept. -/
  warnings : WarningSet
  deriving DecidableEq, Repr

namespace QueueConfig

/-- Ten errors without repetitions, and all warnings. -/
def standard : QueueConfig := ⟨10, true, .all⟩

/-- All errors and all warnings. -/
def unlimited : QueueConfig := ⟨0, false, .all⟩

/-- The standard limits, and the given warnings. -/
def withWarnings (warnings : WarningSet) : QueueConfig := { standard with warnings }

end QueueConfig

/-- What makes two errors the same: their place, and how their messages begin. -/
structure ErrorKey where
  span : Span
  opening : List Char
  deriving DecidableEq, Repr

/-- The number of characters of a message that tell errors apart. -/
def ErrorKey.openingLength : Nat := 30

/-- The key of a diagnostic; without a primary label its place is unknown. -/
def Diagnostic.errorKey (d : Diagnostic) : ErrorKey :=
  ⟨d.primarySpan?.getD .unknown, d.message.toList.take ErrorKey.openingLength⟩

/-- The offset by which a diagnostic is sorted; those without a place come last. -/
def Diagnostic.position (d : Diagnostic) : UInt32 :=
  match d.primarySpan? with
  | some span => span.start
  | none => Span.maxOffset

/-- The diagnostics of one analysis. -/
structure Queue where
  /-- The kept diagnostics in the order in which they were reported. -/
  diagnostics : Array Diagnostic
  /-- The number of kept errors. -/
  errorCount : Nat
  /-- The key of the last kept error. -/
  lastError : Option ErrorKey
  /-- Was the last warning or error kept? -/
  lastAccepted : Bool
  config : QueueConfig
  deriving DecidableEq, Repr

namespace Queue

/-- A queue without diagnostics. -/
def fresh (config : QueueConfig) : Queue := ⟨#[], 0, none, false, config⟩

/-! ### Counts -/

/-- The number of diagnostics. -/
def size (q : Queue) : Nat := q.diagnostics.size

/-- The number of warnings. -/
def warningCount (q : Queue) : Nat := (q.diagnostics.toList.filter Diagnostic.isWarning).length

/-- Has an error been kept? -/
def hasErrors (q : Queue) : Bool := decide (0 < q.errorCount)

/-- Are there as many errors as the limit allows? -/
def limitReached (q : Queue) : Bool :=
  decide (0 < q.config.errorLimit) && decide (q.config.errorLimit ≤ q.errorCount)

/-- Are warnings of a category kept? -/
def isEnabled (q : Queue) (c : Category) : Bool := q.config.warnings.has c

/-! ### Acceptance -/

/-- Would a warning with this code be kept? -/
def keepsWarning (q : Queue) (code : Code) : Bool := code.category?.any q.isEnabled

/-- Would this error be kept? -/
def keepsError (q : Queue) (d : Diagnostic) : Bool :=
  !q.limitReached && !(q.config.deduplicate && q.lastError == some d.errorKey)

/-- Report a warning. -/
def offerWarning (q : Queue) (d : Diagnostic) : Bool × Queue :=
  if q.keepsWarning d.code then
    (true, { q with diagnostics := q.diagnostics.push d, lastAccepted := true })
  else (false, { q with lastAccepted := false })

/-- Report an error. -/
def offerError (q : Queue) (d : Diagnostic) : Bool × Queue :=
  if q.keepsError d then
    (true,
      { q with
        diagnostics := q.diagnostics.push d
        errorCount := q.errorCount + 1
        lastError := some d.errorKey
        lastAccepted := true })
  else (false, { q with lastAccepted := false })

/-- Explain the last reported diagnostic by a secondary label, if it was kept. -/
def offerNote (q : Queue) (span : Span) (message : String) : Bool × Queue :=
  match q.lastAccepted, q.diagnostics.back? with
  | true, some last =>
    (true, { q with diagnostics := q.diagnostics.pop.push (last.withSecondary span message) })
  | _, _ => (false, q)

/-- Report a diagnostic as a warning, which it must be. -/
def warn (q : Queue) (d : Diagnostic) : Except Fault (Bool × Queue) :=
  if d.severity = .warning then .ok (q.offerWarning d) else .error .wrongSeverity

/-- Report a diagnostic as an error, which it must be. -/
def error (q : Queue) (d : Diagnostic) : Except Fault (Bool × Queue) :=
  if d.severity = .error then .ok (q.offerError d) else .error .wrongSeverity

/-- All diagnostics by their places, those of one place as they were reported, and the queue as it
was at the start. -/
def flush (q : Queue) : List Diagnostic × Queue :=
  (q.diagnostics.toList.mergeSort fun d e => decide (d.position ≤ e.position), fresh q.config)

end Queue

end ExprTree
