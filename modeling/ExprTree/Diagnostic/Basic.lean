import ExprTree.Span
import ExprTree.Diagnostic.Code

/-!
# Diagnostics

A diagnostic has a code, a severity, a message, labels that point at spans, and notes that point
nowhere.  Its place in a listing is the span of its first primary label.

* `Diagnostic` — with the builders `withMessage`, `withLabel`, `withSecondary`, `withNote`.
* `Diagnostic.primarySpan?` — where the diagnostic is.
* `Diagnostic.render` — the text of a diagnostic.
-/

namespace ExprTree

/-- How serious a diagnostic is. -/
inductive Severity
  | error
  | warning
  | note
  deriving DecidableEq, Repr

/-- The word for a severity. -/
def Severity.text : Severity → String
  | .error => "error"
  | .warning => "warning"
  | .note => "note"

/-- A span with something to say about it. -/
structure Label where
  span : Span
  message : String
  /-- Is this where the diagnostic is? -/
  primary : Bool
  deriving DecidableEq, Repr

/-- A reported problem. -/
structure Diagnostic where
  code : Code
  severity : Severity
  message : String
  /-- Labels in the order in which they were attached. -/
  labels : List Label
  /-- Notes in the order in which they were attached. -/
  notes : List String
  deriving DecidableEq, Repr

namespace Diagnostic

/-- An error without a text. -/
def error (code : Code) : Diagnostic := ⟨code, .error, "", [], []⟩

/-- A warning without a text. -/
def warning (code : Code) : Diagnostic := ⟨code, .warning, "", [], []⟩

/-- Set the message. -/
def withMessage (d : Diagnostic) (message : String) : Diagnostic := { d with message }

/-- Attach a label where the diagnostic is. -/
def withLabel (d : Diagnostic) (span : Span) (message : String) : Diagnostic :=
  { d with labels := d.labels ++ [⟨span, message, true⟩] }

/-- Attach a label for what the diagnostic has to do with. -/
def withSecondary (d : Diagnostic) (span : Span) (message : String) : Diagnostic :=
  { d with labels := d.labels ++ [⟨span, message, false⟩] }

/-- Attach a note. -/
def withNote (d : Diagnostic) (note : String) : Diagnostic := { d with notes := d.notes ++ [note] }

/-- Where the diagnostic is: the span of its first primary label. -/
def primarySpan? (d : Diagnostic) : Option Span := (d.labels.find? (·.primary)).map Label.span

/-- The labels that are not primary. -/
def secondaryLabels (d : Diagnostic) : List Label := d.labels.filter (!·.primary)

/-- Is this an error? -/
def isError (d : Diagnostic) : Bool := d.severity == .error

/-- Is this a warning? -/
def isWarning (d : Diagnostic) : Bool := d.severity == .warning

/-- A label on a line of its own. -/
def renderLabel (l : Label) : String :=
  let marker := if l.primary then "-->" else "   "
  s!"\n  {marker} {l.span.render}: {l.message}"

/-- A note on a line of its own. -/
def renderNote (note : String) : String := s!"\n  = note: {note}"

/-- A diagnostic on a first line, followed by its labels and then its notes. -/
def render (d : Diagnostic) : String :=
  s!"{d.severity.text} [{d.code.text}]: {d.message}" ++
    String.join (d.labels.map renderLabel) ++ String.join (d.notes.map renderNote)

/-- The error for a builtin function that is not called. -/
def builtinNotCalled (span : Span) (name : String) : Diagnostic :=
  ((error .uncalledBuiltin).withMessage s!"built-in function `{name}` must be directly called")
    |>.withLabel span "built-in used here"

/-- The error for an expression nested deeper than a limit. -/
def tooDeeplyNested (span : Span) (limit : Nat) : Diagnostic :=
  ((error .tooDeep).withMessage "expression too deeply nested")
    |>.withLabel span "nesting limit reached here"
    |>.withNote s!"the nesting limit is {limit}"

end Diagnostic

end ExprTree
