import ExprTree.Arena.Query
import ExprTree.Diagnostic.Queue
import ExprTree.Nesting

/-!
# Passes over a tree

A pass works on a context: the arena, the queue of diagnostics, the location that stands in for
nodes without one, the number of unevaluated operands around the current node, and the depth of
recursion.

* `Context` — the state of a pass.
* `Pass` — actions on a context.
* `Pass.query`, `Pass.edit` — reading and changing the arena.
* `Pass.when` — a pass that is run or not.
* `Pass.unevaluated` — a part inside an operand that is never evaluated.
* `Pass.nested` — a part one level deeper, refused at the nesting limit.
* `unroll`, `Pass.recursively` — recursion in which every level is entered by `Pass.nested`.
-/

namespace ExprTree

/-- The limits of an analysis. -/
structure Config where
  /-- The number of levels of recursion. -/
  maxDepth : Nat
  diagnostics : QueueConfig
  deriving DecidableEq, Repr

/-- The standard limits. -/
def Config.standard : Config := ⟨Nesting.standardLimit, .standard⟩

/-- The state of a pass. -/
structure Context where
  arena : Arena
  queue : Queue
  /-- Where the construct is that is being worked on. -/
  inputLocation : Span
  /-- The number of unevaluated operands around the current node.  It has no upper bound here, so it
  stands for a 32-bit counter only while no more than `2 ^ 32 - 1` operands are entered at once. -/
  unevaluatedDepth : Nat
  nesting : Nesting
  deriving DecidableEq, Repr

namespace Context

/-- The start of an analysis of an arena. -/
def ofArena (arena : Arena) (config : Config) : Context :=
  ⟨arena, .fresh config.diagnostics, .unknown, 0, .ofLimit config.maxDepth⟩

/-- The start of an analysis of a new arena. -/
def initial (config : Config) : Context := ofArena .initial config

/-- Is the current node inside an operand that is never evaluated? -/
def inUnevaluated (cx : Context) : Bool := decide (0 < cx.unevaluatedDepth)

/-- Report an error. -/
def reportError (cx : Context) (d : Diagnostic) : Context :=
  { cx with queue := (cx.queue.offerError d).2 }

end Context

/-- An action on a context. -/
abbrev Pass := Action Context

namespace Pass

variable {α : Type}

/-! ### The arena -/

/-- Ask about the arena. -/
@[inline] def query (question : Arena → Except Fault α) : Pass α :=
  Action.ask fun cx => question cx.arena

/-- Change the arena. -/
@[inline] def edit (change : Action Arena α) : Pass α := fun
  | ⟨arena, queue, inputLocation, unevaluatedDepth, nesting⟩ =>
    match change arena with
    | .ok r arena => .ok r ⟨arena, queue, inputLocation, unevaluatedDepth, nesting⟩
    | .error e arena => .error e ⟨arena, queue, inputLocation, unevaluatedDepth, nesting⟩

/-- Run a pass only if asked to. -/
@[inline] def when (asked : Bool) (body : Pass Unit) : Pass Unit := if asked then body else pure ()

/-- Where an expression is, or the input location when it has no location. -/
def location (expr : NodeId) : Pass Span :=
  Action.ask fun cx => cx.arena.locationOf expr cx.inputLocation

/-! ### Diagnostics -/

/-- Report an error. -/
def error (d : Diagnostic) : Pass Unit := modify (·.reportError d)

/-- Report a warning at a span, and say whether it was kept. -/
def warn (code : Code) (span : Span) (message : String) : Pass Bool := fun cx =>
  let d := ((Diagnostic.warning code).withMessage message).withLabel span ""
  let (accepted, queue) := cx.queue.offerWarning d
  .ok accepted { cx with queue }

/-- Explain the last diagnostic, and say whether the explanation was kept. -/
def note (span : Span) (message : String) : Pass Bool := fun cx =>
  let (accepted, queue) := cx.queue.offerNote span message
  .ok accepted { cx with queue }

/-! ### Entering and leaving -/

/-- Enter a level of recursion, and say whether there was room for it.  At the nesting limit the
error is reported at `span`, or at the input location when it is unknown. -/
def enter (span : Span) : Pass Bool := fun cx =>
  match cx.nesting.enter with
  | .ok inner => .ok true { cx with nesting := inner }
  | .error e =>
    .ok false (cx.reportError (.tooDeeplyNested (span.orElse cx.inputLocation) e.limit))

/-- Leave a level of recursion. -/
def leave : Pass Unit := fun cx =>
  match cx.nesting.leave with
  | .ok outer => .ok () { cx with nesting := outer }
  | .error e => .error e cx

/-- Enter an operand that is never evaluated.  The fault of a 32-bit counter at `2 ^ 32 - 1` such
operands is left out, unlike the one for leaving an operand that was not entered. -/
def enterUnevaluated : Pass Unit :=
  modify fun cx => { cx with unevaluatedDepth := cx.unevaluatedDepth + 1 }

/-- Leave an operand that is never evaluated. -/
def leaveUnevaluated : Pass Unit := fun cx =>
  if cx.unevaluatedDepth = 0 then .error .overflow cx
  else .ok () { cx with unevaluatedDepth := cx.unevaluatedDepth - 1 }

/-! ### Scopes

A scope is a part of a pass, or of an action on a larger state of which passes are a part. -/

variable {m : Type → Type} [Monad m] [MonadLiftT Pass m]

/-- Run a part inside an operand that is never evaluated.  The operand is left whether the part
ends in a fault or not. -/
@[inline] def unevaluated [MonadFinally m] (body : m α) : m α := do
  enterUnevaluated
  try body finally leaveUnevaluated

/-- Run a part one level deeper.  At the nesting limit the part does not run, and the answer is
`overflow`.  A fault leaves the depth where it arose. -/
@[inline] def nested (span : Span) (overflow : α) (body : m α) : m α := do
  if ← enter span then
    let r ← body
    leave
    return r
  else return overflow

end Pass

/-! ### Recursion -/

/-- A recursive computation, unrolled so often.  Where each step enters a level before it calls
itself, the last step, for which there is no room, is refused before it does. -/
def unroll {m : Type → Type} [MonadExcept Fault m] {α β : Type} (step : (α → m β) → α → m β) :
    Nat → α → m β
  | 0 => step fun _ => throw .endless
  | room + 1 => step (unroll step room)

/-- A recursive pass: `step` calls itself only inside `Pass.nested`, hence not more often than there
is room for levels. -/
def Pass.recursively {α β : Type} (step : (α → Pass β) → α → Pass β) (x : α) : Pass β := fun cx =>
  unroll step cx.nesting.room x cx

end ExprTree
