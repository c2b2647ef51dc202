import ExprTree.Fault

/-!
# Actions

An action works on a state and may end in a fault.  It is no transaction: what it has changed before
the fault stays changed, and whoever goes on after the fault goes on from there.

* `Action` — actions on a state.
* `Action.ask` — a question about the state.
-/

namespace ExprTree

/-- A computation that changes a state and may end in a fault; it has a last state either way. -/
abbrev Action (σ : Type) : Type → Type := EStateM Fault σ

namespace Action

variable {σ α : Type}

/-- Ask about the state, which stays as it is. -/
@[inline] def ask (question : σ → Except Fault α) : Action σ α := fun s =>
  match question s with
  | .ok answer => .ok answer s
  | .error e => .error e s

end Action

end ExprTree
