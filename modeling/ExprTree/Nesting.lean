import ExprTree.Fault

/-!
# Nesting depth

Recursion over trees is counted, so that it ends on a tree that contains itself.

* `Nesting.enter` — one level deeper, unless the limit is reached.
* `Nesting.leave` — one level back, which must have been entered.
* `Nesting.room` — the number of levels that can still be entered.
-/

namespace ExprTree

/-- A depth of recursion and its limit. -/
structure Nesting where
  depth : Nat
  limit : Nat
  deriving DecidableEq, Repr

/-- A level of recursion was refused. -/
structure NestingExceeded where
  /-- The limit that was reached. -/
  limit : Nat
  deriving DecidableEq, Repr

/-- The sentence that explains a refused level. -/
def NestingExceeded.message (e : NestingExceeded) : String :=
  s!"nesting depth exceeded the limit of {e.limit}"

namespace Nesting

/-- The limit where none is given. -/
def standardLimit : Nat := 4096

/-- The largest limit: a depth is a 32-bit number. -/
def largestLimit : Nat := 0xFFFFFFFF

/-- Depth zero under a limit. -/
def ofLimit (limit : Nat) : Nesting := ⟨0, limit⟩

/-- The number of levels that can still be entered. -/
def room (n : Nesting) : Nat := n.limit - n.depth

/-- One level deeper. -/
def enter (n : Nesting) : Except NestingExceeded Nesting :=
  if n.depth < n.limit then .ok { n with depth := n.depth + 1 } else .error ⟨n.limit⟩

/-- One level back. -/
def leave (n : Nesting) : Except Fault Nesting :=
  if 0 < n.depth then .ok { n with depth := n.depth - 1 } else .error .unbalancedExit

theorem leave_of_enter {n m : Nesting} (h : n.enter = .ok m) : m.leave = .ok n := by
  unfold enter at h
  split at h
  · cases h; rfl
  · cases h

theorem limit_of_enter {n m : Nesting} (h : n.enter = .ok m) : m.limit = n.limit := by
  unfold enter at h
  split at h
  · cases h; rfl
  · cases h

theorem room_of_enter {n m : Nesting} (h : n.enter = .ok m) : n.room = m.room + 1 := by
  unfold enter at h
  split at h
  · cases h; simp only [room]; omega
  · cases h

theorem room_of_refused {n : Nesting} {e : NestingExceeded} (h : n.enter = .error e) :
    n.room = 0 ∧ e.limit = n.limit := by
  unfold enter at h
  split at h
  · cases h
  · cases h; exact ⟨by simp only [room]; omega, rfl⟩

end Nesting

end ExprTree
