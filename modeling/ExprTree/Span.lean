import ExprTree.Fault

/-!
# Source spans

A span is a half-open range of byte offsets into a source file.  The range whose two ends are
both the largest offset is set aside as the *unknown* span: it belongs to nodes that were not
written by anyone, and consumers put the ambient location in its place (`Span.orElse`).

* `Span.length` — the number of bytes, which an inverted span does not have.
* `Span.contains` — membership of an offset.
* `Span.merge` — the join of two spans, with the unknown span as its unit.
-/

namespace ExprTree

/-- A range of byte offsets, `start` included and `stop` excluded. -/
structure Span where
  /-- Offset of the first byte. -/
  start : UInt32
  /-- Offset behind the last byte. -/
  stop : UInt32
  deriving DecidableEq, Repr

namespace Span

/-- The largest offset. -/
def maxOffset : UInt32 := 0xFFFFFFFF

/-- No source position. -/
def unknown : Span := ⟨maxOffset, maxOffset⟩

/-- The empty span at an offset. -/
def point (offset : UInt32) : Span := ⟨offset, offset⟩

/-- Is this the span without a position? -/
def isUnknown (s : Span) : Bool := s == unknown

/-- This span, or `fallback` where this one is unknown. -/
def orElse (s fallback : Span) : Span :=
  if s.isUnknown then fallback else s

/-- The number of bytes in a span.  An unknown span has none; the length of an inverted span is
not a word. -/
def length (s : Span) : Except Fault UInt32 :=
  if s.isUnknown then .ok 0
  else if s.stop < s.start then .error .overflow
  else .ok (s.stop - s.start)

/-- Does a span hold no byte?  Answered exactly where `length` is. -/
def isEmpty (s : Span) : Except Fault Bool :=
  s.length.map (· == 0)

/-- Does an offset lie in a span? -/
def contains (s : Span) (offset : UInt32) : Bool :=
  !s.isUnknown && decide (s.start ≤ offset) && decide (offset < s.stop)

/-- The span from the first start to the last stop of two spans; an unknown side yields the
other one. -/
def merge (s t : Span) : Span :=
  if s.isUnknown then t
  else if t.isUnknown then s
  else
    { start := if s.start ≤ t.start then s.start else t.start
      stop := if s.stop ≤ t.stop then t.stop else s.stop }

/-- A span as it stands in diagnostics. -/
def render (s : Span) : String :=
  if s.isUnknown then "<unknown>" else s!"{s.start.toNat}..{s.stop.toNat}"

/-! ### Spans of arbitrary bounds -/

/-- Why a pair of bounds is no span. -/
inductive BoundError
  /-- The start is no 32-bit offset. -/
  | startTooLarge (start : Nat)
  /-- The start is an offset, but the stop is none. -/
  | stopTooLarge (stop : Nat)
  deriving DecidableEq, Repr

/-- A number in upper-case hexadecimal digits. -/
def hexadecimal (n : Nat) : String :=
  String.ofList ((Nat.toDigits 16 n).map Char.toUpper)

/-- The sentence that explains a bound error. -/
def BoundError.message (e : BoundError) : String :=
  let limit := hexadecimal maxOffset.toNat
  let sentence (side : String) (value : Nat) : String :=
    s!"span {side} {value} (0x{hexadecimal value}) exceeds u32::MAX (0x{limit})"
  match e with
  | .startTooLarge start => sentence "start" start
  | .stopTooLarge stop => sentence "end" stop

/-- The span with the given bounds, when both are offsets. -/
def ofBounds (start stop : Nat) : Except BoundError Span :=
  if maxOffset.toNat < start then .error (.startTooLarge start)
  else if maxOffset.toNat < stop then .error (.stopTooLarge stop)
  else .ok ⟨UInt32.ofNat start, UInt32.ofNat stop⟩

/-! ### First facts -/

@[simp] theorem isUnknown_iff {s : Span} : s.isUnknown = true ↔ s = unknown := by
  simp [isUnknown]

@[simp] theorem unknown_orElse (s : Span) : unknown.orElse s = s := by
  simp [orElse]

theorem orElse_of_ne {s : Span} (h : s ≠ unknown) (t : Span) : s.orElse t = s := by
  simp [orElse, h]

@[simp] theorem unknown_merge (s : Span) : unknown.merge s = s := by
  simp [merge]

@[simp] theorem merge_unknown (s : Span) : s.merge unknown = s := by
  by_cases h : s = unknown <;> simp [merge, h]

end Span

end ExprTree
