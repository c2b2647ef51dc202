import Mathlib.Order.Bounds.Basic
import ExprTree.Span

/-!
# Merging spans

Merging is the join of an order in which the unknown span lies below all others.  The unknown span
is a pair of offsets like any other, so that this depends on what the first start and the last stop
of two known spans can be: never both the largest offset.

* `Span.Ordered` — a span that does not stop before it starts, so that it has a length
  (`Span.exists_length_iff`).
* `Span.Covers` — no bound of the other span is outside.
* `Span.merge_ne_unknown` — known spans have a known merge.
* the order of spans, with `Span.merge_le_iff`; for spans that hold a byte it is the inclusion of
  their offsets (`Span.merge_le_iff_forall_contains`).
* `Span.merge_join` — the laws of merging.
-/

namespace ExprTree

namespace Span

variable {s t u : Span} {o : UInt32}

/-! ### Bounds -/

attribute [ext] Span

theorem maxOffset_le_iff : maxOffset ≤ o ↔ o = maxOffset := by
  constructor
  · intro h
    refine UInt32.le_antisymm ?_ h
    exact UInt32.le_iff_toNat_le.2 (Nat.le_of_lt_succ o.toNat_lt)
  · rintro rfl
    exact UInt32.le_refl _

theorem eq_unknown (hstart : s.start = maxOffset) (hstop : s.stop = maxOffset) : s = unknown :=
  Span.ext hstart hstop

/-- A span that does not stop before it starts. -/
def Ordered (s : Span) : Prop := s.start ≤ s.stop

instance (s : Span) : Decidable s.Ordered := inferInstanceAs (Decidable (s.start ≤ s.stop))

/-- The bounds of one span are not outside those of another. -/
def Covers (t s : Span) : Prop := t.start ≤ s.start ∧ s.stop ≤ t.stop

theorem ordered_unknown : unknown.Ordered := UInt32.le_refl _

/-- A span has a length exactly if it does not stop before it starts. -/
theorem exists_length_iff : (∃ n, s.length = .ok n) ↔ s.Ordered := by
  by_cases hs : s = unknown
  · subst hs
    exact iff_of_true ⟨0, by simp [length]⟩ ordered_unknown
  · by_cases hstop : s.stop < s.start <;> simp [length, hs, hstop, Ordered, ← UInt32.not_lt]

namespace Covers

theorem refl (s : Span) : s.Covers s := ⟨UInt32.le_refl _, UInt32.le_refl _⟩

theorem trans (htu : u.Covers t) (hst : t.Covers s) : u.Covers s :=
  ⟨UInt32.le_trans htu.1 hst.1, UInt32.le_trans hst.2 htu.2⟩

theorem antisymm (hst : t.Covers s) (hts : s.Covers t) : s = t :=
  Span.ext (UInt32.le_antisymm hts.1 hst.1) (UInt32.le_antisymm hst.2 hts.2)

theorem ordered (h : t.Covers s) (hs : s.Ordered) : t.Ordered :=
  UInt32.le_trans h.1 (UInt32.le_trans hs h.2)

end Covers

/-- An ordered span that is known is covered by known spans only. -/
theorem Ordered.ne_unknown_of_covers (hs : s.Ordered) (hknown : s ≠ unknown) (h : t.Covers s) :
    t ≠ unknown := by
  rintro rfl
  have hstart : s.start = maxOffset := maxOffset_le_iff.1 h.1
  have hstop : s.stop = maxOffset := maxOffset_le_iff.1 (hstart ▸ hs)
  exact hknown (eq_unknown hstart hstop)

/-! ### Known spans -/

section Known

variable (hs : s ≠ unknown) (ht : t ≠ unknown)
include hs ht

theorem merge_of_ne :
    s.merge t = ⟨if s.start ≤ t.start then s.start else t.start,
      if s.stop ≤ t.stop then t.stop else s.stop⟩ := by
  simp [merge, hs, ht]

theorem le_start_merge_iff : o ≤ (s.merge t).start ↔ o ≤ s.start ∧ o ≤ t.start := by
  rw [merge_of_ne hs ht]
  dsimp only
  split <;> grind

theorem stop_merge_le_iff : (s.merge t).stop ≤ o ↔ s.stop ≤ o ∧ t.stop ≤ o := by
  rw [merge_of_ne hs ht]
  dsimp only
  split <;> grind

theorem stop_merge : (s.merge t).stop = s.stop ∨ (s.merge t).stop = t.stop := by
  rw [merge_of_ne hs ht]
  dsimp only
  split
  · exact .inr rfl
  · exact .inl rfl

theorem covers_merge_iff : u.Covers (s.merge t) ↔ u.Covers s ∧ u.Covers t := by
  simp only [Covers, le_start_merge_iff hs ht, stop_merge_le_iff hs ht, and_and_and_comm]

/-- If the first start is the largest offset, both starts are; and the last stop is the stop of a
known span, which then is another offset. -/
theorem merge_ne_unknown : s.merge t ≠ unknown := by
  intro h
  have hstart : maxOffset ≤ (s.merge t).start := by rw [h]; exact UInt32.le_refl _
  have hstop : (s.merge t).stop = maxOffset := by rw [h]; rfl
  obtain ⟨hsStart, htStart⟩ := (le_start_merge_iff hs ht).1 hstart
  rcases stop_merge hs ht with hlast | hlast
  · exact hs (eq_unknown (maxOffset_le_iff.1 hsStart) (hlast.symm.trans hstop))
  · exact ht (eq_unknown (maxOffset_le_iff.1 htStart) (hlast.symm.trans hstop))

end Known

/-! ### The order of spans -/

/-- The unknown span lies below all others; a known span lies below the known spans that cover it.
An inverted span can have bounds within those of the unknown span, and still does not lie below
it. -/
instance : PartialOrder Span where
  le s t := s = unknown ∨ t ≠ unknown ∧ t.Covers s
  le_refl s := or_iff_not_imp_left.2 fun hs => ⟨hs, .refl s⟩
  le_trans s t u hst htu := by
    refine or_iff_not_imp_left.2 fun hs => ?_
    obtain ⟨ht, hcovers⟩ := hst.resolve_left hs
    obtain ⟨hu, hcovers'⟩ := htu.resolve_left ht
    exact ⟨hu, hcovers'.trans hcovers⟩
  le_antisymm s t hst hts := by
    rcases hst with rfl | ⟨ht, hst⟩
    · rcases hts with rfl | ⟨hne, -⟩
      · rfl
      · exact absurd rfl hne
    · exact hst.antisymm (hts.resolve_left ht).2

theorem unknown_le (s : Span) : unknown ≤ s := .inl rfl

theorem le_iff_of_ne (hs : s ≠ unknown) : s ≤ t ↔ t ≠ unknown ∧ t.Covers s := or_iff_right hs

/-- Between ordered known spans the order is that of the bounds. -/
theorem Ordered.le_iff_covers (hs : s.Ordered) (hknown : s ≠ unknown) : s ≤ t ↔ t.Covers s :=
  (le_iff_of_ne hknown).trans (and_iff_right_of_imp (hs.ne_unknown_of_covers hknown))

theorem merge_le_iff : s.merge t ≤ u ↔ s ≤ u ∧ t ≤ u := by
  by_cases hs : s = unknown
  · subst hs
    rw [unknown_merge, and_iff_right (unknown_le u)]
  by_cases ht : t = unknown
  · subst ht
    rw [merge_unknown, and_iff_left (unknown_le u)]
  rw [le_iff_of_ne (merge_ne_unknown hs ht), le_iff_of_ne hs, le_iff_of_ne ht,
    covers_merge_iff hs ht, and_and_left]

instance : SemilatticeSup Span where
  sup := merge
  le_sup_left _ _ := (merge_le_iff.1 (le_refl _)).1
  le_sup_right _ _ := (merge_le_iff.1 (le_refl _)).2
  sup_le _ _ _ hs ht := merge_le_iff.2 ⟨hs, ht⟩

instance : OrderBot Span where
  bot := unknown
  bot_le := unknown_le

theorem Ordered.merge (hs : s.Ordered) (ht : t.Ordered) : (s.merge t).Ordered := by
  by_cases hknown : s = unknown
  · rwa [hknown, unknown_merge]
  · obtain ⟨-, hcovers⟩ := (le_iff_of_ne hknown).1 (le_sup_left : s ≤ s ⊔ t)
    exact hcovers.ordered hs

/-- Merging spans that have a length gives one that has a length. -/
theorem exists_length_merge (hs : ∃ n, s.length = .ok n) (ht : ∃ n, t.length = .ok n) :
    ∃ n, (s.merge t).length = .ok n :=
  exists_length_iff.2 ((exists_length_iff.1 hs).merge (exists_length_iff.1 ht))

/-! ### Offsets -/

theorem contains_unknown (o : UInt32) : unknown.contains o = false := rfl

/-- The unknown span is no exception: no offset is from its start on and before its stop. -/
theorem contains_iff : s.contains o = true ↔ s.start ≤ o ∧ o < s.stop := by
  by_cases hs : s = unknown
  · subst hs
    rw [contains_unknown]
    exact iff_of_false Bool.false_ne_true fun h => UInt32.not_lt.2 h.1 h.2
  · simp [contains, isUnknown, hs]

theorem contains_of_le (h : s ≤ t) (ho : s.contains o = true) : t.contains o = true := by
  rcases h with rfl | ⟨-, hcovers⟩
  · exact absurd ho Bool.false_ne_true
  · obtain ⟨hstart, hstop⟩ := contains_iff.1 ho
    exact contains_iff.2
      ⟨UInt32.le_trans hcovers.1 hstart, UInt32.lt_of_lt_of_le hstop hcovers.2⟩

/-- A span that holds a byte lies below exactly the spans that hold all its bytes. -/
theorem le_iff_forall_contains (hs : s.start < s.stop) :
    s ≤ t ↔ ∀ o, s.contains o = true → t.contains o = true := by
  refine ⟨fun h o ho => contains_of_le h ho, fun h => ?_⟩
  have hknown : s ≠ unknown := by
    rintro rfl
    exact UInt32.lt_irrefl _ hs
  obtain ⟨hstart, hwithin⟩ := contains_iff.1 (h s.start (contains_iff.2 ⟨UInt32.le_refl _, hs⟩))
  refine (Ordered.le_iff_covers (UInt32.le_of_lt hs) hknown).2 ⟨hstart, ?_⟩
  refine UInt32.not_lt.1 fun hstop => ?_
  -- the stop of `t` would be an offset of `s`
  have hlast := h t.stop (contains_iff.2 ⟨UInt32.le_of_lt hwithin, hstop⟩)
  exact absurd (contains_iff.1 hlast).2 (UInt32.lt_irrefl _)

/-- The merge of two spans that hold a byte is the least span that holds the bytes of both. -/
theorem merge_le_iff_forall_contains (hs : s.start < s.stop) (ht : t.start < t.stop) :
    s.merge t ≤ u ↔ ∀ o, s.contains o = true ∨ t.contains o = true → u.contains o = true := by
  simp only [merge_le_iff, le_iff_forall_contains hs, le_iff_forall_contains ht, or_imp, forall_and]

/-! ### The laws -/

/-- For all spans, inverted ones and those that reach to the largest offset included, merging is
the join of the order of spans: it is associative, commutative and idempotent, and the unknown span
is its unit.  The merge of known spans is known; it holds all offsets that one of them holds.  Where
neither of two known spans stops before it starts, the merge does not either, and it is the smallest
span, by its bounds, that covers both. -/
theorem merge_join (s t u : Span) :
    IsLUB {s, t} (s.merge t) ∧
    (s.merge t).merge u = s.merge (t.merge u) ∧
    s.merge t = t.merge s ∧
    s.merge s = s ∧
    unknown.merge s = s ∧ s.merge unknown = s ∧
    (∀ o, s.contains o = true ∨ t.contains o = true → (s.merge t).contains o = true) ∧
    (s ≠ unknown → t ≠ unknown →
      s.merge t ≠ unknown ∧
      (s.Ordered → t.Ordered →
        (s.merge t).Ordered ∧ (s.merge t).Covers s ∧ (s.merge t).Covers t ∧
          ∀ v : Span, v.Covers s → v.Covers t → v.Covers (s.merge t))) := by
  refine ⟨isLUB_pair, sup_assoc s t u, sup_comm s t, sup_idem s, unknown_merge s, merge_unknown s,
    fun o ho => ?_, fun hs ht => ⟨merge_ne_unknown hs ht, fun hsOrdered htOrdered => ?_⟩⟩
  · rcases ho with ho | ho
    · exact contains_of_le (le_sup_left : s ≤ s ⊔ t) ho
    · exact contains_of_le (le_sup_right : t ≤ s ⊔ t) ho
  · obtain ⟨hcovers, hcovers'⟩ := (covers_merge_iff hs ht).1 (.refl (s.merge t))
    exact ⟨hsOrdered.merge htOrdered, hcovers, hcovers',
      fun v hv hv' => (covers_merge_iff hs ht).2 ⟨hv, hv'⟩⟩

/-- An inverted span that starts at the largest offset with a span that stops there, and an ordered
pair up to the largest offset. -/
theorem merge_join_largest :
    (Span.mk maxOffset 3).merge ⟨5, maxOffset⟩ = ⟨5, maxOffset⟩ ∧
      (Span.mk maxOffset 3).merge ⟨5, maxOffset⟩ ≠ unknown ∧
      (Span.mk 7 9).Ordered ∧ (Span.mk 8 maxOffset).Ordered ∧
      ∀ v : Span, v.Covers ⟨7, 9⟩ → v.Covers ⟨8, maxOffset⟩ → v.Covers ⟨7, maxOffset⟩ := by
  have hleft : (Span.mk 7 9).Ordered := by decide
  have hright : (Span.mk 8 maxOffset).Ordered := by decide
  have hinverted := (merge_join ⟨maxOffset, 3⟩ ⟨5, maxOffset⟩ unknown).2.2.2.2.2.2.2
  have hordered := (merge_join ⟨7, 9⟩ ⟨8, maxOffset⟩ unknown).2.2.2.2.2.2.2
  exact ⟨by decide, (hinverted (by decide) (by decide)).1, hleft, hright,
    ((hordered (by decide) (by decide)).2 hleft hright).2.2.2⟩

end Span

end ExprTree
