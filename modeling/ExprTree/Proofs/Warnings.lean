import ExprTree.Discard.Void
import ExprTree.Proofs.Wlp

/-!
# Laws of warnings

What warns about a discarded value is put together from questions, warnings and notes.  A relation
between passes that holds of these, and that parts hand on to what is put together from them, holds
of what warns at two places.  A property of passes is such a relation that looks at one side.

* `Pass.Composes` — relations that hold of questions, handed on from part to part.
* `Pass.Warns`, `Pass.Notes` — the same with warnings, and with notes.
* `Pass.Explains` — the same with both, down to `Pass.Explains.warnIgnored`.
* `Pass.quiet_explains` — warnings and notes change the queue of diagnostics and nothing else, so
  `Pass.quiet_warnIgnored` and the like.
-/

namespace ExprTree

namespace Pass

/-- A relation that holds of every question that does not look at the queue, and that parts hand
on. -/
structure Composes (J : ∀ {α : Type}, Pass α → Pass α → Prop) : Prop where
  ask : ∀ {α : Type} {q : Context → Except Fault α},
    (∀ (cx : Context) (queue : Queue), q { cx with queue } = q cx) →
      J (Action.ask q) (Action.ask q)
  bind : ∀ {α β : Type} {p p' : Pass α} {f f' : α → Pass β}, J p p' → (∀ r, J (f r) (f' r)) →
    J (p >>= f) (p' >>= f')

/-- The same for passes that warn with codes of `C`, in whatever words. -/
structure Warns (C : Code → Prop) (J : ∀ {α : Type}, Pass α → Pass α → Prop) : Prop
    extends Composes J where
  warn : ∀ {code : Code}, C code → ∀ (span : Span) (message message' : String),
    J (warn code span message) (warn code span message')

/-- The same for passes that explain what has been reported. -/
structure Notes (J : ∀ {α : Type}, Pass α → Pass α → Prop) : Prop extends Composes J where
  note : ∀ (span : Span) (message : String), J (note span message) (note span message)

/-- The same for passes that explain their warnings by notes. -/
structure Explains (C : Code → Prop) (J : ∀ {α : Type}, Pass α → Pass α → Prop) : Prop
    extends Warns C J, Notes J

variable {C : Code → Prop} {J : ∀ {α : Type}, Pass α → Pass α → Prop} {α β : Type}

/-! ### Putting passes together -/

namespace Composes

variable (h : Composes J)
include h

protected theorem pure (r : α) : J (pure r) (pure r) :=
  h.ask (q := fun _ => .ok r) fun _ _ => rfl

protected theorem query (q : Arena → Except Fault α) : J (query q) (query q) :=
  h.ask fun _ _ => rfl

protected theorem location (expr : NodeId) : J (location expr) (location expr) :=
  h.ask fun _ _ => rfl

protected theorem map {p p' : Pass α} (hp : J p p') (f : α → β) : J (f <$> p) (f <$> p') := by
  rw [map_eq_pure_bind, map_eq_pure_bind]
  exact h.bind hp fun r => h.pure (f r)

protected theorem discard {p p' : Pass α} (hp : J p p') : J (discard p) (discard p') := h.map hp _

protected theorem when {p p' : Pass Unit} (hp : J p p') (asked : Bool) :
    J (Pass.when asked p) (Pass.when asked p') := by
  unfold Pass.when
  split
  · exact hp
  · exact h.pure ()

end Composes

/-! ### Warnings -/

namespace Warns

variable (h : Warns C J) (site site' : DiscardSite)
include h

protected theorem warnVolatile (hC : ∀ code : Code, code.category? = some .inaccessible → C code)
    (loc : Span) (reference : Bool) (type : NodeId) :
    J (warnVolatile site loc reference type) (warnVolatile site' loc reference type) := by
  refine h.bind (h.query _) fun spelled => h.bind (h.query _) fun complete => ?_
  split
  · exact h.discard (h.warn (hC _ rfl) ..)
  split
  · exact h.discard (h.warn (hC _ rfl) ..)
  refine h.bind (h.query _) fun addressable => ?_
  split
  · exact h.discard (h.warn (hC _ rfl) ..)
  · exact h.pure _

/-- The value behind a pointer is as unused at the one place as at the other, unless only one of
them is a cast. -/
protected theorem warnUnusedValue (hC : C .unusedValue) (hsite : site = .cast ↔ site' = .cast)
    (loc : Span) (reference : Bool) (expr : NodeId) :
    J (warnUnusedValue site loc reference expr) (warnUnusedValue site' loc reference expr) := by
  have hasked : decide (site' ≠ .cast) = decide (site ≠ .cast) := by
    simp only [ne_eq, hsite]
  have hask : ∀ s : DiscardSite, warnUnusedValue s loc reference expr = (do
      let unevaluated ← Action.ask fun cx => .ok cx.inUnevaluated
      if s ≠ .cast && !reference && !unevaluated then
        if !(← query (·.suppresses expr (.single .noUnusedValueWarning))) then
          discard (Pass.warn .unusedValue loc DiscardSite.unusedValue)) := fun _ => rfl
  rw [hask, hask, hasked]
  refine h.bind (h.ask fun _ _ => rfl) fun unevaluated => ?_
  split
  · refine h.bind (h.query _) fun suppressed => ?_
    split
    · exact h.discard (h.warn hC ..)
    · exact h.pure _
  · exact h.pure _

protected theorem warnVariable (hC : ∀ code : Code, code.category? = some .inaccessible → C code)
    (name : Name) (type : NodeId) (loc : Span) :
    J (warnVariable name type loc site) (warnVariable name type loc site') := by
  refine h.bind (h.query _) fun volatile => ?_
  split
  · refine h.bind (h.query _) fun complete => ?_
    split
    · refine h.bind (h.query _) fun spelled => ?_
      have hask : ∀ s : DiscardSite, (do
          let var := (← get).arena.nameText name
          discard (Pass.warn .incompleteVariable loc (s.incompleteVariable var spelled)) :
            Pass Unit) = (do
          let var ← Action.ask fun cx => .ok (cx.arena.nameText name)
          discard (Pass.warn .incompleteVariable loc (s.incompleteVariable var spelled))) :=
        fun _ => rfl
      rw [hask, hask]
      exact h.bind (h.ask fun _ _ => rfl) fun _ => h.discard (h.warn (hC _ rfl) ..)
    · exact h.pure _
  · exact h.pure _

end Warns

/-! ### Notes -/

namespace Notes

variable (h : Notes J)
include h

protected theorem noteAt (id : NodeId) (message : String) :
    J (noteAt id message) (noteAt id message) :=
  h.bind (h.query _) fun _ => h.discard (h.note ..)

protected theorem noteFunction (function : Option NodeId) :
    J (noteFunction function) (noteFunction function) := by
  cases function with
  | none => exact h.pure ()
  | some function => exact h.bind (h.query _) fun _ => h.noteAt ..

protected theorem noteType (type : NodeId) (spelled : String) :
    J (noteType type spelled) (noteType type spelled) := by
  refine h.bind (h.query _) fun decl => ?_
  cases decl with
  | none => exact h.pure ()
  | some decl => exact h.noteAt ..

end Notes

namespace Explains

variable (h : Explains C J)
include h

protected theorem warnIgnored (hC : C .ignoredResult) {site site' : DiscardSite}
    (hsite : site = .cast ↔ site' = .cast) (expr : NodeId) :
    J (warnIgnored expr site) (warnIgnored expr site') := by
  have hasked : (site' != .cast) = (site != .cast) := by
    rw [Bool.eq_iff_iff]
    simp only [bne_iff_ne, ne_eq, hsite]
  refine h.bind (h.query _) fun call => h.bind (h.query _) fun kind => ?_
  split
  · refine h.bind (h.query _) fun result => ?_
    cases result with
    | none => exact h.pure ()
    | some result =>
      dsimp only
      rw [hasked]
      refine h.when (h.bind (h.query _) fun function => h.bind (h.location call) fun loc =>
        h.bind (h.query _) fun demand => ?_) _
      split
      · exact h.bind (h.query _) fun _ => h.bind (h.warn hC ..) fun _ => h.when (h.noteAt ..) _
      · exact h.bind (h.query _) fun _ => h.bind (h.warn hC ..) fun _ =>
          h.when (h.bind (h.noteFunction _) fun _ => h.noteType ..) _
      · exact h.pure ()
  · exact h.pure ()

end Explains

/-! ### Warnings change nothing -/

theorem quiet_explains : Explains (fun _ => True) fun {α} (p _ : Pass α) => Quiet p where
  ask _ _ := Action.wlp_ask.2 fun _ _ => rfl
  bind := Quiet.bind
  warn _ _ _ _ := quiet_warn
  note _ _ := quiet_note

theorem quiet_warnVolatile {site : DiscardSite} {loc : Span} {reference : Bool} {type : NodeId} :
    Quiet (warnVolatile site loc reference type) :=
  quiet_explains.warnVolatile site site (fun _ _ => trivial) loc reference type

theorem quiet_warnUnusedValue {site : DiscardSite} {loc : Span} {reference : Bool}
    {expr : NodeId} : Quiet (warnUnusedValue site loc reference expr) :=
  quiet_explains.warnUnusedValue site site trivial .rfl loc reference expr

theorem quiet_warnVariable {name : Name} {type : NodeId} {loc : Span} {site : DiscardSite} :
    Quiet (warnVariable name type loc site) :=
  quiet_explains.warnVariable site site (fun _ _ => trivial) name type loc

theorem quiet_warnIgnored {expr : NodeId} {site : DiscardSite} :
    Quiet (warnIgnored expr site) :=
  quiet_explains.warnIgnored trivial (Iff.refl (site = .cast)) expr

end Pass

end ExprTree
