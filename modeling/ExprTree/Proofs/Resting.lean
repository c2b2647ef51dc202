import ExprTree.Proofs.Coupling
import ExprTree.Proofs.UseRules

/-!
# Uses that change nothing

The use of a declaration, a call, or a dereference of a pointer or of a declared reference ends at
the node itself: no operand is exchanged, and nothing but reads is recorded.

* `Arena.Rests` — nodes whose use follows no operand but a declared reference.
* `Pass.classifyUse_rests`, `Pass.classifyDiscarded_rests` — their uses.
-/

namespace ExprTree

namespace Arena

/-- The use of a node follows none of its operands, unless that is a declared reference. -/
structure Rests (a : Arena) (n : Node) : Prop where
  component : ∀ object field, n.kind ≠ .componentRef object field
  comma : ∀ lhs rhs, n.kind ≠ .comma lhs rhs
  cond : ∀ first second third, n.kind ≠ .cond first second third
  reference : ∀ pointer, n.kind = .unary .deref pointer → a.isReference pointer = .ok true →
    ∃ m sort payload, a.find? pointer = some m ∧ m.kind = .decl sort payload
  transparent : ∀ op operand, n.kind = .unary op operand → op.isTransparent = false

variable {a b : Arena} {n : Node}

theorem Marked.sameButReads (h : a.Marked b) : a.SameButReads b := by
  induction h with
  | refl => rfl
  | mark _ _ ih => exact ih.trans (unread_change_eq Node.unread_markRead).symm

theorem Marked.evolves (h : a.Marked b) : a.Evolves b := by
  induction h with
  | refl => exact .refl a
  | mark _ hn ih => exact ih.trans (evolves_change hn (becomes_markRead _))

theorem Marked.find? (h : a.Marked b) {id : NodeId} (hn : a.find? id = some n) :
    ∃ m, b.find? id = some m ∧ m.unread = n.unread := h.sameButReads.find? hn

theorem Rests.marked (h : a.Rests n) (hab : a.Marked b) {m : Node} (hk : m.kind = n.kind) :
    b.Rests m where
  component object field := hk ▸ h.component object field
  comma lhs rhs := hk ▸ h.comma lhs rhs
  cond first second third := hk ▸ h.cond first second third
  reference pointer hm href := by
    have hsame := hab.sameButReads.eq (q := (·.isReference pointer)) (·.isReference_unread pointer)
    obtain ⟨p, sort, payload, hp, hpk⟩ := h.reference pointer (hk ▸ hm) (hsame.trans href)
    obtain ⟨p', hp', hpp⟩ := hab.find? hp
    exact ⟨p', sort, payload, hp', (congrArg Node.kind hpp :).trans hpk⟩
  transparent op operand hm := h.transparent op operand (hk ▸ hm)

theorem rests_decl {sort : DeclSort} {payload : Decl} (hk : n.kind = .decl sort payload) :
    a.Rests n := by
  constructor <;> rw [hk] <;> exact nofun

theorem rests_deref {pointer : NodeId} (hk : n.kind = .unary .deref pointer)
    (href : a.isReference pointer = .ok false) : a.Rests n where
  component _ _ h := by cases hk.symm.trans h
  comma _ _ h := by cases hk.symm.trans h
  cond _ _ _ h := by cases hk.symm.trans h
  reference p h htrue := by
    cases hk.symm.trans h
    cases href.symm.trans htrue
  transparent op operand h := by
    cases hk.symm.trans h
    rfl

/-- So does all that is no expression. -/
theorem rests_of_not_isExpression (h : n.kind.isExpression = false) : a.Rests n where
  component _ _ hk := by rw [hk] at h; cases h
  comma _ _ hk := by rw [hk] at h; cases h
  cond _ _ _ hk := by rw [hk] at h; cases h
  reference _ hk := by rw [hk] at h; cases h
  transparent _ _ hk := by rw [hk] at h; cases h

end Arena

theorem Node.wrapped?_of_not_isExpression {n : Node} (h : n.kind.isExpression = false) :
    n.wrapped? = none := by
  refine Option.eq_none_iff_forall_ne_some.2 fun operand hw => ?_
  rcases (Node.wrapped?_eq_some_iff.1 hw).2 with hk | hk <;> rw [hk] at h <;> cases h

namespace Pass

open ExprTree.Action

variable {cx : Context} {expr inner : NodeId} {n : Node} {mode : UseMode}

/-- The answer is the node itself or the error node, and at most reads have been recorded. -/
def Idles (a : Arena) (expr r : NodeId) (b : Arena) : Prop := (r = expr ∨ r = .error) ∧ a.Marked b

theorem classifyUse_rests (hn : cx.arena.find? expr = some n) (hrests : cx.arena.Rests n) :
    wlp (classifyUse expr mode) (fun r t => Idles cx.arena expr r t.arena) cx := by
  refine wlp_recursively_of
    (P := fun cx (p : NodeId × UseMode) => ∃ n, cx.arena.find? p.1 = some n ∧ cx.arena.Rests n)
    (Q := fun cx p r t => Idles cx.arena p.1 r t.arena) ?_ ⟨n, hn, hrests⟩
  rintro self hself ⟨expr, mode⟩ cx ⟨n, hn, hrests⟩
  refine wlp_classifyUseStep ⟨.inl rfl, .refl⟩ ?_ fun t span ht => ?_
  · unfold rejectBuiltin
    simp only [wlp_bind, wlp_query, wlp_location, Pass.error, wlp_modify, wlp_pure]
    exact fun _ _ _ _ _ _ => ⟨.inr rfl, .refl⟩
  refine wlp_nested (fun level => wlp_classifyNode fun m hm => ?_) ⟨.inr rfl, ht⟩
  obtain ⟨n', hn', hk⟩ := ht.kind_eq hm
  cases hn.symm.trans hn'
  have hrests := hrests.marked ht hk
  refine
    { component := fun _ _ h => absurd h (hrests.component _ _)
      comma := fun _ _ _ h => absurd h (hrests.comma _ _)
      cond := fun _ _ _ h => absurd h (hrests.cond _ _ _)
      reference := fun pointer h href => ?_
      wrapper := fun _ h _ => absurd (hrests.transparent _ _ h) (by decide)
      transparent := fun _ _ h hop _ =>
        absurd (hop.symm.trans (hrests.transparent _ _ h)) (by decide)
      keep := fun _ _ => ⟨.inl rfl, ht⟩ }
  -- a declared reference is its own value
  obtain ⟨p, sort, payload, hp, hpk⟩ := hrests.reference pointer h href
  refine wlp_classifyReference ((hself (pointer, _) { t with nesting := level }
    ⟨p, hp, Arena.rests_decl hpk⟩).mono ?_)
  rintro r u ⟨hr, hu⟩
  exact ⟨fun _ => ⟨.inr rfl, ht.trans hu⟩, fun _ _ => ⟨.inl rfl, ht.trans hu⟩,
    fun hne hne' => absurd (hr.resolve_right hne) hne'⟩

theorem discardedRvalueUse_rests (hn : cx.arena.find? expr = some n)
    (hrests : cx.arena.Rests n) :
    wlp (discardedRvalueUse expr) (fun r t => Idles cx.arena expr r t.arena) cx := by
  unfold discardedRvalueUse rvalueUseAt
  rw [wlp_bind, wlp_get]
  exact classifyUse_rests hn hrests

/-- The same where the value is discarded, behind a location wrapper or not. -/
theorem classifyDiscarded_rests (hs : cx.arena.stripWrapper expr = .ok inner)
    (hn : cx.arena.find? inner = some n) (hrests : cx.arena.Rests n) :
    wlp (classifyDiscarded expr) (fun r t => Idles cx.arena inner r t.arena) cx := by
  refine wlp_recursively_of_step fun self => ?_
  unfold classifyDiscardedStep
  rw [wlp_bind, wlp_query, hs]
  rintro _ ⟨⟩
  rw [wlp_bind, wlp_query]
  intro span _
  refine wlp_nested (fun level => wlp_classifyDiscardedNode fun m hm => ?_) ⟨.inr rfl, .refl⟩
  cases hn.symm.trans hm
  exact
    { cond := fun _ _ _ h => absurd h (hrests.cond _ _ _)
      comma := fun _ _ h => absurd h (hrests.comma _ _)
      use := fun _ _ => discardedRvalueUse_rests (n := n) hn hrests
      keep := fun _ _ => ⟨.inl rfl, .refl⟩ }

/-- What is no expression answers for itself. -/
theorem classifyDiscarded_of_not_isExpression (hn : cx.arena.find? expr = some n)
    (h : n.kind.isExpression = false) :
    wlp (classifyDiscarded expr) (fun r t => Idles cx.arena expr r t.arena) cx := by
  have hs : cx.arena.stripWrapper expr = .ok expr := by
    rw [Arena.stripWrapper, Arena.map_node_of_find? hn, Node.wrapped?_of_not_isExpression h]
    rfl
  exact classifyDiscarded_rests hs hn (Arena.rests_of_not_isExpression h)

end Pass

end ExprTree
