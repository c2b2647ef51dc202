import ExprTree.Proofs.Balance
import ExprTree.Proofs.WalkPreorder

/-!
# Walks that find room

A walk that does not know where it has been is refused a level at the end of every path that is too
long for it, and then returns the error node.  One that returns nothing has therefore found room for
every path down from its root: it has met no cycle, and no handle that leads out of the arena.

* `Walk.wlp_nested`, `Walk.wlp_child` — the scopes of a walk.
* `Walk.Goes` — walks of children that do what a course says if they return nothing.
* `Walk.Course.goes_node` — so does then the walk of the children of a node.
* `Walk.room_within` — a walk that returns nothing has made the calls of a preorder, and has found
  room for every path.
-/

namespace ExprTree

namespace Walk

open ExprTree.Action

section Scopes

variable {σ α : Type} {s : WalkState σ} {Q : α → WalkState σ → Prop}

theorem wlp_lift {p : Pass α} :
    wlp (liftM p) Q s ↔ wlp p (fun r cx => Q r { s with context := cx }) s.context :=
  Action.wlp_lift

theorem wlp_query {question : Arena → Except Fault α} :
    wlp (liftM (Pass.query question)) Q s ↔ ∀ r, question s.context.arena = .ok r → Q r s := by
  rw [wlp_lift, Pass.wlp_query]

/-- A part of a walk that runs a level deeper, if there is room for one. -/
theorem wlp_nested {span : Span} {overflow : α} {body : Walk σ α}
    (hbody : ∀ inner, s.context.nesting.enter = .ok inner → wlp body
      (fun r t => ∀ outer, t.context.nesting.leave = .ok outer →
        Q r { t with context := { t.context with nesting := outer } })
      { s with context := { s.context with nesting := inner } })
    (hover : ∀ cx, Q overflow { s with context := cx }) :
    wlp (Pass.nested span overflow body) Q s := by
  rw [nested_eq, wlp_bind, wlp_lift, Pass.wlp_enter]
  refine ⟨fun inner hinner => ?_, fun _ _ => wlp_pure.2 (hover _)⟩
  rw [if_pos rfl, wlp_bind]
  refine (hbody inner hinner).mono fun r t hr => ?_
  rw [wlp_bind, wlp_lift, Pass.wlp_leave]
  exact fun outer houter => wlp_pure.2 (hr outer houter)

theorem wlp_unevaluated {body : Walk σ α}
    (h : wlp body (fun r t => Q r { t with context :=
        { t.context with unevaluatedDepth := t.context.unevaluatedDepth - 1 } })
      { s with context :=
        { s.context with unevaluatedDepth := s.context.unevaluatedDepth + 1 } }) :
    wlp (Pass.unevaluated body) Q s := by
  intro r t hr
  rw [unevaluated_eq] at hr
  refine wlp_tryFinally (h.mono fun r t hQ => ?_) r t hr
  rw [wlp_lift, Pass.wlp_leaveUnevaluated]
  exact fun _ => hQ

end Scopes

variable {σ : Type} {T : List Child → WalkState σ → WalkState σ → Prop} {s t : WalkState σ}
  {self : NodeId → Walk σ (Option NodeId)} {cs : List Child}

theorem wlp_child {c : Child} {R : WalkState σ → Prop}
    (hR : ∀ t depth, R t → R { t with context := { t.context with unevaluatedDepth := depth } })
    (h : wlp (self c.node)
      (fun r t => r = none → (inside s c).context.SamePlace t.context ∧ R t) (inside s c)) :
    wlp (child self c) (fun r t => r = none → s.context.SamePlace t.context ∧ R t) s := by
  obtain ⟨id, unevaluated⟩ := c
  cases unevaluated with
  | false => exact h
  | true =>
    refine wlp_unevaluated (h.mono fun r t hr hnone => ?_)
    obtain ⟨hplace, hRt⟩ := hr hnone
    refine ⟨⟨hplace.arena_eq, hplace.nesting_eq, ?_⟩, hR t _ hRt⟩
    show t.context.unevaluatedDepth - 1 = _
    rw [hplace.depth_eq]
    rfl

/-! ### Children -/

/-- A walk does what the course says if it returns nothing. -/
def Goes (T : List Child → WalkState σ → WalkState σ → Prop) (p : Walk σ (Option NodeId))
    (cs : List Child) (s : WalkState σ) : Prop :=
  wlp p (fun r t => r = none → T cs s t) s

/-- Every child is walked as the course says, wherever the walks before it have led. -/
def Steps (T : List Child → WalkState σ → WalkState σ → Prop)
    (self : NodeId → Walk σ (Option NodeId)) (s : WalkState σ) : Prop :=
  ∀ xs t c, T xs s t → Goes T (child self c) [c] t

theorem Course.steps_of (hT : Course T) {xs : List Child} (ht : T xs s t) (h : Steps T self s) :
    Steps T self t := fun _ u c hu => h _ u c (hT.append ht hu)

theorem Course.goes_firstOf (hT : Course T) (h : Steps T self s) :
    Goes T (Walk.firstOf (child self) cs) cs s := by
  induction cs generalizing s with
  | nil => exact wlp_pure.2 fun _ => hT.nil s
  | cons c cs ih =>
    refine wlp_bind.2 ((h [] s c (hT.nil s)).mono fun found t ht => ?_)
    cases found with
    | some found => exact wlp_pure.2 nofun
    | none =>
      have ht := ht rfl
      exact (ih (hT.steps_of ht h)).mono fun r u hu hr => hT.append ht (hu hr)

theorem Course.goes_generic (hT : Course T) {isType : Bool} {id : NodeId} (h : Steps T self s) :
    wlp (Walk.generic self isType id) (fun r t => r = none → ∃ ids,
      s.context.arena.genericChildren isType s.visited.isSome id = .ok ids ∧
      T (ids.map (⟨·, false⟩)) s t) s := by
  refine wlp_bind.2 (wlp_get.2 (wlp_bind.2 (wlp_query.2 fun ids hids => ?_)))
  rw [firstOf_eq]
  exact (hT.goes_firstOf h).mono fun r t ht hr => ⟨ids, hids, ht hr⟩

theorem Course.goes_language (hT : Course T) {id : NodeId} (h : Steps T self s) :
    wlp (Walk.language self id true) (fun r t => (∀ found, r.1 ≠ .stopped found) →
      ∃ parts, s.context.arena.languageChildren? id = .ok parts ∧
        T (parts.getD (.before [])).children s t ∧
        r.2 = !(parts.getD (.before [])).replaceOperands ∧
        (r.1 = .notHandled → parts = none)) s := by
  refine wlp_bind.2 (wlp_query.2 fun parts hparts => ?_)
  cases parts with
  | none => exact wlp_pure.2 fun _ => ⟨none, hparts, hT.nil s, rfl, fun _ => rfl⟩
  | some parts =>
    refine wlp_bind.2 ((hT.goes_firstOf h).mono fun found t ht => ?_)
    cases found with
    | some found => exact wlp_pure.2 fun hr => (hr found rfl).elim
    | none => exact wlp_pure.2 fun _ => ⟨some parts, hparts, ht rfl, by simp, nofun⟩

theorem Course.goes_children (hT : Course T) {kind : NodeKind} {id : NodeId}
    (hkind : s.context.arena.kindOf id = .ok kind) (h : Steps T self s) :
    wlp (Walk.children self kind id) (fun r t => r = none → ∃ cs,
      s.context.arena.children s.visited.isSome id = .ok cs ∧ T cs s t) s := by
  refine wlp_bind.2 ((hT.goes_language h).mono fun r t ht => ?_)
  obtain ⟨walked, descend⟩ := r
  by_cases hstopped : ∃ found, walked = .stopped found
  · obtain ⟨found, rfl⟩ := hstopped
    exact wlp_pure.2 nofun
  obtain ⟨parts, hparts, hchildren, hdescend, hnone⟩ :=
    ht fun found hfound => hstopped ⟨found, hfound⟩
  -- behind the children of the language the operands are walked, unless they are replaced
  have hgeneric : (parts.getD (.before [])).replaceOperands = false →
      wlp (Walk.generic self kind.isType id) (fun r u => r = none → ∃ cs,
        s.context.arena.children s.visited.isSome id = .ok cs ∧ T cs s u) t := by
    refine fun hreplace => (hT.goes_generic (hT.steps_of hchildren h)).mono fun r u hu hr => ?_
    obtain ⟨ids, hids, hu⟩ := hu hr
    rw [hT.arena_eq hchildren, hT.isSome_visited hchildren] at hids
    refine ⟨_, Arena.bind_eq_ok_iff.2 ⟨kind, hkind, Arena.bind_eq_ok_iff.2 ⟨parts, hparts, ?_⟩⟩,
      hT.append hchildren hu⟩
    rw [if_neg (by simp [hreplace])]
    exact Arena.bind_eq_ok_iff.2 ⟨ids, hids, rfl⟩
  cases walked with
  | stopped found => exact (hstopped ⟨found, rfl⟩).elim
  | notHandled =>
    rw [hnone rfl] at hgeneric
    exact hgeneric rfl
  | finished =>
    cases descend with
    | true => exact hgeneric (by simpa using hdescend)
    | false =>
      refine wlp_pure.2 fun _ => ⟨_, Arena.bind_eq_ok_iff.2 ⟨kind, hkind,
        Arena.bind_eq_ok_iff.2 ⟨parts, hparts, ?_⟩⟩, hchildren⟩
      rw [if_pos (by simpa using hdescend)]
      rfl

theorem Course.goes_below (hT : Course T) {kind : NodeKind} {descend : Bool} {id : NodeId}
    (hkind : s.context.arena.kindOf id = .ok kind) (h : Steps T self s) :
    wlp (if descend then Walk.children self kind id else siblings self kind) (fun r t => r = none →
      ∃ cs, s.context.arena.walked s.visited.isSome descend id = .ok cs ∧ T cs s t) s := by
  cases descend with
  | true => exact hT.goes_children hkind h
  | false =>
    have hrest : s.context.arena.walked s.visited.isSome false id = s.context.arena.rest id := rfl
    rw [Arena.rest, hkind] at hrest
    cases kind with
    | listCell purpose value next =>
      cases next with
      | none => exact wlp_pure.2 fun _ => ⟨_, hrest, hT.nil s⟩
      | some next =>
        exact (h [] s ⟨next, false⟩ (hT.nil s)).mono fun r t ht hr => ⟨_, hrest, ht hr⟩
    | _ => exact wlp_pure.2 fun _ => ⟨_, hrest, hT.nil s⟩

section Steady

variable {v : Visitor σ} {a : Arena} {descends : NodeId → Bool} {id : NodeId}
  {s s' : WalkState (List Call × σ)} {self : NodeId → Walk (List Call × σ) (Option NodeId)}
  {T : List Child → WalkState (List Call × σ) → WalkState (List Call × σ) → Prop}

theorem Course.goes_node (hT : Course T) (hv : v.Steady a descends)
    (harrive : arrive id s = .ok true s') (ha : s'.context.arena = a)
    (hid : (a.find? id).isSome = true) (h : ∀ t, Called id s' t → Steps T self t) :
    wlp (Walk.node v.recorded self id) (fun r u => r = none → ∃ cs t,
      a.walked s'.visited.isSome (descends id) id = .ok cs ∧ Called id s' t ∧ T cs t u) s := by
  rw [node_eq, wlp_bind]
  rintro arrived _ harrived
  cases harrive.symm.trans harrived
  rw [if_pos rfl, wlp_bind]
  obtain ⟨answer, t, hvisit, rfl, ht⟩ := returns_visit hv ha hid
  intro _ _ hvisited
  cases hvisit.symm.trans hvisited
  refine wlp_bind.2 (wlp_query.2 fun kind hkind => ?_)
  refine (hT.goes_below hkind (h t ht)).mono fun r u hu hr => ?_
  obtain ⟨cs, hcs, hu⟩ := hu hr
  rw [ht.visited_eq, ht.samePlace.arena_eq, ha] at hcs
  exact ⟨cs, t, hcs, ht, hu⟩

end Steady

/-! ### Room for every path -/

variable {a : Arena} {skips : NodeId → Bool} {s t : WalkState (List Call × σ)}

/-- No path below a node is longer than those below its children by more than one. -/
theorem pathsWithin_of_children {id : NodeId} {cs : List Child} {n : Nat}
    (hcs : a.below skips id = .ok cs) (h : ∀ c ∈ cs, a.PathsWithin skips c.node n) :
    a.PathsWithin skips id (n + 1) := by
  intro path hpath
  cases path with
  | nil => simp
  | cons child path =>
    obtain ⟨⟨cs', hcs', c, hc, rfl⟩, hpath⟩ := List.isChain_cons_cons.1 hpath
    cases hcs.symm.trans hcs'
    have := h c hc path hpath
    simpa using this

/-- A walk without a set of visited nodes that has made the calls of a preorder, and has found room
for every path. -/
def Roomy (a : Arena) (skips : NodeId → Bool) (cs : List Child)
    (s t : WalkState (List Call × σ)) : Prop :=
  Unfolded a skips (cs.map (Call.at s.context.unevaluatedDepth)) s t ∧
    ∀ c ∈ cs, a.PathsWithin skips c.node s.context.nesting.room

theorem course_roomy (a : Arena) (skips : NodeId → Bool) :
    Course (Roomy a skips : List Child → WalkState (List Call × σ) → _ → Prop) where
  nil s := ⟨(course_unfolded a skips).nil s, by simp⟩
  append := by
    rintro xs ys s t u ⟨hst, hxs⟩ ⟨htu, hys⟩
    refine ⟨(course_unfolded a skips).append hst htu, fun c hc => ?_⟩
    rcases List.mem_append.1 hc with hc | hc
    · exact hxs c hc
    · rw [← hst.1.nesting_eq]
      exact hys c hc
  arena_eq h := h.1.1.arena_eq
  isSome_visited h := congrArg Option.isSome h.1.2.1

theorem roomy_step {v : Visitor σ} {self : NodeId → Walk (List Call × σ) (Option NodeId)}
    {id : NodeId} (hv : v.Steady a fun id => !skips id) (ha : s.context.arena = a)
    (hs : s.visited = none)
    (h : ∀ (t : WalkState (List Call × σ)) c, t.context.arena = a → t.visited = none →
      Goes (Roomy a skips) (self c) [⟨c, false⟩] t) :
    Goes (Roomy a skips) (step v.recorded self id) [⟨id, false⟩] s := by
  refine wlp_bind.2 (wlp_query.2 fun span hspan =>
    wlp_nested (fun inner hinner => ?_) fun _ => nofun)
  obtain ⟨n, hn, -⟩ := Arena.map_eq_ok_iff.1 hspan
  have hid : (a.find? id).isSome = true := by
    rw [← ha, Arena.node_eq_ok_iff.1 hn]
    rfl
  have harrive := arrive_of_none
    (s := { s with context := { s.context with nesting := inner } }) hs id
  refine ((course_roomy a skips).goes_node hv harrive ha hid ?_).mono ?_
  · rintro t ht xs u c ⟨⟨hplace, hV, -⟩, -⟩
    have hplace := ht.samePlace.trans hplace
    have huV : u.visited = none := (hV.trans ht.visited_eq).trans hs
    refine (wlp_child (R := fun w => (w.visited = u.visited ∧ ∃ order,
      a.Unfolds skips [Call.at u.context.unevaluatedDepth c] order ∧ w.calls = u.calls ++ order) ∧
      a.PathsWithin skips c.node u.context.nesting.room) (fun _ _ hR => hR) ?_).mono ?_
    · refine (h (inside u c) c.node (hplace.arena_eq.trans ha) huV).mono fun r w hw hr => ?_
      obtain ⟨⟨hplace, hV⟩, hpaths⟩ := hw hr
      exact ⟨hplace, hV, hpaths ⟨c.node, false⟩ List.mem_cons_self⟩
    · intro r w hw hr
      obtain ⟨hplace, hV, hpaths⟩ := hw hr
      exact ⟨⟨hplace, hV⟩, by simpa using hpaths⟩
  · rintro r u hu outer houter hr
    obtain ⟨cs, t, hcs, ht, ⟨hplace, hV, order, ho, hcalls⟩, hpaths⟩ := hu hr
    have hplace' := ht.samePlace.trans hplace
    rw [hplace'.nesting_eq, Nesting.leave_of_enter hinner] at houter
    cases houter
    have hcs : a.below skips id = .ok cs := by
      rw [show s.visited = none from hs] at hcs
      exact hcs
    rw [ht.samePlace.depth_eq] at ho
    rw [ht.samePlace.nesting_eq] at hpaths
    refine ⟨⟨⟨hplace'.arena_eq, rfl, hplace'.depth_eq⟩, hV.trans ht.visited_eq,
      ⟨id, s.context.unevaluatedDepth⟩ :: order, ?_, ?_⟩, ?_⟩
    · have hcons := Arena.Unfolds.cons (c := ⟨id, s.context.unevaluatedDepth⟩) hcs ho .nil
      rw [List.append_nil] at hcons
      exact hcons
    · show u.calls = _
      rw [hcalls, ht.calls_eq]
      simp [WalkState.calls]
    · simp only [List.mem_singleton, forall_eq]
      rw [Nesting.room_of_enter hinner]
      exact pathsWithin_of_children hcs hpaths

/-- A walk without a set of visited nodes that returns nothing has made the calls of a preorder, and
has found room for every path. -/
theorem roomy_within {v : Visitor σ} (hv : v.Steady a fun id => !skips id) (n : Nat) (id : NodeId)
    (ha : s.context.arena = a) (hs : s.visited = none) :
    Goes (Roomy a skips) (within v.recorded n id) [⟨id, false⟩] s := by
  induction n generalizing id s with
  | zero => exact roomy_step hv ha hs fun _ _ _ _ => wlp_throw
  | succ n ih => exact roomy_step hv ha hs fun t c hta hts => ih c hta hts

end Walk

end ExprTree
