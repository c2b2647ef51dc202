import ExprTree.Proofs.WalkEnds
import ExprTree.Proofs.WalkRoom

/-!
# Walks at the nesting limit

A walk that does not know where it has been has room for every path down from its root, or else it
is refused a level at the first node, in preorder, for which there is none.  It then goes no
further: nothing behind this node is visited, and no other level is refused.  Hence the walk of a
tree that contains itself comes to an end.

* `Arena.Overflows` — where a preorder first goes deeper than there is room for.
* `Arena.Begins` — the beginnings of a preorder, which may have no end.
* `Walk.Ends` — the two ways in which a walk comes to an end.
* `Walk.walkTree_limit` — the longest path decides between them.
-/

namespace ExprTree

namespace Arena

variable {a : Arena} {skips : NodeId → Bool} {calls calls' order order' : List Call}
  {room : Nat} {next : NodeId}

/-- With room for so many levels, the preorder of trees first goes too deep at the node `next`, with
these nodes before it. -/
inductive Overflows (a : Arena) (skips : NodeId → Bool) :
    Nat → List Call → List Call → NodeId → Prop
  /-- There is no room for the first tree. -/
  | here {c : Call} {calls : List Call} : Overflows a skips 0 (c :: calls) [] c.node
  /-- There is room for its root, and not for all that is below. -/
  | deeper {room : Nat} {c : Call} {cs : List Child} {calls order : List Call} {next : NodeId}
    (hcs : a.below skips c.node = .ok cs)
    (h : Overflows a skips room (cs.map (Call.at c.unevaluatedDepth)) order next) :
    Overflows a skips (room + 1) (c :: calls) (c :: order) next
  /-- There is room for the first tree, and not for one behind it. -/
  | behind {room : Nat} {c : Call} {calls order rest : List Call} {next : NodeId}
    (hpaths : a.PathsWithin skips c.node room) (hc : a.Unfolds skips [c] order)
    (h : Overflows a skips room calls rest next) :
    Overflows a skips room (c :: calls) (order ++ rest) next

theorem Overflows.append (h : a.Overflows skips room calls order next) (calls' : List Call) :
    a.Overflows skips room (calls ++ calls') order next := by
  induction h with
  | here => exact .here
  | deeper hcs h => exact .deeper hcs h
  | behind hpaths hc _ ih => exact .behind hpaths hc ih

/-- Where a preorder goes too deep, one of the trees has a path that is too long. -/
theorem Overflows.exists_not_pathsWithin (h : a.Overflows skips room calls order next) :
    ∃ c ∈ calls, ¬a.PathsWithin skips c.node room := by
  induction h with
  | @here c calls => exact ⟨c, by simp, fun hpaths => by simpa using hpaths [] (.singleton _)⟩
  | @deeper room c cs calls order next hcs _ ih =>
    obtain ⟨_, hmem, hlong⟩ := ih
    obtain ⟨d, hd, rfl⟩ := List.mem_map.1 hmem
    exact ⟨c, by simp, fun hpaths => hlong (hpaths.child ⟨cs, hcs, d, hd, rfl⟩)⟩
  | behind _ _ _ ih =>
    obtain ⟨c, hc, hlong⟩ := ih
    exact ⟨c, .tail _ hc, hlong⟩

/-- The preorder of trees begins with these nodes.  The children of a node come before the trees
behind it; the trees need not be finite. -/
inductive Begins (a : Arena) (skips : NodeId → Bool) : List Call → List Call → Prop
  | stop {calls : List Call} : Begins a skips calls []
  | visit {c : Call} {cs : List Child} {calls order : List Call}
    (hcs : a.below skips c.node = .ok cs)
    (h : Begins a skips (cs.map (Call.at c.unevaluatedDepth) ++ calls) order) :
    Begins a skips (c :: calls) (c :: order)

theorem Begins.append (h : a.Begins skips calls order) (calls' : List Call) :
    a.Begins skips (calls ++ calls') order := by
  induction h with
  | stop => exact .stop
  | visit hcs _ ih => exact .visit hcs (List.append_assoc .. ▸ ih)

/-- A preorder begins with the whole of a first part. -/
theorem Unfolds.begins (h : a.Unfolds skips calls order) (h' : a.Begins skips calls' order') :
    a.Begins skips (calls ++ calls') (order ++ order') := by
  induction h generalizing calls' order' with
  | nil => exact h'
  | cons hcs _ _ ihbelow ihrest =>
    rw [List.cons_append, List.cons_append, List.cons_append, List.append_assoc]
    exact .visit hcs (ihbelow (ihrest h'))

theorem Overflows.begins (h : a.Overflows skips room calls order next) :
    a.Begins skips calls order := by
  induction h with
  | here => exact .stop
  | deeper hcs _ ih => exact .visit hcs (ih.append _)
  | behind _ hc _ ih => exact hc.begins ih

/-- The beginnings of a preorder that has an end are its prefixes. -/
theorem Begins.isPrefix_of_unfolds (h : a.Begins skips calls order)
    (h' : a.Unfolds skips calls order') : order <+: order' := by
  induction h generalizing order' with
  | stop => exact List.nil_prefix
  | visit hcs _ ih =>
    cases h' with
    | cons hcs' hbelow hrest =>
      cases hcs.symm.trans hcs'
      exact (List.prefix_cons_inj _).2 (ih (hbelow.append hrest))

theorem below_selfComma :
    selfComma.below (fun _ => false) ⟨6⟩ = .ok [⟨⟨6⟩, false⟩, ⟨⟨6⟩, false⟩] := rfl

/-- Nothing else is below a comma that contains itself. -/
theorem beneath_selfComma {id : NodeId}
    (h : Relation.ReflTransGen (selfComma.Below fun _ => false) ⟨6⟩ id) : id = ⟨6⟩ := by
  induction h with
  | refl => rfl
  | tail _ hstep ih =>
    obtain ⟨cs, hcs, c, hc, rfl⟩ := hstep
    rw [ih] at hcs
    cases below_selfComma.symm.trans hcs
    simp at hc
    rw [hc]

end Arena

namespace Walk

open ExprTree.Action

section Ends

variable {σ : Type} {v : Visitor σ} {a : Arena} {skips : NodeId → Bool} {calls : List Call}
  {s t u : WalkState (List Call × σ)} {r : Option NodeId}

/-- The state in which a walk has been refused a level at a node. -/
def refusedAt (s : WalkState σ) (n : Node) : WalkState σ :=
  { s with context := s.context.reportError <|
      .tooDeeplyNested (n.span.orElse s.context.inputLocation) s.context.nesting.limit }

/-- The two ways in which the walk of trees comes to an end: it returns with nothing from all that
is below, or with the error node from the first node for which there is no room. -/
inductive Ends (v : Visitor σ) (a : Arena) (skips : NodeId → Bool) (calls : List Call)
    (s : WalkState (List Call × σ)) : Option NodeId → WalkState (List Call × σ) → Prop
  | returns {order : List Call} {t : WalkState (List Call × σ)} (h : Leads v order s t)
    (hvisited : t.visited = s.visited) (horder : a.Unfolds skips calls order)
    (hpaths : ∀ c ∈ calls, a.PathsWithin skips c.node s.context.nesting.room) :
    Ends v a skips calls s none t
  | refused {order : List Call} {u : WalkState (List Call × σ)} {next : NodeId} {n : Node}
    (h : Leads v order s u) (hn : a.find? next = some n)
    (horder : a.Overflows skips s.context.nesting.room calls order next) :
    Ends v a skips calls s (some .error) (refusedAt u n)

/-- What a walk has done a level deeper, when it has left this level. -/
theorem Leads.leave {nesting : Nesting}
    (h : Leads v calls (atDepth s s.context.unevaluatedDepth nesting) t) :
    Leads v calls s (atDepth t t.context.unevaluatedDepth s.context.nesting) := by
  have hdepth : t.context.unevaluatedDepth = s.context.unevaluatedDepth := h.samePlace.depth_eq
  rw [hdepth]
  exact h.move

/-- A walk at another number of unevaluated operands. -/
theorem Ends.move {depth : Nat}
    (h : Ends v a skips calls (atDepth s depth s.context.nesting) r t) :
    t.context.unevaluatedDepth = depth ∧ Ends v a skips calls s r
      (atDepth t s.context.unevaluatedDepth t.context.nesting) := by
  cases h with
  | returns h hvisited horder hpaths =>
    refine ⟨h.samePlace.depth_eq, ?_⟩
    rw [h.samePlace.nesting_eq]
    exact .returns h.move hvisited horder hpaths
  | @refused order u next n h hn horder =>
    refine ⟨h.samePlace.depth_eq, ?_⟩
    have hrefused : atDepth (refusedAt u n) s.context.unevaluatedDepth u.context.nesting =
      refusedAt (atDepth u s.context.unevaluatedDepth u.context.nesting) n := rfl
    show Ends v a skips calls s _ (atDepth (refusedAt u n) _ u.context.nesting)
    rw [hrefused, h.samePlace.nesting_eq]
    exact .refused h.move hn horder

/-- The walk of a child, with as many unevaluated operands around it as it says. -/
theorem ends_child {self : NodeId → Walk (List Call × σ) (Option NodeId)} {c : Child}
    (h : Returns (self c.node)
      (Ends v a skips [Call.at s.context.unevaluatedDepth c] (inside s c)) (inside s c)) :
    Returns (child self c) (Ends v a skips [Call.at s.context.unevaluatedDepth c] s) s := by
  obtain ⟨id, unevaluated⟩ := c
  cases unevaluated with
  | false => exact h
  | true =>
    refine returns_unevaluated (h.mono fun r t ht => ?_)
    exact ht.move

/-- The walks of trees in order. -/
theorem ends_firstOf {self : NodeId → Walk (List Call × σ) (Option NodeId)} {cs : List Child}
    (h : ∀ c ∈ cs, ∀ t : WalkState (List Call × σ), s.context.SamePlace t.context →
      t.visited = s.visited → Returns (child self c)
        (Ends v a skips [Call.at t.context.unevaluatedDepth c] t) t) :
    Returns (firstOf (child self) cs)
      (Ends v a skips (cs.map (Call.at s.context.unevaluatedDepth)) s) s := by
  induction cs generalizing s with
  | nil => exact returns_pure (.returns (.refl v s) rfl .nil (by simp))
  | cons c cs ih =>
    refine returns_bind ((h c List.mem_cons_self s (.refl _) rfl).mono fun r t ht => ?_)
    cases ht with
    | refused h hn horder => exact returns_pure (.refused h hn (horder.append _))
    | @returns order t hleads hvisited horder hpaths =>
      have hpaths : a.PathsWithin skips c.node s.context.nesting.room :=
        hpaths _ List.mem_cons_self
      have hrest := ih (s := t) fun d hd u hplace hu =>
        h d (.tail _ hd) u (hleads.samePlace.trans hplace) (hu.trans hvisited)
      refine hrest.mono fun r u hu => ?_
      rw [hleads.samePlace.depth_eq] at hu
      cases hu with
      | returns hleads' hvisited' horder' hpaths' =>
        rw [hleads.samePlace.nesting_eq] at hpaths'
        refine .returns (hleads.trans hleads') (hvisited'.trans hvisited)
          (horder.append horder') fun d hd => ?_
        rcases List.mem_cons.1 hd with rfl | hd
        · exact hpaths
        · exact hpaths' d hd
      | refused hleads' hn horder' =>
        rw [hleads.samePlace.nesting_eq] at horder'
        exact .refused (hleads.trans hleads') hn (.behind hpaths horder horder')

/-- A node is visited, and then what is below it is walked. -/
theorem ends_node {self : NodeId → Walk (List Call × σ) (Option NodeId)} {id : NodeId}
    {cs : List Child} (hv : v.Steady a fun id => !skips id) (ha : s.context.arena = a)
    (hs : s.visited = none) (hcs : a.below skips id = .ok cs)
    (h : ∀ t : WalkState (List Call × σ), t.context.arena = a → t.visited = none →
      t.context.nesting = s.context.nesting → ∀ c ∈ cs,
        Returns (self c.node) (Ends v a skips [⟨c.node, t.context.unevaluatedDepth⟩] t) t) :
    Returns (node v.recorded self id) (fun r u => ∃ t, t.visited = s.visited ∧
      Leads v [⟨id, s.context.unevaluatedDepth⟩] s t ∧
      Ends v a skips (cs.map (Call.at s.context.unevaluatedDepth)) t r u) s := by
  obtain ⟨n, hn⟩ := Arena.exists_find?_of_walked hcs
  have hkind : a.kindOf id = .ok n.kind := Arena.kindOf_eq_ok_iff.2 ⟨n, hn, rfl⟩
  refine returns_bind ⟨true, s, arrive_of_none hs id, ?_⟩
  obtain ⟨t, hvisit, hvisited, hleads⟩ := leads_visit hv (by rw [hn]; rfl) ha
  refine returns_bind ⟨_, t, hvisit, ?_⟩
  have hta : t.context.arena = a := hleads.samePlace.arena_eq.trans ha
  have htwalked : t.context.arena.walked t.visited.isSome (!skips id) id = .ok cs := by
    rw [hta, hvisited, hs]
    exact hcs
  -- the walks of any of the children in order, from the first on
  have hfirst : ∀ xs, xs <+: cs → Returns (firstOf (child self) xs)
      (Ends v a skips (xs.map (Call.at t.context.unevaluatedDepth)) t) t :=
    fun xs hxs => ends_firstOf fun c hc u hplace hu => ends_child <|
      h (inside u c) (hplace.arena_eq.trans hta) (hu.trans (hvisited.trans hs))
        (hplace.nesting_eq.trans hleads.samePlace.nesting_eq) c (hxs.subset hc)
  have hkeeps : KeepsArena self cs t := fun xs hxs u hu => by
    obtain ⟨r, u', hrun, hends⟩ := hfirst xs hxs
    cases hu.symm.trans hrun
    cases hends with
    | returns h hvisited' => exact ⟨h.samePlace.arena_eq, congrArg Option.isSome hvisited'⟩
  have hbelow := hfirst cs List.prefix_rfl
  rw [hleads.samePlace.depth_eq] at hbelow
  obtain ⟨r, u, hrun, hends⟩ := hbelow
  refine returns_bind (returns_query (hta ▸ hkind) ⟨r, u, ?_, t, hvisited, hleads, hends⟩)
  exact (below_eq (hta ▸ hkind) htwalked hkeeps).trans hrun

/-- One level of a walk. -/
theorem ends_step {self : NodeId → Walk (List Call × σ) (Option NodeId)} {id : NodeId}
    {cs : List Child} (hv : v.Steady a fun id => !skips id) (ha : s.context.arena = a)
    (hs : s.visited = none) (hcs : a.below skips id = .ok cs)
    (h : ∀ t : WalkState (List Call × σ), t.context.arena = a → t.visited = none →
      t.context.nesting.room + 1 = s.context.nesting.room → ∀ c ∈ cs,
        Returns (self c.node) (Ends v a skips [⟨c.node, t.context.unevaluatedDepth⟩] t) t) :
    Returns (step v.recorded self id) (Ends v a skips [⟨id, s.context.unevaluatedDepth⟩] s) s := by
  obtain ⟨n, hn⟩ := Arena.exists_find?_of_walked hcs
  have hspan : s.context.arena.spanOf id = .ok n.span :=
    Arena.map_node_of_find? (ha ▸ hn)
  refine returns_bind (returns_query hspan ?_)
  cases hinner : s.context.nesting.enter with
  | error e =>
    obtain ⟨hroom, hlimit⟩ := Nesting.room_of_refused hinner
    have hhere :
        a.Overflows skips s.context.nesting.room [⟨id, s.context.unevaluatedDepth⟩] [] id := by
      rw [hroom]
      exact .here
    have hrefused := Ends.refused (.refl v s) hn hhere
    rw [refusedAt, ← hlimit] at hrefused
    rw [nested_eq]
    exact returns_bind (returns_lift ⟨_, _, Pass.enter_of_error hinner, returns_pure hrefused⟩)
  | ok inner =>
    refine returns_nested hinner ?_
    have hroom := Nesting.room_of_enter hinner
    refine (ends_node (s := atDepth s s.context.unevaluatedDepth inner) hv ha hs hcs
      fun t hta hts htn => h t hta hts (by rw [htn, hroom])).mono ?_
    rintro r u ⟨t, hvisited, hleads, hends⟩
    have hnesting : t.context.nesting = inner := hleads.samePlace.nesting_eq
    cases hends with
    | returns h hvisited' horder hpaths =>
      have hleads := hleads.trans h
      refine ⟨hleads.samePlace.nesting_eq, ?_⟩
      have horder := Arena.Unfolds.cons (c := ⟨id, s.context.unevaluatedDepth⟩) hcs horder .nil
      rw [List.append_nil] at horder
      refine .returns hleads.leave (hvisited'.trans hvisited) horder ?_
      rw [List.forall_mem_singleton, hroom, ← hnesting]
      exact pathsWithin_of_children hcs fun c hc => hpaths _ (List.mem_map_of_mem hc)
    | @refused order u next m h hm horder =>
      have hleads := hleads.trans h
      refine ⟨hleads.samePlace.nesting_eq, ?_⟩
      have hlimit : u.context.nesting.limit = s.context.nesting.limit := by
        rw [hleads.samePlace.nesting_eq]
        exact Nesting.limit_of_enter hinner
      have hdeeper : a.Overflows skips s.context.nesting.room
          [⟨id, s.context.unevaluatedDepth⟩] (⟨id, s.context.unevaluatedDepth⟩ :: order) next := by
        rw [hnesting] at horder
        rw [hroom]
        exact .deeper hcs horder
      have hrefused := Ends.refused hleads.leave hm hdeeper
      rw [refusedAt, ← hlimit] at hrefused
      exact hrefused

/-- A walk, unrolled at least as often as there is room for levels. -/
theorem ends_within (hv : v.Steady a fun id => !skips id) (n : Nat) {id : NodeId}
    (ha : s.context.arena = a) (hs : s.visited = none)
    (hclosed : ∀ x, Relation.ReflTransGen (a.Below skips) id x → ∃ cs, a.below skips x = .ok cs)
    (hroom : s.context.nesting.room ≤ n) :
    Returns (within v.recorded n id)
      (Ends v a skips [⟨id, s.context.unevaluatedDepth⟩] s) s := by
  obtain ⟨cs, hcs⟩ := hclosed id .refl
  induction n generalizing id s cs with
  | zero => exact ends_step hv ha hs hcs fun t _ _ htroom => by omega
  | succ n ih =>
    refine ends_step hv ha hs hcs fun t hta hts htroom c hc => ?_
    have hbelow : ∀ x, Relation.ReflTransGen (a.Below skips) c.node x →
        ∃ cs, a.below skips x = .ok cs := fun x hx => hclosed x (.head ⟨cs, hcs, c, hc, rfl⟩ hx)
    obtain ⟨cs', hcs'⟩ := hbelow c.node .refl
    exact ih hta hts hbelow (by omega) cs' hcs'

/-- A walk that does not know where it has been, with a visitor that never ends it, skips the
children of certain nodes and leaves the arena alone.  If every path down from the root fits under
the limit, the walk returns nothing, and has done nothing but what the calls of the visitor do.
Otherwise, and so in a tree that contains itself, it returns the error node: it has made the calls
of the preorder up to the first node for which there is no room, and then reported once that the
tree is nested too deeply, and done nothing else. -/
theorem walkTree_limit {s : WalkState σ} {root : NodeId} (hv : v.Steady a fun id => !skips id)
    (ha : s.context.arena = a) (hs : s.visited = none)
    (hclosed : ∀ id, Relation.ReflTransGen (a.Below skips) root id →
      ∃ cs, a.below skips id = .ok cs) :
    (a.PathsWithin skips root (s.context.nesting.limit - s.context.nesting.depth) →
      ∃ t, walkTree v root s = .ok none t ∧
        v.Runs (treeCalls v root s) (s.user, s.context) (t.user, t.context)) ∧
    (¬a.PathsWithin skips root (s.context.nesting.limit - s.context.nesting.depth) →
      ∃ t cx next n, walkTree v root s = .ok (some .error) t ∧
        v.Runs (treeCalls v root s) (s.user, s.context) (t.user, cx) ∧
        a.Begins skips [⟨root, s.context.unevaluatedDepth⟩] (treeCalls v root s) ∧
        a.Overflows skips (s.context.nesting.limit - s.context.nesting.depth)
          [⟨root, s.context.unevaluatedDepth⟩] (treeCalls v root s) next ∧
        a.find? next = some n ∧
        t.context = cx.reportError
          (.tooDeeplyNested (n.span.orElse cx.inputLocation) s.context.nesting.limit)) := by
  have hroom : s.recording.context.nesting.room ≤ levels s.recording.context.nesting :=
    Nat.le_max_left ..
  obtain ⟨r, t, hrun, hcalls, hends⟩ := treeCalls_of_returns
    (ends_within (s := s.recording) hv (levels s.recording.context.nesting) ha hs hclosed hroom)
  cases hends with
  | returns h hvisited horder hpaths =>
    refine ⟨fun _ => ⟨t.forget, hrun, ?_⟩, fun hlong => (hlong (hpaths _ List.mem_cons_self)).elim⟩
    rw [hcalls, h.calls_eq]
    exact h.runs
  | @refused order u next n h hn horder =>
    have hcalls : treeCalls v root s = order := hcalls.trans h.calls_eq
    rw [hcalls]
    refine ⟨fun hpaths => ?_, fun _ =>
      ⟨_, u.context, next, n, hrun, h.runs, horder.begins, horder, hn, ?_⟩⟩
    · obtain ⟨c, hc, hlong⟩ := horder.exists_not_pathsWithin
      rw [List.mem_singleton.1 hc] at hlong
      exact (hlong hpaths).elim
    · show (refusedAt u n).context = _
      rw [refusedAt, h.samePlace.nesting_eq]
      rfl

/-- The longest path down a list with the purpose `sizeof x` has three nodes, and fits under a limit
of three levels.  A comma that contains itself twice is visited three times under this limit. -/
theorem walkTree_limit_three :
    (∃ t, walkTree (.skipping (· = ⟨8⟩)) ⟨9⟩ ⟨(), none, .ofArena .sizeofList ⟨3, .standard⟩⟩ =
      .ok none t) ∧
    ∃ t, walkTree (.skipping fun _ => false) ⟨6⟩ ⟨(), none, .ofArena .selfComma ⟨3, .standard⟩⟩ =
        .ok (some .error) t ∧
      Arena.selfComma.Begins (fun _ => false) [⟨⟨6⟩, 0⟩]
        (treeCalls (.skipping fun _ => false) ⟨6⟩
          ⟨(), none, .ofArena .selfComma ⟨3, .standard⟩⟩) := by
  constructor
  · have hpaths : Arena.sizeofList.PathsWithin (· = ⟨8⟩) ⟨9⟩ 3 := by
      have hvalue : ∀ n, Arena.sizeofList.PathsWithin (· = ⟨8⟩) ⟨6⟩ (n + 1) := fun n =>
        pathsWithin_of_children (show _ = Except.ok [] from rfl) (by simp)
      have hskipped : ∀ n, Arena.sizeofList.PathsWithin (· = ⟨8⟩) ⟨8⟩ (n + 1) := fun n =>
        pathsWithin_of_children (show _ = Except.ok [] from rfl) (by simp)
      have hsizeof : Arena.sizeofList.PathsWithin (· = ⟨8⟩) ⟨7⟩ 2 :=
        pathsWithin_of_children (show _ = Except.ok [⟨⟨6⟩, true⟩] from rfl)
          (by simpa using hvalue 0)
      refine pathsWithin_of_children
        (show _ = Except.ok [⟨⟨7⟩, false⟩, ⟨⟨6⟩, false⟩, ⟨⟨8⟩, false⟩] from rfl) ?_
      simp [hsizeof, hvalue 1, hskipped 1]
    obtain ⟨t, hrun, -⟩ := (walkTree_limit (Visitor.steady_skipping (· = ⟨8⟩) Arena.sizeofList)
      (s := ⟨(), none, .ofArena .sizeofList ⟨3, .standard⟩⟩) rfl rfl fun id hid =>
        Arena.exists_below_sizeofList (Arena.beneath_sizeofList hid)).1 hpaths
    exact ⟨t, hrun⟩
  · have hself : Arena.selfComma.Below (fun _ => false) ⟨6⟩ ⟨6⟩ :=
      ⟨_, Arena.below_selfComma, _, List.mem_cons_self, rfl⟩
    have hclosed : ∀ id, Relation.ReflTransGen (Arena.selfComma.Below fun _ => false) ⟨6⟩ id →
        ∃ cs, Arena.selfComma.below (fun _ => false) id = .ok cs := fun id hid =>
      ⟨_, Arena.beneath_selfComma hid ▸ Arena.below_selfComma⟩
    obtain ⟨t, _, _, _, hrun, -, hbegins, -⟩ := (walkTree_limit
      (Visitor.steady_skipping (fun _ => false) Arena.selfComma)
      (s := ⟨(), none, .ofArena .selfComma ⟨3, .standard⟩⟩) rfl rfl hclosed).2 fun hpaths => by
        have := hpaths [⟨6⟩, ⟨6⟩, ⟨6⟩] (by simp [hself])
        simp [Context.ofArena, Nesting.ofLimit] at this
    exact ⟨t, hrun, hbegins⟩

end Ends

end Walk

end ExprTree
