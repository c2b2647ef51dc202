import ExprTree.Proofs.WalkRoom

/-!
# First visits

With a set of visited nodes a walk makes the calls of the walk without one, but for those at nodes
at which there has been a call before.  For a node that comes again has been left: everything below
it has been visited, since without cycles nothing leads back to a node that is still being walked.

* `Walk.firsts` — the first call at each node.
* `Arena.Searches` — the calls of a walk that visits every node once.
* `Arena.Searches.eq_firsts` — they are the first ones of the unfolded tree.
* `Walk.searched_within` — a walk with a set of visited nodes makes them.
* `Walk.walkTree_firsts` — the two walks of a tree.
-/

namespace ExprTree

/-! ### First calls -/

namespace Walk

/-- The first call at each node that has not been visited. -/
def firsts : Visited → List Call → List Call
  | _, [] => []
  | V, c :: calls => if c.node ∈ V then firsts V calls else c :: firsts (c.node :: V) calls

theorem firsts_cons_of_mem {V : Visited} {c : Call} (hc : c.node ∈ V) (calls : List Call) :
    firsts V (c :: calls) = firsts V calls := if_pos hc

theorem firsts_cons_of_notMem {V : Visited} {c : Call} (hc : c.node ∉ V) (calls : List Call) :
    firsts V (c :: calls) = c :: firsts (c.node :: V) calls := if_neg hc

theorem firsts_append (V : Visited) (calls calls' : List Call) : firsts V (calls ++ calls') =
    firsts V calls ++ firsts (((firsts V calls).map Call.node).reverse ++ V) calls' := by
  induction calls generalizing V with
  | nil => rfl
  | cons c calls ih =>
    rw [List.cons_append]
    by_cases hc : c.node ∈ V
    · rw [firsts_cons_of_mem hc, firsts_cons_of_mem hc, ih]
    · rw [firsts_cons_of_notMem hc, firsts_cons_of_notMem hc, ih]
      simp

/-- Calls at nodes that have all been visited are no first calls. -/
theorem firsts_eq_nil {V : Visited} {calls : List Call} (h : ∀ c ∈ calls, c.node ∈ V) :
    firsts V calls = [] := by
  induction calls with
  | nil => rfl
  | cons c calls ih =>
    rw [firsts_cons_of_mem (h c List.mem_cons_self)]
    exact ih fun d hd => h d (.tail _ hd)

theorem mem_of_mem_firsts {V : Visited} {calls : List Call} {c : Call}
    (hc : c ∈ firsts V calls) : c ∈ calls := by
  induction calls generalizing V with
  | nil => exact hc
  | cons d calls ih =>
    by_cases hd : d.node ∈ V
    · rw [firsts_cons_of_mem hd] at hc
      exact .tail _ (ih hc)
    · rw [firsts_cons_of_notMem hd] at hc
      rcases List.mem_cons.1 hc with rfl | hc
      · exact List.mem_cons_self
      · exact .tail _ (ih hc)

/-- There is a first call at every node that has not been visited before. -/
theorem exists_mem_firsts {V : Visited} {calls : List Call} {c : Call} (hc : c ∈ calls) :
    c.node ∈ V ∨ c.node ∈ (firsts V calls).map Call.node := by
  induction calls generalizing V with
  | nil => cases hc
  | cons d calls ih =>
    by_cases hd : d.node ∈ V
    · rw [firsts_cons_of_mem hd]
      rcases List.mem_cons.1 hc with rfl | hc
      · exact .inl hd
      · exact ih hc
    · rw [firsts_cons_of_notMem hd, List.map_cons, List.mem_cons]
      rcases List.mem_cons.1 hc with rfl | hc
      · exact .inr (.inl rfl)
      · have := ih (V := d.node :: V) hc
        rw [List.mem_cons] at this
        tauto

/-- The first calls are the calls without repetitions of nodes. -/
theorem firsts_nil (calls : List Call) :
    firsts [] calls = calls.eraseDupsBy fun c d => c.node == d.node := by
  have hloop : ∀ calls kept : List Call,
      List.eraseDupsBy.loop (fun c d => c.node == d.node) calls kept =
        kept.reverse ++ firsts (kept.map Call.node) calls := by
    intro calls
    induction calls with
    | nil => simp [List.eraseDupsBy.loop, firsts]
    | cons c calls ih =>
      intro kept
      have hany : kept.any (fun d => c.node == d.node) = true ↔ c.node ∈ kept.map Call.node := by
        simp only [List.any_eq_true, beq_iff_eq, List.mem_map]
        exact exists_congr fun d => and_congr_right fun _ => eq_comm
      unfold List.eraseDupsBy.loop
      by_cases hc : c.node ∈ kept.map Call.node
      · rw [firsts_cons_of_mem hc, hany.2 hc]
        exact ih kept
      · rw [firsts_cons_of_notMem hc, Bool.eq_false_iff.2 (mt hany.1 hc)]
        show List.eraseDupsBy.loop _ calls (c :: kept) = _
        rw [ih]
        simp
  exact (hloop calls []).symm

end Walk

namespace Arena

variable {a : Arena} {skips : NodeId → Bool} {V : Visited} {calls order order' : List Call}

/-- The calls of a walk that visits every node once, where some nodes have been visited before. -/
inductive Searches (a : Arena) (skips : NodeId → Bool) :
    Visited → List Call → List Call → Prop
  | nil {V : Visited} : Searches a skips V [] []
  | again {V : Visited} {c : Call} {calls order : List Call} (hc : c.node ∈ V)
    (hrest : Searches a skips V calls order) : Searches a skips V (c :: calls) order
  | first {V : Visited} {c : Call} {cs : List Child} {calls below rest : List Call}
    (hc : c.node ∉ V) (hcs : a.below skips c.node = .ok cs)
    (hbelow : Searches a skips (c.node :: V) (cs.map (Call.at c.unevaluatedDepth)) below)
    (hrest : Searches a skips ((below.map Call.node).reverse ++ c.node :: V) calls rest) :
    Searches a skips V (c :: calls) (c :: below ++ rest)

theorem Searches.append {calls' : List Call} (h : a.Searches skips V calls order)
    (h' : a.Searches skips ((order.map Call.node).reverse ++ V) calls' order') :
    a.Searches skips V (calls ++ calls') (order ++ order') := by
  induction h with
  | nil => simpa using h'
  | again hc _ ih => exact .again hc (ih h')
  | first hc hcs hbelow _ _ ih =>
    rw [List.append_assoc]
    exact .first hc hcs hbelow (ih (by simpa using h'))

/-! ### Below a node -/

/-- One node is somewhere below another. -/
abbrev Beneath (a : Arena) (skips : NodeId → Bool) : NodeId → NodeId → Prop :=
  Relation.ReflTransGen (a.Below skips)

/-- What is unfolded is beneath the nodes from which it starts. -/
theorem Unfolds.beneath (h : a.Unfolds skips calls order) {d : Call} (hd : d ∈ order) :
    ∃ c ∈ calls, a.Beneath skips c.node d.node := by
  induction h with
  | nil => cases hd
  | @cons c cs calls below rest hcs _ _ ihbelow ihrest =>
    rcases List.mem_append.1 hd with hd | hd
    · rcases List.mem_cons.1 hd with rfl | hd
      · exact ⟨_, List.mem_cons_self, .refl⟩
      · obtain ⟨_, hchild, hbeneath⟩ := ihbelow hd
        obtain ⟨child, hmem, rfl⟩ := List.mem_map.1 hchild
        exact ⟨c, List.mem_cons_self, .head ⟨cs, hcs, child, hmem, rfl⟩ hbeneath⟩
    · obtain ⟨c', hc', hbeneath⟩ := ihrest hd
      exact ⟨c', .tail _ hc', hbeneath⟩

/-- Everything beneath these nodes is unfolded, and has something below it, be it nothing. -/
theorem Unfolds.exists_mem (h : a.Unfolds skips calls order) {c : Call} (hc : c ∈ calls)
    {id : NodeId} (hid : a.Beneath skips c.node id) :
    (∃ d ∈ order, d.node = id) ∧ ∃ cs, a.below skips id = .ok cs := by
  induction h generalizing c with
  | nil => cases hc
  | @cons c' cs calls below rest hcs _ _ ihbelow ihrest =>
    rcases List.mem_cons.1 hc with rfl | hc
    · rcases Relation.ReflTransGen.cases_head hid with rfl | ⟨_, hbelow, hid⟩
      · exact ⟨⟨c, by simp, rfl⟩, cs, hcs⟩
      · obtain ⟨cs', hcs', child, hchild, rfl⟩ := hbelow
        cases hcs.symm.trans hcs'
        obtain ⟨⟨d, hd, rfl⟩, hbelow⟩ := ihbelow (List.mem_map_of_mem hchild) hid
        exact ⟨⟨d, by simp [hd], rfl⟩, hbelow⟩
    · obtain ⟨⟨d, hd, rfl⟩, hbelow⟩ := ihrest hc hid
      exact ⟨⟨d, by simp [hd], rfl⟩, hbelow⟩

theorem PathsWithin.beneath {id target : NodeId} {n : Nat} (h : a.PathsWithin skips id n)
    (hid : a.Beneath skips id target) : a.PathsWithin skips target n := by
  induction hid with
  | refl => exact h
  | tail _ hstep ih =>
    intro path hpath
    have := ih _ (List.isChain_cons_cons.2 ⟨hstep, hpath⟩)
    simp only [List.length_cons] at this ⊢
    omega

/-- Where no path is longer than some length nothing leads back to a node. -/
theorem PathsWithin.acyclic {id : NodeId} {n : Nat} (h : a.PathsWithin skips id n) :
    ¬ Relation.TransGen (a.Below skips) id id := by
  induction n with
  | zero => exact fun _ => absurd (h [] (.singleton id)) (by simp)
  | succ n ih =>
    intro hcycle
    obtain ⟨child, hchild, hback⟩ := Relation.TransGen.head'_iff.1 hcycle
    exact ih ((h.child hchild).beneath hback) hcycle

/-- If a node that has been visited comes again beneath these, it has been left: everything beneath
it has been visited. -/
def Left (a : Arena) (skips : NodeId → Bool) (V : Visited) (calls : List Call) : Prop :=
  ∀ id ∈ V, ∀ c ∈ calls, a.Beneath skips c.node id → ∀ x, a.Beneath skips id x → x ∈ V

variable {c : Call} {cs : List Child}

/-- Nothing beneath a node leads back to it. -/
theorem Left.below (h : a.Left skips V (c :: calls)) (hcs : a.below skips c.node = .ok cs)
    (hacyclic : ¬ Relation.TransGen (a.Below skips) c.node c.node) :
    a.Left skips (c.node :: V) (cs.map (Call.at c.unevaluatedDepth)) := by
  intro id hid d hd hbeneath x hx
  obtain ⟨child, hchild, rfl⟩ := List.mem_map.1 hd
  have hstep : a.Below skips c.node child.node := ⟨cs, hcs, child, hchild, rfl⟩
  rcases List.mem_cons.1 hid with rfl | hid
  · exact absurd (Relation.TransGen.head' hstep hbeneath) hacyclic
  · exact .tail _ (h id hid c List.mem_cons_self (.head hstep hbeneath) x hx)

/-- When everything beneath a node has been visited, it has been left. -/
theorem Left.after {under : List Call} (h : a.Left skips V (c :: calls))
    (hunfolds : a.Unfolds skips [c] (c :: under)) :
    a.Left skips (((Walk.firsts (c.node :: V) under).map Call.node).reverse ++ c.node :: V)
      calls := by
  have hvisited : ∀ d ∈ c :: under, d.node ∈
      ((Walk.firsts (c.node :: V) under).map Call.node).reverse ++ c.node :: V := by
    intro d hd
    rw [List.mem_append, List.mem_reverse]
    rcases List.mem_cons.1 hd with rfl | hd
    · exact .inr List.mem_cons_self
    · exact (Walk.exists_mem_firsts hd).symm
  have hbeneath : ∀ id, a.Beneath skips c.node id → ∀ x, a.Beneath skips id x → x ∈
      ((Walk.firsts (c.node :: V) under).map Call.node).reverse ++ c.node :: V := by
    intro id hid x hx
    obtain ⟨⟨d, hd, rfl⟩, -⟩ := hunfolds.exists_mem List.mem_cons_self (hid.trans hx)
    exact hvisited d hd
  intro id hid d hd hd' x hx
  rcases List.mem_append.1 hid with hid | hid
  · obtain ⟨e, he, rfl⟩ := List.mem_map.1 (List.mem_reverse.1 hid)
    obtain ⟨_, hc, he⟩ := hunfolds.beneath (.tail c (Walk.mem_of_mem_firsts he))
    rw [List.mem_singleton.1 hc] at he
    exact hbeneath e.node he x hx
  · rcases List.mem_cons.1 hid with rfl | hid
    · exact hbeneath c.node .refl x hx
    · have hV := h id hid d (.tail _ hd) hd' x hx
      exact List.mem_append_right _ (.tail _ hV)

/-- The calls of a walk that visits every node once are the first ones of the unfolded tree. -/
theorem Searches.eq_firsts (hunfolds : a.Unfolds skips calls order)
    (h : a.Searches skips V calls order')
    (hacyclic : ∀ c ∈ calls, ∀ id, a.Beneath skips c.node id →
      ¬ Relation.TransGen (a.Below skips) id id)
    (hleft : a.Left skips V calls) : order' = Walk.firsts V order := by
  induction hunfolds generalizing V order' with
  | nil =>
    cases h
    rfl
  | @cons c cs calls below rest hcs hbelow hrest ihbelow ihrest =>
    have hwhole : a.Unfolds skips [c] (c :: below) := by
      simpa using Unfolds.cons hcs hbelow .nil
    have hacyclic' : ∀ d ∈ calls, ∀ id, a.Beneath skips d.node id →
        ¬ Relation.TransGen (a.Below skips) id id := fun d hd => hacyclic d (.tail _ hd)
    cases h with
    | again hc h =>
      -- the node and everything beneath it have been visited
      have hvisited : ∀ d ∈ c :: below, d.node ∈ V := fun d hd => by
        obtain ⟨_, hc', hbeneath⟩ := hwhole.beneath hd
        rw [List.mem_singleton.1 hc'] at hbeneath
        exact hleft c.node hc c List.mem_cons_self .refl d.node hbeneath
      rw [Walk.firsts_append, Walk.firsts_eq_nil hvisited]
      exact ihrest h hacyclic' fun id hid d hd => hleft id hid d (.tail _ hd)
    | @first _ _ cs' _ below' rest' hc hcs' h h' =>
      cases hcs.symm.trans hcs'
      have hbelow' : below' = Walk.firsts (c.node :: V) below := by
        refine ihbelow h (fun d hd id hid => ?_)
          (hleft.below hcs (hacyclic c List.mem_cons_self c.node .refl))
        obtain ⟨child, hchild, rfl⟩ := List.mem_map.1 hd
        exact hacyclic c List.mem_cons_self id (.head ⟨cs, hcs, child, hchild, rfl⟩ hid)
      subst hbelow'
      rw [ihrest h' hacyclic' (hleft.after hwhole), List.cons_append, List.cons_append,
        Walk.firsts_cons_of_notMem hc, Walk.firsts_append]

end Arena

/-! ### Component types -/

/-- The kinds with component types, which only a walk with a set of visited nodes walks. -/
def NodeKind.hasComponents : NodeKind → Bool
  | .pointerType _ | .referenceType _ | .arrayType _ | .functionType .. => true
  | _ => false

theorem NodeKind.typeFields_of_not_hasComponents {kind : NodeKind}
    (h : kind.hasComponents = false) : kind.typeFields = ([], .empty) := by
  cases kind with
  | pointerType | referenceType | arrayType | functionType => cases h
  | _ => rfl

/-- Where there are no component types the same is walked with a set of visited nodes and
without. -/
theorem Arena.walked_eq_of_not_hasComponents {a : Arena} {id : NodeId} {kind : NodeKind}
    (hkind : a.kindOf id = .ok kind) (h : kind.hasComponents = false) (descend : Bool) :
    a.walked true descend id = a.walked false descend id := by
  have hgeneric : a.genericChildren kind.isType true id =
      a.genericChildren kind.isType false id := by
    rw [genericChildren_eq hkind, genericChildren_eq hkind]
    simp [genericParts, NodeKind.typeFields_of_not_hasComponents h]
  cases descend with
  | false => rfl
  | true =>
    show a.children true id = a.children false id
    unfold children
    rw [hkind]
    simp only [bind, Except.bind, hgeneric]

/-- At a node that an unfolding comes to, other than at a type with component types, the same
children are walked with a set of visited nodes and without. -/
theorem Arena.Unfolds.exists_walked {a : Arena} {skips : NodeId → Bool} {calls order : List Call}
    {c : Call} {x : NodeId} (h : a.Unfolds skips calls order) (hc : c ∈ calls)
    (hx : a.Beneath skips c.node x)
    (hkind : ∀ kind, a.kindOf x = .ok kind → kind.hasComponents = false) :
    ∃ cs, a.below skips x = .ok cs ∧ a.walked true (!skips x) x = .ok cs := by
  obtain ⟨-, cs, hcs⟩ := h.exists_mem hc hx
  obtain ⟨n, hn⟩ := Arena.exists_find?_of_walked hcs
  have hn : a.kindOf x = .ok n.kind := Arena.kindOf_eq_ok_iff.2 ⟨n, hn, rfl⟩
  refine ⟨cs, hcs, ?_⟩
  rw [Arena.walked_eq_of_not_hasComponents hn (hkind n.kind hn)]
  exact hcs

namespace Walk

open ExprTree.Action

variable {σ : Type} {a : Arena} {skips : NodeId → Bool} {s t : WalkState (List Call × σ)}

/-- A walk with a set of visited nodes makes the calls of a search. -/
def Searched (a : Arena) (skips : NodeId → Bool) (calls : List Call)
    (s t : WalkState (List Call × σ)) : Prop :=
  s.context.SamePlace t.context ∧ ∃ order : List Call,
    t.visited = s.visited.map ((order.map Call.node).reverse ++ ·) ∧
    t.calls = s.calls ++ order ∧ ∀ V, s.visited = some V → a.Searches skips V calls order

theorem course_searched (a : Arena) (skips : NodeId → Bool) :
    Course fun cs (s t : WalkState (List Call × σ)) =>
      Searched a skips (cs.map (Call.at s.context.unevaluatedDepth)) s t where
  nil s := ⟨.refl _, [], by simp, by simp, fun _ _ => .nil⟩
  append := by
    rintro xs ys s t u ⟨hst, order, hV, hcalls, ho⟩ ⟨htu, order', hV', hcalls', ho'⟩
    refine ⟨hst.trans htu, order ++ order', ?_, ?_, fun V hs => ?_⟩
    · rw [hV', hV, Option.map_map]
      congr 1
      funext V
      simp
    · rw [hcalls', hcalls, List.append_assoc]
    · rw [List.map_append]
      rw [hst.depth_eq] at ho'
      exact (ho V hs).append (ho' _ (by rw [hV, hs]; rfl))
  arena_eq h := h.1.arena_eq
  isSome_visited h := by
    obtain ⟨-, order, hV, -⟩ := h
    rw [hV, Option.isSome_map]

/-- One level of a search. -/
theorem searched_step {v : Visitor σ} {self : NodeId → Walk (List Call × σ) (Option NodeId)}
    {V : Visited} {id : NodeId} {cs : List Child} (hv : v.Steady a fun id => !skips id)
    (ha : s.context.arena = a) (hs : s.visited = some V) (hcs : a.below skips id = .ok cs)
    (hwalked : a.walked true (!skips id) id = .ok cs) (hroom : 0 < s.context.nesting.room)
    (h : ∀ (t : WalkState (List Call × σ)) V, t.context.arena = a → t.visited = some V →
      t.context.nesting.room + 1 = s.context.nesting.room → ∀ c ∈ cs,
        Returns (self c.node) (fun r u => r = none ∧
          Searched a skips [⟨c.node, t.context.unevaluatedDepth⟩] t u) t) :
    Returns (step v.recorded self id) (fun r t => r = none ∧
      Searched a skips [⟨id, s.context.unevaluatedDepth⟩] s t) s := by
  obtain ⟨n, hn⟩ := Arena.exists_find?_of_walked hcs
  by_cases hid : id ∈ V
  · refine (returns_again (ha ▸ hn) hroom hs hid).mono ?_
    rintro r _ ⟨rfl, rfl⟩
    refine ⟨rfl, .refl _, [], by simp, by simp, fun V' hV' => ?_⟩
    cases hs.symm.trans hV'
    exact .again hid .nil
  refine returns_step (ha ▸ hn) hroom fun inner hinner => ?_
  have harrive := arrive_of_notMem
    (s := { s with context := { s.context with nesting := inner } }) hs hid
  refine ((course_searched a skips).node hv harrive ha hwalked ?_).mono ?_
  · rintro t ht c hc xs u ⟨hplace, order, hV, -⟩
    have hplace := ht.samePlace.trans hplace
    refine returns_child (R := fun w => ∃ order : List Call,
      w.visited = u.visited.map ((order.map Call.node).reverse ++ ·) ∧
      w.calls = u.calls ++ order ∧ ∀ V, u.visited = some V →
        a.Searches skips V [Call.at u.context.unevaluatedDepth c] order) (fun _ _ hR => hR) ?_
    refine h (inside u c) ((order.map Call.node).reverse ++ id :: V) (hplace.arena_eq.trans ha)
      ?_ ?_ c hc
    · show u.visited = _
      rw [hV, ht.visited_eq]
      rfl
    · show u.context.nesting.room + 1 = _
      rw [hplace.nesting_eq, hinner]
  · rintro r u ⟨rfl, t, ht, hplace, order, hV, hcalls, ho⟩
    have hplace' := ht.samePlace.trans hplace
    refine ⟨hplace'.nesting_eq, rfl, ⟨hplace'.arena_eq, rfl, hplace'.depth_eq⟩,
      ⟨id, s.context.unevaluatedDepth⟩ :: order, ?_, ?_, ?_⟩
    · show u.visited = _
      rw [hV, ht.visited_eq, hs]
      simp
    · show u.calls = _
      rw [hcalls, ht.calls_eq]
      simp [WalkState.calls]
    · intro V' hV'
      cases hs.symm.trans hV'
      have hbelow := ho (id :: V) ht.visited_eq
      rw [ht.samePlace.depth_eq] at hbelow
      have hfirst := Arena.Searches.first (c := ⟨id, s.context.unevaluatedDepth⟩) hid hcs hbelow
        .nil
      rw [List.append_nil] at hfirst
      exact hfirst

/-- A walk with a set of visited nodes makes the calls of a search, when there is room for every
path. -/
theorem searched_within {v : Visitor σ} (hv : v.Steady a fun id => !skips id) (n : Nat)
    {id : NodeId} {V : Visited} {s : WalkState (List Call × σ)} (ha : s.context.arena = a)
    (hs : s.visited = some V)
    (hclosed : ∀ x, a.Beneath skips id x → ∃ cs, a.below skips x = .ok cs ∧
      a.walked true (!skips x) x = .ok cs)
    (hn : a.PathsWithin skips id (n + 1))
    (hroom : a.PathsWithin skips id s.context.nesting.room) :
    Returns (within v.recorded n id) (fun r t => r = none ∧
      Searched a skips [⟨id, s.context.unevaluatedDepth⟩] s t) s := by
  induction n generalizing id V s with
  | zero =>
    obtain ⟨cs, hcs, hwalked⟩ := hclosed id .refl
    refine searched_step hv ha hs hcs hwalked (hroom [] (.singleton _)) fun t _ _ _ _ c hc => ?_
    have := hn.child ⟨cs, hcs, c, hc, rfl⟩ [] (.singleton _)
    simp at this
  | succ n ih =>
    obtain ⟨cs, hcs, hwalked⟩ := hclosed id .refl
    refine searched_step hv ha hs hcs hwalked (hroom [] (.singleton _))
      fun t V hta hts htroom c hc => ?_
    have hbelow : a.Below skips id c.node := ⟨cs, hcs, c, hc, rfl⟩
    rw [← htroom] at hroom
    exact ih hta hts (fun x hx => hclosed x (.head hbelow hx)) (hn.child hbelow)
      (hroom.child hbelow)

/-- A walk of a tree that does not know where it has been, with a visitor that never ends it, skips
the children of certain nodes and leaves the arena alone, and that comes to no type with component
types.  If it returns nothing, and so is refused no level and meets no cycle, then with a set of
visited nodes, empty at first, it returns nothing either, and its calls are the first ones at each
node, with the same number of unevaluated operands around the node. -/
theorem walkTree_firsts {v : Visitor σ} {root : NodeId} {s t : WalkState σ}
    (hv : v.Steady a fun id => !skips id) (ha : s.context.arena = a) (hs : s.visited = none)
    (hkinds : ∀ id kind, Relation.ReflTransGen (a.Below skips) root id → a.kindOf id = .ok kind →
      kind.hasComponents = false)
    (hrun : walkTree v root s = .ok none t) :
    (∃ u, walkTree v root { s with visited := some [] } = .ok none u) ∧
    treeCalls v root { s with visited := some [] } =
      (treeCalls v root s).eraseDupsBy fun c d => c.node == d.node := by
  -- the plain walk has unfolded the arena, and found room for every path
  obtain ⟨t', hrecorded, rfl, hplain⟩ := recorded_of_walkTree hrun
  obtain ⟨⟨-, -, order, hunfolds, hcalls⟩, hpaths⟩ :=
    roomy_within hv _ root (s := s.recording) ha hs none t' hrecorded rfl
  have hpaths : a.PathsWithin skips root s.context.nesting.room :=
    hpaths ⟨root, false⟩ List.mem_cons_self
  have hunfolds : a.Unfolds skips [⟨root, s.context.unevaluatedDepth⟩] order := hunfolds
  have hclosed : ∀ x, a.Beneath skips root x → ∃ cs, a.below skips x = .ok cs ∧
      a.walked true (!skips x) x = .ok cs := fun x hx =>
    hunfolds.exists_walked List.mem_cons_self hx fun kind => hkinds x kind hx
  have hlevels : s.context.nesting.room ≤ levels s.context.nesting + 1 :=
    Nat.le_succ_of_le (Nat.le_max_left ..)
  -- so there is room for the walk with a set of visited nodes, which is a search
  have hsearched : Returns (walkTree v.recorded root)
      (fun r t => r = none ∧ Searched a skips [⟨root, s.context.unevaluatedDepth⟩] _ t)
      (WalkState.recording { s with visited := some [] }) :=
    searched_within hv (levels s.context.nesting) ha rfl hclosed
      (fun path hpath => (hpaths path hpath).trans hlevels) hpaths
  obtain ⟨r, u, hsearch, hrecord, rfl, -, order', -, hcalls', hsearches⟩ :=
    treeCalls_of_returns hsearched
  refine ⟨⟨u.forget, hsearch⟩, ?_⟩
  have hfirsts : order' = firsts [] order := by
    refine (hsearches [] rfl).eq_firsts hunfolds (fun c hc id hid => ?_) (by simp [Arena.Left])
    rw [List.mem_singleton.1 hc] at hid
    exact (hpaths.beneath hid).acyclic
  rw [hrecord, hcalls', hplain, hcalls, ← firsts_nil]
  exact hfirsts

/-- Of a list with the purpose `sizeof x` and the value `x`, the operand of `sizeof` is the first
visit of `x`, and the value is no visit at all. -/
theorem walkTree_firsts_sizeofList :
    (∃ u, walkTree (.skipping (· = ⟨8⟩)) ⟨9⟩ ⟨(), some [], .ofArena .sizeofList .standard⟩ =
      .ok none u) ∧
    treeCalls (.skipping (· = ⟨8⟩)) ⟨9⟩ ⟨(), some [], .ofArena .sizeofList .standard⟩ =
      [⟨⟨9⟩, 0⟩, ⟨⟨7⟩, 0⟩, ⟨⟨6⟩, 1⟩, ⟨⟨8⟩, 0⟩] := by
  obtain ⟨t, hrun⟩ := answer?_eq_some_iff.1 (show (walkTree (.skipping (· = ⟨8⟩)) ⟨9⟩).answer?
    ⟨(), none, .ofArena .sizeofList .standard⟩ = some none by decide +kernel)
  have hcalls : treeCalls (.skipping (· = ⟨8⟩)) ⟨9⟩ ⟨(), none, .ofArena .sizeofList .standard⟩ =
      [⟨⟨9⟩, 0⟩, ⟨⟨7⟩, 0⟩, ⟨⟨6⟩, 1⟩, ⟨⟨6⟩, 0⟩, ⟨⟨8⟩, 0⟩] := by decide +kernel
  have hkinds : ∀ id ∈ ([⟨6⟩, ⟨7⟩, ⟨8⟩, ⟨9⟩] : List NodeId), ∀ kind,
      Arena.sizeofList.kindOf id = .ok kind → kind.hasComponents = false := by
    simp only [List.forall_mem_cons]
    refine ⟨?_, ?_, ?_, ?_, by simp⟩ <;> rintro _ ⟨⟩ <;> rfl
  obtain ⟨hreturns, hfirsts⟩ := walkTree_firsts
    (s := ⟨(), none, .ofArena .sizeofList .standard⟩) (Visitor.steady_skipping (· = ⟨8⟩) _) rfl rfl
    (fun id kind hid => hkinds id (Arena.beneath_sizeofList hid) kind) hrun
  refine ⟨hreturns, hfirsts.trans ?_⟩
  rw [hcalls]
  decide

end Walk

end ExprTree
