import Mathlib.Data.Set.Card
import Mathlib.Logic.Relation
import ExprTree.Proofs.Walks

/-!
# Walks that know where they have been

A walk with a set of visited nodes is a depth-first search of the graph of walk edges, which may be
cyclic.  It needs as many levels as there are new nodes, and one more to find that a node has been
visited.

* `Arena.Explored` — the order of a depth-first search.
* `Arena.Explored.mem_iff` — what a search visits can be reached around what had been visited.
* `Walk.explores_within` — a walk is a search.
* `Walk.Sharing` — walks that share what they have visited.
* `Walk.walkTree_search` — one walk visits what it can reach, many walks visit no node twice.
-/

namespace ExprTree

namespace Arena

/-- The nodes to which the walk edges of a node lead, in order. -/
def edges (a : Arena) (id : NodeId) : Except Fault (List NodeId) :=
  (a.children true id).map (·.map Child.node)

/-- There is a walk edge between two nodes. -/
def Edge (a : Arena) (id target : NodeId) : Prop := ∃ ids, a.edges id = .ok ids ∧ target ∈ ids

/-- A path of walk edges that avoids the visited nodes. -/
def Reached (a : Arena) (V : Visited) (root id : NodeId) : Prop :=
  root ∉ V ∧ Relation.ReflTransGen (fun x y => a.Edge x y ∧ y ∉ V) root id

/-- The order of a depth-first search from nodes, where some nodes have been visited before: a node
comes before what is found through it, and what is found through one edge before what is found
through the next. -/
inductive Explored (a : Arena) : Visited → List NodeId → List NodeId → Prop
  | nil {V : Visited} : Explored a V [] []
  | again {V : Visited} {id : NodeId} {ids order : List NodeId} (hid : id ∈ V)
    (hrest : Explored a V ids order) : Explored a V (id :: ids) order
  | first {V : Visited} {id : NodeId} {ids targets below rest : List NodeId} (hid : id ∉ V)
    (htargets : a.edges id = .ok targets) (hbelow : Explored a (id :: V) targets below)
    (hrest : Explored a (below.reverse ++ id :: V) ids rest) :
    Explored a V (id :: ids) (id :: below ++ rest)

theorem Reached.mono {a : Arena} {V V' : Visited} {root id : NodeId} (h : a.Reached V' root id)
    (hV : V ⊆ V') : a.Reached V root id :=
  ⟨fun hroot => h.1 (hV hroot),
    Relation.ReflTransGen.mono (fun _ _ hstep => ⟨hstep.1, fun hy => hstep.2 (hV hy)⟩) _ _ h.2⟩

namespace Explored

variable {a : Arena} {V : Visited} {ids order : List NodeId} {id target : NodeId}

theorem append {ids' order' : List NodeId} (h : a.Explored V ids order)
    (h' : a.Explored (order.reverse ++ V) ids' order') :
    a.Explored V (ids ++ ids') (order ++ order') := by
  induction h with
  | nil => simpa using h'
  | again hid _ ih => exact .again hid (ih h')
  | first hid htargets hbelow _ _ ih =>
    rw [List.append_assoc]
    exact .first hid htargets hbelow (ih (by simpa using h'))

/-- Only nodes that have not been visited before are visited. -/
theorem fresh (h : a.Explored V ids order) : ∀ id ∈ order, id ∉ V := by
  induction h with
  | nil => simp
  | again _ _ ih => exact ih
  | first hid _ _ _ ihbelow ihrest =>
    intro id hmem
    simp only [List.cons_append, List.mem_cons, List.mem_append] at hmem
    rcases hmem with rfl | hmem | hmem
    · exact hid
    · exact fun hV => ihbelow id hmem (by simp [hV])
    · exact fun hV => ihrest id hmem (by simp [hV])

/-- No node is visited twice. -/
theorem nodup (h : a.Explored V ids order) : order.Nodup := by
  induction h with
  | nil => exact List.nodup_nil
  | again _ _ ih => exact ih
  | first hid _ hbelow hrest ihbelow ihrest =>
    have hbelow := hbelow.fresh
    have hrest := hrest.fresh
    rw [List.cons_append, List.nodup_cons, List.nodup_append]
    refine ⟨fun hmem => ?_, ihbelow, ihrest, fun x hx y hy hxy => ?_⟩
    · rcases List.mem_append.1 hmem with hmem | hmem
      · exact hbelow _ hmem (by simp)
      · exact hrest _ hmem (by simp)
    · exact hrest y hy (by simp [← hxy, hx])

/-- The nodes from which the search starts are visited, or have been. -/
theorem mem_of_mem (h : a.Explored V ids order) (hid : id ∈ ids) : id ∈ V ∨ id ∈ order := by
  induction h with
  | nil => simp at hid
  | again hV _ ih =>
    rcases List.mem_cons.1 hid with rfl | hid
    · exact .inl hV
    · exact ih hid
  | first _ _ _ _ _ ih =>
    rcases List.mem_cons.1 hid with rfl | hid
    · simp
    · have := ih hid
      simp only [List.mem_append, List.mem_reverse, List.mem_cons] at this ⊢
      tauto

/-- No edge leads from a visited node to one that is not. -/
theorem closed (h : a.Explored V ids order) (hid : id ∈ order) (hedge : a.Edge id target) :
    target ∈ V ∨ target ∈ order := by
  induction h with
  | nil => simp at hid
  | again _ _ ih => exact ih hid
  | first _ htargets hbelow _ ihbelow ihrest =>
    simp only [List.cons_append, List.mem_cons, List.mem_append] at hid ⊢
    rcases hid with rfl | hid | hid
    · obtain ⟨ids, hids, htarget⟩ := hedge
      cases htargets.symm.trans hids
      have := hbelow.mem_of_mem htarget
      simp only [List.mem_cons] at this
      tauto
    · have := ihbelow hid
      simp only [List.mem_cons] at this
      tauto
    · have := ihrest hid
      simp only [List.mem_append, List.mem_reverse, List.mem_cons] at this
      tauto

/-- Only nodes to which a path leads are visited. -/
theorem reached (h : a.Explored V ids order) (hid : id ∈ order) :
    ∃ root ∈ ids, a.Reached V root id := by
  induction h with
  | nil => simp at hid
  | again _ _ ih =>
    obtain ⟨root, hroot, hpath⟩ := ih hid
    exact ⟨root, by simp [hroot], hpath⟩
  | first hnew htargets _ _ ihbelow ihrest =>
    simp only [List.cons_append, List.mem_cons, List.mem_append] at hid
    rcases hid with rfl | hid | hid
    · exact ⟨_, List.mem_cons_self, hnew, .refl⟩
    · obtain ⟨target, htarget, hpath⟩ := ihbelow hid
      have hpath := hpath.mono fun x hx => List.mem_cons_of_mem _ hx
      exact ⟨_, List.mem_cons_self, hnew, .head ⟨⟨_, htargets, htarget⟩, hpath.1⟩ hpath.2⟩
    · obtain ⟨root, hroot, hpath⟩ := ihrest hid
      exact ⟨root, by simp [hroot], hpath.mono fun x hx => by simp [hx]⟩

/-- A search visits what can be reached without passing nodes that have been visited before. -/
theorem mem_iff (h : a.Explored V ids order) :
    id ∈ order ↔ ∃ root ∈ ids, a.Reached V root id := by
  constructor
  · exact h.reached
  · rintro ⟨root, hroot, hnew, hpath⟩
    induction hpath with
    | refl => exact (h.mem_of_mem hroot).resolve_left hnew
    | tail _ hstep ih => exact (h.closed ih hstep.1).resolve_left hstep.2

end Explored

/-- Every handle that a search can come across is one of the arena. -/
def Explorable (a : Arena) (V : Visited) (root : NodeId) : Prop :=
  (a.find? root).isSome = true ∧ ∀ id, a.Reached V root id →
    ∃ ids, a.edges id = .ok ids ∧ ∀ target ∈ ids, (a.find? target).isSome = true

theorem Explorable.finite {a : Arena} {V : Visited} {root : NodeId} (h : a.Explorable V root) :
    {id | a.Reached V root id}.Finite := by
  refine ((Finset.range a.size).image NodeId.mk).finite_toSet.subset fun id hid => ?_
  have hfind : (a.find? id).isSome = true := by
    obtain ⟨hroot, hpath⟩ := hid
    cases hpath with
    | refl => exact h.1
    | tail hpath hstep =>
      obtain ⟨⟨ids, hids, hmem⟩, -⟩ := hstep
      obtain ⟨ids', hids', hsome⟩ := h.2 _ ⟨hroot, hpath⟩
      cases hids.symm.trans hids'
      exact hsome id hmem
  have hlt : id.index < a.size := by
    by_contra hge
    rw [Arena.find?_eq_none_iff.2 (by omega)] at hfind
    cases hfind
  simpa using ⟨id.index, hlt, rfl⟩

/-- The arena of two commas that contain each other twice. -/
def ring : Arena :=
  { Arena.initial with
    nodes := Arena.initial.nodes ++ #[
      ⟨.comma ⟨7⟩ ⟨7⟩, some .intType, .empty, .unknown⟩,
      ⟨.comma ⟨6⟩ ⟨6⟩, some .intType, .empty, .unknown⟩] }

end Arena

namespace Walk

open ExprTree.Action

variable {σ : Type} {a : Arena} {s t u : WalkState (List Call × σ)} {ids : List NodeId}

/-- A walk with a set of visited nodes searches from nodes in order. -/
def Explores (a : Arena) (ids : List NodeId) (s t : WalkState (List Call × σ)) : Prop :=
  s.context.SamePlace t.context ∧ ∃ order : List NodeId,
    t.visited = s.visited.map (order.reverse ++ ·) ∧
    t.calls.map Call.node = s.calls.map Call.node ++ order ∧
    ∀ V, s.visited = some V → a.Explored V ids order

theorem course_explores (a : Arena) :
    Course fun cs (s t : WalkState (List Call × σ)) => Explores a (cs.map Child.node) s t where
  nil s := ⟨.refl _, [], by simp, by simp, fun _ _ => .nil⟩
  append := by
    rintro xs ys s t u ⟨hst, order, hV, hcalls, ho⟩ ⟨htu, order', hV', hcalls', ho'⟩
    refine ⟨hst.trans htu, order ++ order', ?_, ?_, fun V hs => ?_⟩
    · rw [hV', hV, Option.map_map]
      congr 1
      funext V
      simp
    · rw [hcalls', hcalls, List.append_assoc]
    · rw [List.map_append]
      exact (ho V hs).append (ho' _ (by rw [hV, hs]; rfl))
  arena_eq h := h.1.arena_eq
  isSome_visited h := by
    obtain ⟨-, order, hV, -⟩ := h
    rw [hV, Option.isSome_map]

/-- One level of a search: the node has been visited before. -/
theorem explores_again {v : Visitor (List Call × σ)}
    {self : NodeId → Walk (List Call × σ) (Option NodeId)} {V : Visited} {id : NodeId}
    (ha : s.context.arena = a) (hs : s.visited = some V) (hid : id ∈ V)
    (hfind : (a.find? id).isSome = true) (hroom : 0 < s.context.nesting.room) :
    Returns (step v self id) (fun r t => r = none ∧ Explores a [id] s t) s := by
  obtain ⟨n, hn⟩ := Option.isSome_iff_exists.1 hfind
  refine (returns_again (ha ▸ hn) hroom hs hid).mono ?_
  rintro r _ ⟨rfl, rfl⟩
  refine ⟨rfl, .refl _, [], ?_, by simp, fun V' hV' => ?_⟩
  · rw [hs]
    rfl
  · cases hs.symm.trans hV'
    exact .again hid .nil

/-- One level of a search: the node is new, and below it is searched. -/
theorem explores_first {v : Visitor σ} {self : NodeId → Walk (List Call × σ) (Option NodeId)}
    {V : Visited} {id : NodeId} {cs : List Child} (hv : v.Steady a fun _ => true)
    (ha : s.context.arena = a) (hs : s.visited = some V) (hid : id ∉ V)
    (hcs : a.children true id = .ok cs) (hroom : 0 < s.context.nesting.room)
    (h : ∀ t : WalkState (List Call × σ), t.context.arena = a →
      t.context.nesting.room + 1 = s.context.nesting.room →
      (∃ V', t.visited = some V' ∧ id ∈ V' ∧ V ⊆ V') → ∀ c ∈ cs,
        Returns (self c.node) (fun r u => r = none ∧ Explores a [c.node] t u) t) :
    Returns (step v.recorded self id) (fun r t => r = none ∧ Explores a [id] s t) s := by
  obtain ⟨kind, hkind, -⟩ := Arena.bind_eq_ok_iff.1 hcs
  obtain ⟨n, hn, -⟩ := Arena.kindOf_eq_ok_iff.1 hkind
  refine returns_step (ha ▸ hn) hroom fun inner hinner => ?_
  have harrive := arrive_of_notMem
    (s := { s with context := { s.context with nesting := inner } }) hs hid
  refine ((course_explores a).node hv harrive ha hcs ?_).mono ?_
  · -- every child is walked in an arena and with a room that the walks before it have left alone
    rintro t ht c hc before u ⟨hplace, order, hV, -⟩
    have hplace := ht.samePlace.trans hplace
    refine returns_child (R := fun w => ∃ order : List NodeId,
      w.visited = u.visited.map (order.reverse ++ ·) ∧
      w.calls.map Call.node = u.calls.map Call.node ++ order ∧
      ∀ V, u.visited = some V → a.Explored V [c.node] order) (fun _ _ hR => hR) ?_
    refine h (inside u c) (hplace.arena_eq.trans ha) ?_ ⟨order.reverse ++ id :: V, ?_, by simp, ?_⟩
      c hc
    · show u.context.nesting.room + 1 = _
      rw [hplace.nesting_eq, hinner]
    · show u.visited = _
      rw [hV, ht.visited_eq]
      rfl
    · intro x hx
      simp [hx]
  · rintro r u ⟨rfl, t, ht, hplace, order, hV, hcalls, ho⟩
    have hplace := ht.samePlace.trans hplace
    refine ⟨hplace.nesting_eq, rfl, ⟨hplace.arena_eq, rfl, hplace.depth_eq⟩, id :: order, ?_, ?_,
      ?_⟩
    · show u.visited = _
      rw [hV, ht.visited_eq, hs]
      simp
    · show u.calls.map Call.node = _
      rw [hcalls, ht.calls_eq]
      simp [WalkState.calls]
    · intro V' hV'
      cases hs.symm.trans hV'
      have hbelow := ho (id :: V) ht.visited_eq
      have hedges : a.edges id = .ok (cs.map Child.node) := Arena.map_eq_ok_iff.2 ⟨cs, hcs, rfl⟩
      simpa using Arena.Explored.first hid hedges hbelow .nil

/-- A walk that knows where it has been searches the arena, when there is room for the new nodes and
one level more. -/
theorem explores_within {v : Visitor σ} {W : Finset NodeId} {U : Visited}
    (hv : v.Steady a fun _ => true)
    (hW : ∀ id ∈ W, ∃ cs, a.children true id = .ok cs ∧
      ∀ c ∈ cs, (c.node ∈ W ∨ c.node ∈ U) ∧ (a.find? c.node).isSome = true)
    (n : Nat) (id : NodeId) (s : WalkState (List Call × σ)) (V : Visited)
    (ha : s.context.arena = a) (hs : s.visited = some V) (hV : U ⊆ V)
    (hid : id ∈ W ∨ id ∈ U) (hfind : (a.find? id).isSome = true)
    (hn : (W.filter (· ∉ V)).card ≤ n)
    (hroom : (W.filter (· ∉ V)).card < s.context.nesting.room) :
    Returns (within v.recorded n id) (fun r t => r = none ∧ Explores a [id] s t) s := by
  have hagain : id ∈ V → ∀ self : NodeId → Walk (List Call × σ) (Option NodeId),
      Returns (step v.recorded self id) (fun r t => r = none ∧ Explores a [id] s t) s :=
    fun hmem self => explores_again ha hs hmem hfind (by omega)
  induction n generalizing id s V with
  | zero =>
    refine hagain ?_ _
    rcases hid with hid | hid
    · by_contra hmem
      have hmem : id ∈ W.filter (· ∉ V) := by simp [hid, hmem]
      rw [Finset.card_eq_zero.1 (Nat.le_zero.1 hn)] at hmem
      simp at hmem
    · exact hV hid
  | succ n ih =>
    by_cases hmem : id ∈ V
    · exact hagain hmem _
    have hid : id ∈ W := hid.resolve_right fun h => hmem (hV h)
    obtain ⟨cs, hcs, htargets⟩ := hW id hid
    refine explores_first hv ha hs hmem hcs (by omega) ?_
    rintro t hta htroom ⟨V', hV', hidV', hVV'⟩ c hc
    -- the node itself is no longer new below it
    have hless : (W.filter (· ∉ V')).card < (W.filter (· ∉ V)).card := by
      refine Finset.card_lt_card (Finset.ssubset_iff_of_subset ?_ |>.2 ⟨id, ?_, ?_⟩)
      · intro x hx
        simp only [Finset.mem_filter] at hx ⊢
        exact ⟨hx.1, fun h => hx.2 (hVV' h)⟩
      · simp [hid, hmem]
      · simp [hidV']
    obtain ⟨hmember, hcfind⟩ := htargets c hc
    have hVsub := List.Subset.trans hV hVV'
    refine ih c.node t V' hta hV' hVsub hmember hcfind (by omega) (by omega) fun h self => ?_
    exact explores_again hta hV' h hcfind (by omega)

/-! ### Walks that share what they have visited -/

/-- What has been visited in addition is what the visitor was called at, once each. -/
def Accounts (V : Visited) (s : WalkState (List Call × σ)) : Prop :=
  s.visited = some ((s.calls.map Call.node).reverse ++ V) ∧ (s.calls.map Call.node).Nodup ∧
    ∀ c ∈ s.calls, c.node ∉ V

theorem abreast_accounts (V : Visited) :
    Abreast fun (s : WalkState (List Call × σ)) t => s = t ∧ Accounts V s where
  visited_eq h := h.1 ▸ rfl
  context_eq h := h.1 ▸ rfl
  setContext h _ := ⟨h.1 ▸ rfl, h.2⟩

theorem meet_accounts (V : Visited) (v : Visitor σ) :
    Meet (fun (s : WalkState (List Call × σ)) t => s = t ∧ Accounts V s)
      v.recorded v.recorded := by
  rintro id k l hkl s _ ⟨rfl, hV, hnodup, hfresh⟩
  by_cases hid : id ∈ (s.calls.map Call.node).reverse ++ V
  · rw [bind_eq_of_ok (arrive_of_mem hV hid), bind_eq_of_ok (arrive_of_mem hV hid)]
    exact .ok ⟨rfl, hV, hnodup, hfresh⟩
  rw [bind_eq_of_ok (arrive_of_notMem hV hid), bind_eq_of_ok (arrive_of_notMem hV hid)]
  simp only [List.mem_append, List.mem_reverse, not_or] at hid
  -- the node is recorded, whether the visitor ends in a fault or not
  have haccounts : ∀ (user : σ) (context : Context),
      Accounts V ⟨(s.calls ++ [⟨id, s.context.unevaluatedDepth⟩], user),
        some (id :: ((s.calls.map Call.node).reverse ++ V)), context⟩ := by
    refine fun user context => ⟨?_, ?_, fun c hc => ?_⟩
    · simp [WalkState.calls]
    · simp only [WalkState.calls, List.map_append, List.map_cons, List.map_nil]
      exact List.nodup_append.2 ⟨hnodup, by simp, by
        rintro x hx y hy rfl
        exact hid.1 (List.mem_singleton.1 hy ▸ hx)⟩
    · rcases List.mem_append.1 hc with hc | hc
      · exact hfresh c hc
      · rw [List.mem_singleton.1 hc]
        exact hid.2
  refine Alike.bind ?_ hkl
  simp only [visit, Visitor.recorded]
  cases v id (s.user.2, s.context) with
  | ok answer t => exact .ok ⟨rfl, haccounts t.1 t.2⟩
  | error e t => exact .error ⟨rfl, haccounts t.1 t.2⟩

/-- Walks, one after another, each with a visitor and a context of its own, that share what they
have visited: what had been visited before, the nodes at which visitors are called, and what has
been visited afterwards. -/
inductive Sharing : Visited → List NodeId → Visited → Prop
  | nil {V : Visited} : Sharing V [] V
  | tree {σ : Type} {V V' V'' : Visited} {order : List NodeId} (v : Visitor σ) (id : NodeId)
    (s : WalkState σ) (hs : s.visited = some V)
    (hend : ((walkTree v id).last s).visited = some V') (hrest : Sharing V' order V'') :
    Sharing V ((treeCalls v id s).map Call.node ++ order) V''
  | language {σ : Type} {V V' V'' : Visited} {order : List NodeId} (v : Visitor σ) (id : NodeId)
    (descend : Bool) (s : WalkState σ) (hs : s.visited = some V)
    (hend : ((walkLanguage v id descend).last s).visited = some V')
    (hrest : Sharing V' order V'') :
    Sharing V ((languageCalls v id descend s).map Call.node ++ order) V''

theorem accounts_recording {V : Visited} {s : WalkState σ} (hs : s.visited = some V) :
    Accounts V s.recording := by
  simp [Accounts, WalkState.calls, WalkState.recording, hs]

theorem accounts_treeCalls {V : Visited} (v : Visitor σ) (id : NodeId) {s : WalkState σ}
    (hs : s.visited = some V) : Accounts V ((walkTree v.recorded id).last s.recording) :=
  ((abreast_accounts V).within (meet_accounts V v) _ id ⟨rfl, accounts_recording hs⟩ :
    Alike _ (walkTree v.recorded id s.recording) (walkTree v.recorded id s.recording)).last.2

theorem accounts_languageCalls {V : Visited} (v : Visitor σ) (id : NodeId) (descend : Bool)
    {s : WalkState σ} (hs : s.visited = some V) :
    Accounts V ((walkLanguage v.recorded id descend).last s.recording) :=
  ((abreast_accounts V).language ((abreast_accounts V).within (meet_accounts V v) _) id descend
    ⟨rfl, accounts_recording hs⟩ : Alike _ (walkLanguage v.recorded id descend s.recording)
      (walkLanguage v.recorded id descend s.recording)).last.2

/-- A walk and the walks after it that share what it has visited. -/
theorem Accounts.append {V V' : Visited} {order : List NodeId} {t : WalkState (List Call × σ)}
    (h : Accounts V t) (ht : t.visited = some V')
    (hrest : order.Nodup ∧ ∀ id ∈ order, id ∉ V') :
    (t.calls.map Call.node ++ order).Nodup ∧ ∀ id ∈ t.calls.map Call.node ++ order, id ∉ V := by
  obtain ⟨hV, hnodup, hfresh⟩ := h
  cases hV.symm.trans ht
  refine ⟨List.nodup_append.2 ⟨hnodup, hrest.1, fun x hx y hy hxy => ?_⟩, fun id hid => ?_⟩
  · exact hrest.2 y hy (by simp [← hxy, hx])
  · rcases List.mem_append.1 hid with hid | hid
    · obtain ⟨c, hc, rfl⟩ := List.mem_map.1 hid
      exact hfresh c hc
    · exact fun h => hrest.2 id hid (by simp [h])

/-- Walks that share what they have visited call no visitor at a node that has been visited. -/
theorem Sharing.once {V V' : Visited} {order : List NodeId} (h : Sharing V order V') :
    order.Nodup ∧ ∀ id ∈ order, id ∉ V := by
  induction h with
  | nil => simp
  | tree v id s hs hend _ ih =>
    refine (accounts_treeCalls v id hs).append ?_ ih
    rw [← hend, ← (walkTree_recorded v id s).last]
    rfl
  | language v id descend s hs hend _ ih =>
    refine (accounts_languageCalls v id descend hs).append ?_ ih
    rw [← hend, ← (walkLanguage_recorded v id descend s).last]
    rfl

/-! ### Searches -/

theorem walkTree_explores {v : Visitor σ} {s : WalkState σ} {V : Visited} {root : NodeId}
    (hv : v.Steady a fun _ => true) (ha : s.context.arena = a) (hs : s.visited = some V)
    (h : a.Explorable V root)
    (hroom : s.context.nesting.depth + {id | a.Reached V root id}.ncard + 1 ≤
      s.context.nesting.limit) :
    Returns (walkTree v.recorded root)
      (fun r t => r = none ∧ Explores a [root] s.recording t) s.recording := by
  have hfin := h.finite
  have hcard : (hfin.toFinset.filter (· ∉ V)).card < s.context.nesting.room := by
    have := Finset.card_filter_le hfin.toFinset (· ∉ V)
    rw [Set.ncard_eq_toFinset_card _ hfin] at hroom
    unfold Nesting.room
    omega
  have hlevels : s.context.nesting.room ≤ levels s.recording.context.nesting :=
    Nat.le_max_left ..
  refine explores_within (W := hfin.toFinset) (U := V) hv (fun id hid => ?_) _ root s.recording V
    ha hs (List.Subset.refl V) ?_ h.1 (by omega) hcard
  · have hid : a.Reached V root id := by simpa using hid
    obtain ⟨ids, hids, hsome⟩ := h.2 id hid
    obtain ⟨cs, hcs, rfl⟩ := Arena.map_eq_ok_iff.1 hids
    refine ⟨cs, hcs, fun c hc => ⟨?_, hsome _ (List.mem_map_of_mem hc)⟩⟩
    by_cases hmem : c.node ∈ V
    · exact .inr hmem
    · exact .inl (by simpa using ⟨hid.1, hid.2.tail ⟨⟨_, hids, List.mem_map_of_mem hc⟩, hmem⟩⟩)
  · by_cases hroot : root ∈ V
    · exact .inr hroot
    · exact .inl (by simpa using ⟨hroot, .refl⟩)

/-- A walk that knows where it has been, with a visitor that never ends it, never skips children and
leaves the arena alone, is a depth-first search: with room for as many levels as there are nodes
that can be reached without passing nodes visited before, and one more, it returns nothing, and the
visitor is called once at each of these nodes, in the order of the search, and at no other.  And
whatever visitors do, walks that share what they have visited call no visitor twice at a node. -/
theorem walkTree_search :
    (∀ {σ : Type} {v : Visitor σ} {a : Arena} {root : NodeId} {V : Visited} {s : WalkState σ},
      v.Steady a (fun _ => true) → s.context.arena = a → s.visited = some V →
      a.Explorable V root →
      s.context.nesting.depth + {id | a.Reached V root id}.ncard + 1 ≤ s.context.nesting.limit →
      ∃ t V' order, walkTree v root s = .ok none t ∧ t.visited = some V' ∧
        (treeCalls v root s).map Call.node = order ∧ a.Explored V [root] order ∧ order.Nodup ∧
        (∀ id, id ∈ order ↔ a.Reached V root id) ∧
        ∀ id, id ∈ V' ↔ id ∈ V ∨ a.Reached V root id) ∧
    ∀ {V V' : Visited} {order : List NodeId}, Sharing V order V' →
      order.Nodup ∧ ∀ id ∈ order, id ∉ V := by
  refine ⟨fun {σ v a root V s} hv ha hs hclosed hroom => ?_, fun h => h.once⟩
  obtain ⟨r, t, hrun, hrecord, rfl, -, order, hV, hcalls, ho⟩ :=
    treeCalls_of_returns (walkTree_explores hv ha hs hclosed hroom)
  have ho : a.Explored V [root] order := ho V hs
  have hreached : ∀ id, id ∈ order ↔ a.Reached V root id := fun id => by simp [ho.mem_iff]
  refine ⟨t.forget, order.reverse ++ V, order, hrun, ?_, ?_, ho, ho.nodup, hreached, fun id => ?_⟩
  · show t.visited = _
    rw [hV]
    show s.visited.map _ = _
    rw [hs]
    rfl
  · rw [hrecord, hcalls]
    rfl
  · rw [List.mem_append, List.mem_reverse, hreached]
    exact or_comm

/-- Two commas that contain each other are visited once each, and not again by a second walk. -/
theorem walkTree_search_ring :
    (∃ t V, walkTree (.skipping fun _ => false) ⟨6⟩
        ⟨(), some [], .ofArena .ring .standard⟩ = .ok none t ∧
      t.visited = some V ∧ ∀ id, id ∈ V ↔ Arena.ring.Reached [] ⟨6⟩ id) ∧
    ((treeCalls (.skipping fun _ => false) ⟨6⟩
        ⟨(), some [], .ofArena .ring .standard⟩).map Call.node ++
      (treeCalls (.skipping fun _ => false) ⟨7⟩
        ⟨(), some [⟨7⟩, ⟨6⟩], .ofArena .ring .standard⟩).map Call.node).Nodup := by
  have hedges : ∀ id, id = ⟨6⟩ ∨ id = ⟨7⟩ → Arena.ring.edges id = .ok [⟨7⟩, ⟨7⟩] ∨
      Arena.ring.edges id = .ok [⟨6⟩, ⟨6⟩] := by
    rintro id (rfl | rfl)
    · exact .inl rfl
    · exact .inr rfl
  have hreached : ∀ id, Arena.ring.Reached [] ⟨6⟩ id → id = ⟨6⟩ ∨ id = ⟨7⟩ := by
    rintro id ⟨-, hpath⟩
    induction hpath with
    | refl => exact .inl rfl
    | tail _ hstep ih =>
      obtain ⟨⟨ids, hids, hmem⟩, -⟩ := hstep
      rcases hedges _ ih with h | h
      · cases h.symm.trans hids
        exact .inr (by simpa using hmem)
      · cases h.symm.trans hids
        exact .inl (by simpa using hmem)
  have hclosed : Arena.ring.Explorable [] ⟨6⟩ := by
    refine ⟨rfl, fun id hid => ?_⟩
    rcases hedges id (hreached id hid) with h | h
    · exact ⟨_, h, by decide⟩
    · exact ⟨_, h, by decide⟩
  have hcard : {id | Arena.ring.Reached [] ⟨6⟩ id}.ncard ≤ 2 := by
    have hsub : {id | Arena.ring.Reached [] ⟨6⟩ id} ⊆ ({⟨6⟩, ⟨7⟩} : Set NodeId) :=
      fun id hid => by simpa using hreached id hid
    refine (Set.ncard_le_ncard hsub).trans ((Set.ncard_insert_le _ _).trans ?_)
    rw [Set.ncard_singleton]
  have hfirst : ((walkTree (.skipping fun _ => false) ⟨6⟩).last
      ⟨(), some [], .ofArena .ring .standard⟩).visited = some [⟨7⟩, ⟨6⟩] := by decide +kernel
  have hsecond : ((walkTree (.skipping fun _ => false) ⟨7⟩).last
      ⟨(), some [⟨7⟩, ⟨6⟩], .ofArena .ring .standard⟩).visited = some [⟨7⟩, ⟨6⟩] := by
    decide +kernel
  constructor
  · obtain ⟨t, V, -, hrun, hV, -, -, -, -, hmem⟩ := walkTree_search.1
      (Visitor.steady_skipping (fun _ => false) Arena.ring)
      (s := ⟨(), some [], .ofArena .ring .standard⟩) rfl rfl hclosed (by
        show 0 + _ + 1 ≤ 4096
        omega)
    exact ⟨t, V, hrun, hV, fun id => by simp [hmem]⟩
  · have hboth := walkTree_search.2 (.tree (.skipping fun _ => false) ⟨6⟩ _ rfl hfirst
      (.tree (.skipping fun _ => false) ⟨7⟩ _ rfl hsecond .nil))
    simpa only [List.append_nil] using hboth.1

end Walk

end ExprTree
