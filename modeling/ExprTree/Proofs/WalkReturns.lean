import ExprTree.Proofs.Balance
import ExprTree.Proofs.Closed
import ExprTree.Proofs.Questions

/-!
# Walks return

The children of a node of a closed arena are nodes of the arena.  So a walk returns when its visitor
does, if that leaves a closed arena in which all nodes are still there, and the levels of recursion
and the unevaluated operands as they were.  The visitor may change the arena otherwise.

* `Arena.Closed.languageChildren?`, `Arena.Closed.genericChildren` — the children are there.
* `Context.Keeps` — what a visitor leaves of a context.
* `Visitor.Careful` — a visitor that returns and leaves it.
* `Walk.careful_step`, `Walk.careful_walkTree`, `Walk.careful_walkLanguage` — walks with such a
  visitor.
-/

namespace ExprTree

/-- The component types of a type are in the fields. -/
theorem NodeKind.typeFields_in_fields (k : NodeKind) :
    (∀ part ∈ k.typeFields.1, part ∈ k.nodes) ∧
      (k.typeFields.2 = .empty ∨ k.typeFields.2 ∈ k.slices) := by
  cases k
  all_goals simp [typeFields, nodes, slices, fields, Field.nodes, Field.slices]

namespace Arena

variable {a : Arena} {id : NodeId}

theorem Closed.temporaryParts (h : a.Closed) (hid : (a.find? id).isSome = true) :
    ∃ parts, a.temporaryParts id = .ok parts ∧ ∀ x ∈ parts, (a.find? x).isSome = true := by
  obtain ⟨n, hn⟩ := Option.isSome_iff_exists.1 hid
  refine ⟨_, map_node_of_find? hn, fun x hx => (h.holds id n hn).nodes x ?_⟩
  split at hx
  · rename_i hk
    split at hx
    · simpa [hk, NodeKind.nodes, NodeKind.fields, Field.nodes] using hx
    · cases hx
  · cases hx

theorem Closed.returnedParts {call : Option NodeId} (h : a.Closed)
    (hid : (a.find? id).isSome = true) (hcall : ∀ x ∈ call, (a.find? x).isSome = true) :
    ∃ parts, a.returnedParts id call = .ok parts ∧ ∀ x ∈ parts, (a.find? x).isSome = true := by
  obtain ⟨n, hn⟩ := Option.isSome_iff_exists.1 hid
  have htype : a.typeOf id = .ok n.type := map_node_of_find? hn
  have hparts : ∀ void : Bool, ∀ x ∈ (if void then [id] else call.toList),
      (a.find? x).isSome = true := by
    intro void x hx
    cases void with
    | true => exact List.mem_singleton.1 hx ▸ hid
    | false => exact hcall x (Option.mem_toList.1 hx)
  simp only [Arena.returnedParts, htype, bind, Except.bind]
  cases ht : n.type with
  | none => exact ⟨_, rfl, hparts false⟩
  | some type =>
    obtain ⟨m, hm⟩ := Option.isSome_iff_exists.1 (h.type id n hn type ht)
    have hvoid : a.isVoidType type = .ok (m.kind == .voidType) :=
      map_kindOf_of_find? hm
    simp only [hvoid]
    exact ⟨_, rfl, hparts _⟩

end Arena

namespace LanguageChildren

variable {c : Child} {nodes : List NodeId} {node : NodeId}

@[simp, grind =] theorem mem_children_before :
    c ∈ (before nodes).children ↔ c.node ∈ nodes ∧ c.unevaluated = false := by
  obtain ⟨id, unevaluated⟩ := c
  simp [before, eq_comm]

@[simp, grind =] theorem mem_children_only :
    c ∈ (only nodes).children ↔ c.node ∈ nodes ∧ c.unevaluated = false := by
  obtain ⟨id, unevaluated⟩ := c
  simp [only, eq_comm]

@[simp, grind =] theorem mem_children_unevaluated :
    c ∈ (unevaluated node).children ↔ c = ⟨node, true⟩ := by
  simp [unevaluated]

end LanguageChildren

namespace Arena

variable {a : Arena} {id : NodeId}

/-- The children of the language are there. -/
theorem Closed.languageChildren? (h : a.Closed) (hid : (a.find? id).isSome = true) :
    ∃ o, a.languageChildren? id = .ok o ∧
      ∀ parts ∈ o, ∀ c ∈ parts.children, (a.find? c.node).isSome = true := by
  obtain ⟨n, hn⟩ := Option.isSome_iff_exists.1 hid
  have hnode : a.node id = .ok n := node_eq_ok_iff.2 hn
  have hnodes := (h.holds id n hn).nodes
  have htype : ∀ t, n.type = some t → (a.find? t).isSome = true := h.type id n hn
  simp only [Arena.languageChildren?, hnode, bind, Except.bind]
  cases hk : n.kind with
  | typePack args | valuePack args =>
    obtain ⟨ids, hids, hmem⟩ := (h.holds id n hn).slices args (by
      simp [hk, NodeKind.slices, NodeKind.fields, Field.slices])
    simp only [hids]
    refine ⟨_, rfl, ?_⟩
    rintro _ ⟨⟩ c hc
    exact hmem _ (LanguageChildren.mem_children_before.1 hc).1
  | coReturn expr call =>
    simp only [hk, NodeKind.nodes, NodeKind.fields, Field.nodes] at hnodes
    cases expr with
    | none => exact ⟨_, rfl, by simp⟩
    | some expr =>
      have hcall : ∀ x ∈ call, (a.find? x).isSome = true := fun x hx =>
        hnodes x (by simp [Option.mem_def.1 hx])
      obtain ⟨parts, hparts, hmem⟩ := h.returnedParts (hnodes expr (by simp)) hcall
      simp only [hparts]
      refine ⟨_, rfl, ?_⟩
      rintro _ ⟨⟩ c hc
      exact hmem _ (LanguageChildren.mem_children_before.1 hc).1
  | unary op operand =>
    have hoperand := hnodes operand (by rw [hk]; exact List.mem_singleton_self _)
    cases op with
    | declare =>
      obtain ⟨parts, hparts, hmem⟩ := h.temporaryParts hoperand
      simp only [hparts]
      refine ⟨_, rfl, ?_⟩
      rintro _ ⟨⟩ c hc
      exact hmem _ (LanguageChildren.mem_children_before.1 hc).1
    | sizeof | alignof | noexcept =>
      refine ⟨_, rfl, ?_⟩
      rintro _ ⟨⟩ c hc
      rwa [LanguageChildren.mem_children_unevaluated.1 hc]
    | _ => exact ⟨none, rfl, by simp⟩
  | _ =>
    simp only [hk, NodeKind.nodes, NodeKind.fields, Field.nodes, List.flatMap_cons,
      List.flatMap_nil, List.append_nil, List.mem_append, Option.mem_toList] at hnodes
    refine ⟨_, rfl, ?_⟩
    grind

/-- The operands of an expression and the component types of a type are there. -/
theorem Closed.genericChildren (h : a.Closed) (hid : (a.find? id).isSome = true)
    (isType components : Bool) : ∃ ids, a.genericChildren isType components id = .ok ids ∧
      ∀ x ∈ ids, (a.find? x).isSome = true := by
  obtain ⟨n, hn⟩ := Option.isSome_iff_exists.1 hid
  have hkind : a.kindOf id = .ok n.kind := kindOf_eq_ok_iff.2 ⟨n, hn, rfl⟩
  have hholds := h.holds id n hn
  obtain ⟨ops, hops, hopsome⟩ := hholds.handles n.kind.operands_in_fields
  obtain ⟨types, htypes, htypesome⟩ := hholds.handles n.kind.typeFields_in_fields
  unfold Arena.genericChildren
  split
  · split
    · exact ⟨types, bind_eq_ok_iff.2 ⟨_, hkind, htypes⟩, htypesome⟩
    · exact ⟨[], rfl, nofun⟩
  · exact ⟨ops, bind_eq_ok_iff.2 ⟨_, hkind, hops⟩, hopsome⟩

end Arena

/-! ### Visitors -/

/-- An arena has a property and all the nodes that were there before, and the depths are as they
were. -/
structure Context.Keeps (K : Arena → Prop) (cx cx' : Context) : Prop where
  keeps : K cx'.arena
  isSome : ∀ id, (cx.arena.find? id).isSome = true → (cx'.arena.find? id).isSome = true
  sameDepth : cx.SameDepth cx'

/-- At every node of an arena with a property a visitor returns, and leaves an arena with the
property that still has all its nodes, and the depths as they were. -/
def Visitor.Careful {σ : Type} (K : Arena → Prop) (v : Visitor σ) : Prop :=
  ∀ id user cx, K cx.arena → (cx.arena.find? id).isSome = true →
    Action.Returns (v id) (fun _ t => cx.Keeps K t.2) (user, cx)

namespace Context.Keeps

variable {K : Arena → Prop} {cx cx' cx'' : Context}

protected theorem refl (h : K cx.arena) : cx.Keeps K cx := ⟨h, fun _ h => h, .refl cx⟩

theorem trans (h : cx.Keeps K cx') (h' : cx'.Keeps K cx'') : cx.Keeps K cx'' :=
  ⟨h'.keeps, fun id hid => h'.isSome id (h.isSome id hid), h.sameDepth.trans h'.sameDepth⟩

end Context.Keeps

namespace Walk

open ExprTree.Action

variable {σ α β : Type} {K : Arena → Prop} {v : Visitor σ}
  {self : NodeId → Walk σ (Option NodeId)} {s : WalkState σ} {id : NodeId}

/-- A part of a walk returns, and leaves an arena with a property that still has all its nodes, and
the depths as they were. -/
def Careful (K : Arena → Prop) (p : Walk σ α) (s : WalkState σ) : Prop :=
  Returns p (fun _ t => s.context.Keeps K t.context) s

/-! ### Parts of a walk -/

theorem careful_pure {r : α} (h : K s.context.arena) : Careful K (pure r : Walk σ α) s :=
  returns_pure (.refl h)

theorem Careful.bind {p : Walk σ α} {f : α → Walk σ β} (hp : Careful K p s)
    (hf : ∀ r t, s.context.Keeps K t.context → Careful K (f r) t) : Careful K (p >>= f) s :=
  returns_bind (hp.mono fun r t ht => (hf r t ht).mono fun _ _ hu => ht.trans hu)

theorem careful_query {q : Arena → Except Fault α} {r : α} {f : α → Walk σ β}
    (hr : q s.context.arena = .ok r) (hf : Careful K (f r) s) :
    Careful K (liftM (Pass.query q) >>= f) s :=
  returns_bind (returns_query hr hf)

theorem careful_firstOf {walk : α → Walk σ (Option NodeId)} {xs : List α} (h : K s.context.arena)
    (hxs : ∀ x ∈ xs, ∀ t, s.context.Keeps K t.context → Careful K (walk x) t) :
    Careful K (firstOf walk xs) s := by
  induction xs generalizing s with
  | nil => exact careful_pure h
  | cons x xs ih =>
    refine (hxs x (by simp) s (.refl h)).bind fun found t ht => ?_
    cases found with
    | some found => exact careful_pure ht.keeps
    | none => exact ih ht.keeps fun y hy u hu => hxs y (by simp [hy]) u (ht.trans hu)

theorem careful_nested {span : Span} {overflow : α} {body : Walk σ α} (h : K s.context.arena)
    (hbody : ∀ inner, s.context.nesting.enter = .ok inner →
      Careful K body { s with context := { s.context with nesting := inner } }) :
    Careful K (Pass.nested span overflow body) s := by
  cases hroom : s.context.nesting.enter with
  | error e =>
    rw [Careful, nested_eq]
    exact returns_bind (returns_lift ⟨_, _, Pass.enter_of_error hroom,
      returns_pure ⟨h, fun _ h => h, rfl, rfl⟩⟩)
  | ok inner =>
    refine returns_nested hroom ((hbody inner hroom).mono fun _ t ht => ?_)
    exact ⟨ht.sameDepth.nesting_eq, ht.keeps, ht.isSome, rfl, ht.sameDepth.depth_eq⟩

/-! ### One level -/

/-- Walks from a level return, for every node of an arena with a property. -/
def Calls (K : Arena → Prop) (level : Nesting) (self : NodeId → Walk σ (Option NodeId)) : Prop :=
  ∀ id s, s.context.nesting = level → K s.context.arena →
    (s.context.arena.find? id).isSome = true → Careful K (self id) s

/-- A call in the course of a walk, for a node that is there since. -/
theorem Calls.after (hself : Calls K s.context.nesting self) {t : WalkState σ}
    (ht : s.context.Keeps K t.context) (hid : (s.context.arena.find? id).isSome = true) :
    Careful K (self id) t :=
  hself id t ht.sameDepth.nesting_eq ht.keeps (ht.isSome id hid)

theorem Calls.keeps {t : WalkState σ} (hself : Calls K s.context.nesting self)
    (ht : s.context.Keeps K t.context) : Calls K t.context.nesting self :=
  ht.sameDepth.nesting_eq ▸ hself

theorem careful_child {c : Child} (hself : Calls K s.context.nesting self)
    (h : K s.context.arena) (hc : (s.context.arena.find? c.node).isSome = true) :
    Careful K (child self c) s := by
  unfold child
  split
  · refine returns_unevaluated ?_
    refine Returns.mono (hself c.node { s with context := { s.context with
      unevaluatedDepth := s.context.unevaluatedDepth + 1 } } rfl h hc) fun _ t ht => ?_
    exact ⟨ht.sameDepth.depth_eq, ht.keeps, ht.isSome, ht.sameDepth.nesting_eq, rfl⟩
  · exact hself c.node s rfl h hc

section Level

variable (hK : ∀ a, K a → a.Closed) (hself : Calls K s.context.nesting self)
  (h : K s.context.arena) (hid : (s.context.arena.find? id).isSome = true)
include hK hself h hid

theorem careful_language {descend : Bool} : Careful K (language self id descend) s := by
  obtain ⟨o, ho, hmem⟩ := (hK _ h).languageChildren? hid
  refine careful_query ho ?_
  cases o with
  | none => exact careful_pure h
  | some parts =>
    refine (careful_firstOf h fun c hc t ht => careful_child (hself.keeps ht) ht.keeps
      (ht.isSome _ (hmem parts rfl c hc))).bind fun found t ht => ?_
    cases found with
    | some found => exact careful_pure ht.keeps
    | none => exact careful_pure ht.keeps

theorem careful_generic {isType : Bool} : Careful K (generic self isType id) s := by
  obtain ⟨ids, hids, hmem⟩ := (hK _ h).genericChildren hid isType s.visited.isSome
  refine returns_bind (p := (get : Walk σ (WalkState σ))) ⟨s, s, rfl, careful_query hids ?_⟩
  exact careful_firstOf h fun x hx t ht => hself.after ht (hmem x hx)

theorem careful_children {kind : NodeKind} : Careful K (children self kind id) s := by
  refine (careful_language hK hself h hid).bind fun walked t ht => ?_
  have hgeneric : Careful K (generic self kind.isType id) t :=
    careful_generic hK (hself.keeps ht) ht.keeps (ht.isSome id hid)
  obtain ⟨walked, descend⟩ := walked
  cases walked with
  | notHandled => exact hgeneric
  | stopped found => exact careful_pure ht.keeps
  | finished =>
    cases descend with
    | true => exact hgeneric
    | false => exact careful_pure ht.keeps

/-- What is walked at a node after the answer of the visitor. -/
theorem careful_goOn {answer : Visit} : Careful K (goOn self id answer) s := by
  unfold goOn
  cases answer.found with
  | some found => exact careful_pure h
  | none =>
    obtain ⟨n, hn⟩ := Option.isSome_iff_exists.1 hid
    refine careful_query (Arena.kindOf_eq_ok_iff.2 ⟨n, hn, rfl⟩) ?_
    split
    · exact careful_children hK hself h hid
    · unfold siblings
      split
      · -- the rest of a list is a node, too
        rename_i hk
        exact hself _ s rfl h (((hK _ h).holds id n hn).nodes _ (by
          simp [hk, NodeKind.nodes, NodeKind.fields, Field.nodes]))
      · exact careful_pure h

end Level

theorem careful_visit (hv : v.Careful K) (h : K s.context.arena)
    (hid : (s.context.arena.find? id).isSome = true) : Careful K (visit v id) s := by
  obtain ⟨answer, t, ht, hkeeps⟩ := hv id s.user s.context h hid
  exact ⟨answer, _, by rw [visit_eq, ht]; rfl, hkeeps⟩

theorem careful_step (hK : ∀ a, K a → a.Closed) (hv : v.Careful K)
    (hself : ∀ inner, s.context.nesting.enter = .ok inner → Calls K inner self)
    (h : K s.context.arena) (hid : (s.context.arena.find? id).isSome = true) :
    Careful K (step v self id) s := by
  obtain ⟨n, hn⟩ := Option.isSome_iff_exists.1 hid
  refine careful_query (Arena.map_node_of_find? hn) (careful_nested h fun inner hinner => ?_)
  rw [node_eq]
  obtain ⟨arrived, visited, hrun⟩ := arrive_runs id s.user s.visited
  refine Careful.bind ⟨arrived, _, hrun _, .refl h⟩ fun arrived t ht => ?_
  split
  · refine (careful_visit hv ht.keeps (ht.isSome id hid)).bind fun answer u hu => ?_
    have hrun := ht.trans hu
    exact careful_goOn hK (hrun.sameDepth.nesting_eq ▸ hself inner hinner) hrun.keeps
      (hrun.isSome id hid)
  · exact careful_pure ht.keeps

/-! ### Whole walks -/

/-- A walk that may go down as many levels as there is room for. -/
theorem careful_within (hK : ∀ a, K a → a.Closed) (hv : v.Careful K) {levels : Nat}
    (hlevels : s.context.nesting.room ≤ levels) (h : K s.context.arena)
    (hid : (s.context.arena.find? id).isSome = true) : Careful K (within v levels id) s := by
  induction levels generalizing s id with
  | zero =>
    refine careful_step hK hv (fun inner hinner => ?_) h hid
    have := Nesting.room_of_enter hinner
    omega
  | succ levels ih =>
    refine careful_step hK hv (fun inner hinner id t ht h hid => ih ?_ h hid) h hid
    have := Nesting.room_of_enter hinner
    rw [ht]
    omega

theorem room_le_levels (n : Nesting) : n.room ≤ levels n := Nat.le_max_left ..

theorem careful_walkTree (hK : ∀ a, K a → a.Closed) (hv : v.Careful K) (h : K s.context.arena)
    (hid : (s.context.arena.find? id).isSome = true) : Careful K (walkTree v id) s :=
  careful_within hK hv (room_le_levels _) h hid

theorem careful_walkLanguage {descend : Bool} (hK : ∀ a, K a → a.Closed) (hv : v.Careful K)
    (h : K s.context.arena) (hid : (s.context.arena.find? id).isSome = true) :
    Careful K (walkLanguage v id descend) s := by
  have hself : Calls K s.context.nesting (within v (levels s.context.nesting)) :=
    fun _ _ ht h hid => careful_within hK hv (ht ▸ room_le_levels _) h hid
  exact careful_language hK hself h hid

end Walk

end ExprTree
