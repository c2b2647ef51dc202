import ExprTree.Proofs.WalkPreorder

/-!
# Walks that are ended

A visitor that ends the walk at certain nodes makes the calls of the walk that goes on, up to and
including the first at one of these nodes: whatever the walk was in the middle of, it goes no
further.

* `Visitor.endedAt` — a visitor that ends the walk at certain nodes, and does what another does.
* `Visitor.Runs` — what the calls of a visitor, one after another, make of a context.
* `Walk.Extends` — parts of a walk that only add to the record of calls.
* `Walk.Cut` — a part of a walk, and what it comes to when the walk is ended.
* `Walk.walkTree_endedAt` — the calls of the ended walk are a prefix of those of the other.
-/

namespace ExprTree

variable {σ : Type}

/-- The visitor that does what `v` does, and ends the walk at the nodes that `hit` selects. -/
def Visitor.endedAt (v : Visitor σ) (hit : NodeId → Bool) (f : NodeId → NodeId) : Visitor σ :=
  fun id => (fun answer => if hit id then { answer with found := some (f id) } else answer) <$> v id

theorem Visitor.endedAt_never (v : Visitor σ) (f : NodeId → NodeId) :
    v.endedAt (fun _ => false) f = v := by
  funext id
  exact id_map (v id)

/-- A context at other depths. -/
abbrev Context.atDepth (cx : Context) (depth : Nat) (nesting : Nesting) : Context :=
  { cx with unevaluatedDepth := depth, nesting }

theorem Context.SamePlace.atDepth {cx cx' : Context} (h : cx.SamePlace cx') :
    cx'.atDepth cx.unevaluatedDepth cx.nesting = cx' := by
  rw [← h.depth_eq, ← h.nesting_eq]

/-- The calls of a visitor, one after another, from a context to a context: each call starts where
the one before it has ended, but with as many unevaluated operands around its node as the call says,
and at some depth. -/
inductive Visitor.Runs (v : Visitor σ) : List Call → σ × Context → σ × Context → Prop
  | nil {s : σ × Context} : Runs v [] s s
  | cons {c : Call} {calls : List Call} {user user' : σ} {cx cx' : Context} {nesting : Nesting}
    {answer : Visit} {t : σ × Context}
    (hcall : v c.node (user, cx.atDepth c.unevaluatedDepth nesting) = .ok answer (user', cx'))
    (hrest : Runs v calls (user', cx'.atDepth cx.unevaluatedDepth cx.nesting) t) :
    Runs v (c :: calls) (user, cx) t

namespace Visitor.Runs

variable {v : Visitor σ} {calls calls' : List Call} {s t u : σ × Context}

theorem append (h : v.Runs calls s t) (h' : v.Runs calls' t u) : v.Runs (calls ++ calls') s u := by
  induction h with
  | nil => exact h'
  | cons hcall _ ih => exact .cons hcall (ih h')

/-- The depths from which the calls start do not matter. -/
theorem move (h : v.Runs calls s t) (depth : Nat) (nesting : Nesting) :
    v.Runs calls (s.1, s.2.atDepth depth nesting) (t.1, t.2.atDepth depth nesting) := by
  induction h with
  | nil => exact .nil
  | cons hcall _ ih => exact .cons hcall ih

/-- What no call changes about the queue of diagnostics is not changed. -/
theorem keeps {I : Queue → Prop} (h : v.Runs calls s t)
    (hI : ∀ id s answer t, v id s = .ok answer t → I s.2.queue → I t.2.queue)
    (hs : I s.2.queue) : I t.2.queue := by
  induction h with
  | nil => exact hs
  | cons hcall _ ih =>
    have hcalled := hI _ (_, _) _ (_, _) hcall hs
    exact ih hcalled

end Visitor.Runs

namespace Walk

open ExprTree.Action

variable {α β : Type} {a : Arena} {v : Visitor σ} {descends hit : NodeId → Bool}
  {f : NodeId → NodeId} {s t u : WalkState (List Call × σ)}

/-! ### Records grow -/

/-- Calls have been recorded after these. -/
def Records (calls : List Call) (s t : WalkState (List Call × σ)) : Prop :=
  s = t ∧ calls <+: s.calls

/-- A part of a walk that only adds to the record of calls. -/
def Extends (p : Walk (List Call × σ) α) : Prop := ∀ calls, Parallel (Records calls) p p

/-- The calls that a result has on record, which may be a fault. -/
def recordOf : EStateM.Result Fault (WalkState (List Call × σ)) α → List Call
  | .ok _ t | .error _ t => t.calls

theorem Extends.record {p : Walk (List Call × σ) α} (hp : Extends p)
    (s : WalkState (List Call × σ)) : s.calls <+: recordOf (p s) := by
  have hrecords := hp s.calls ⟨rfl, List.prefix_rfl⟩
  generalize p s = result at hrecords
  cases hrecords with
  | ok h | error h => exact h.2

theorem abreast_records (calls : List Call) :
    Abreast (Records calls : WalkState (List Call × σ) → _ → Prop) where
  visited_eq h := h.1 ▸ rfl
  context_eq h := h.1 ▸ rfl
  setContext h _ := ⟨h.1 ▸ rfl, h.2⟩

theorem extends_visit (v : Visitor σ) (id : NodeId) : Extends (visit v.recorded id) := by
  rintro calls s _ ⟨rfl, hs⟩
  have hadd : calls <+: s.calls ++ [⟨id, s.context.unevaluatedDepth⟩] :=
    hs.trans (List.prefix_append ..)
  simp only [visit, Visitor.recorded]
  cases v id (s.user.2, s.context) with
  | ok answer t => exact .ok ⟨rfl, hadd⟩
  | error e t => exact .error ⟨rfl, hadd⟩

theorem meet_records (calls : List Call) (v : Visitor σ) :
    Meet (Records calls) v.recorded v.recorded := by
  intro id k l hkl
  refine Parallel.bind ?_ fun arrived => ?_
  · rintro ⟨user, visited, context⟩ _ ⟨rfl, hs⟩
    cases visited with
    | none => exact .ok ⟨rfl, hs⟩
    | some V =>
      simp only [arrive]
      split
      · exact .ok ⟨rfl, hs⟩
      · exact .ok ⟨rfl, hs⟩
  · split
    · exact (extends_visit v id calls).bind hkl
    · exact parallel_pure

/-! ### A walk and the ended walk -/

/-- From one state to another a walk has made calls, each of which has done what the visitor does,
and has changed nothing else but what it knows about where it has been. -/
structure Leads (v : Visitor σ) (calls : List Call) (s t : WalkState (List Call × σ)) : Prop where
  samePlace : s.context.SamePlace t.context
  calls_eq : t.calls = s.calls ++ calls
  runs : v.Runs calls (s.user.2, s.context) (t.user.2, t.context)

theorem Leads.refl (v : Visitor σ) (s : WalkState (List Call × σ)) : Leads v [] s s :=
  ⟨.refl _, (List.append_nil _).symm, .nil⟩

theorem Leads.trans {calls calls' : List Call} (h : Leads v calls s t) (h' : Leads v calls' t u) :
    Leads v (calls ++ calls') s u :=
  ⟨h.1.trans h'.1, by rw [h'.2, h.2, List.append_assoc], h.3.append h'.3⟩

/-- None of the calls is at a node that ends the walk. -/
def Misses (hit : NodeId → Bool) (calls : List Call) : Prop := ∀ c ∈ calls, hit c.node = false

theorem Misses.append {calls calls' : List Call} (h : Misses hit calls) (h' : Misses hit calls') :
    Misses hit (calls ++ calls') := fun c hc => by
  rcases List.mem_append.1 hc with hc | hc
  · exact h c hc
  · exact h' c hc

/-- A result of a part of a walk from `s`, and the result with the visitor that ends the walk at the
nodes that `hit` selects; `ends` says which answers end the walk.  The results are the same as long
as there has been no call at such a node, and else the second walk has come to its end there. -/
inductive Cut (v : Visitor σ) (hit : NodeId → Bool) (f : NodeId → NodeId)
    (ends : α → Option NodeId) (s : WalkState (List Call × σ)) :
    EStateM.Result Fault (WalkState (List Call × σ)) α →
    EStateM.Result Fault (WalkState (List Call × σ)) α → Prop
  | returns {r : α} {t : WalkState (List Call × σ)} {calls : List Call} (h : Leads v calls s t)
    (hmiss : Misses hit calls) : Cut v hit f ends s (.ok r t) (.ok r t)
  /-- There was no room for a level. -/
  | refused {r : α} {t : WalkState (List Call × σ)} {calls : List Call} {id : NodeId}
    (hplace : s.context.SamePlace t.context) (hcalls : t.calls = s.calls ++ calls)
    (hmiss : Misses hit calls) (hr : ends r = some id) : Cut v hit f ends s (.ok r t) (.ok r t)
  | fault {e : Fault} {t : WalkState (List Call × σ)} {calls : List Call}
    (hcalls : t.calls = s.calls ++ calls) (hmiss : Misses hit calls) :
    Cut v hit f ends s (.error e t) (.error e t)
  | ended {result : EStateM.Result Fault (WalkState (List Call × σ)) α} {r : α}
    {u : WalkState (List Call × σ)} {before : List Call} {x : Call}
    (h : Leads v (before ++ [x]) s u) (hmiss : Misses hit before) (hhit : hit x.node = true)
    (hr : ends r = some (f x.node)) (hafter : u.calls <+: recordOf result) :
    Cut v hit f ends s result (.ok r u)

theorem Cut.after {ends : α → Option NodeId} {calls : List Call}
    {r r' : EStateM.Result Fault (WalkState (List Call × σ)) α} (h : Leads v calls s t)
    (hmiss : Misses hit calls) (hcut : Cut v hit f ends t r r') : Cut v hit f ends s r r' := by
  cases hcut with
  | returns h' hmiss' => exact .returns (h.trans h') (hmiss.append hmiss')
  | refused hplace hcalls hmiss' hr =>
    exact .refused (h.samePlace.trans hplace) (by rw [hcalls, h.calls_eq, List.append_assoc])
      (hmiss.append hmiss') hr
  | fault hcalls hmiss' =>
    exact .fault (by rw [hcalls, h.calls_eq, List.append_assoc]) (hmiss.append hmiss')
  | ended h' hmiss' hhit hr hafter =>
    have := h.trans h'
    rw [← List.append_assoc] at this
    exact .ended this (hmiss.append hmiss') hhit hr hafter

theorem Cut.pure {ends : α → Option NodeId} (r : α) :
    Cut v hit f ends s ((Pure.pure r : Walk (List Call × σ) α) s)
      ((Pure.pure r : Walk (List Call × σ) α) s) :=
  .returns (.refl v s) (by simp [Misses])

/-- A part of a walk and what follows it, when an answer that ends the walk is handed on. -/
theorem Cut.bind {ends : α → Option NodeId} {ends' : β → Option NodeId}
    {p q : Walk (List Call × σ) α} {k l : α → Walk (List Call × σ) β}
    (h : Cut v hit f ends s (p s) (q s)) (hextends : ∀ r, Extends (k r))
    (hends : ∀ r id, ends r = some id →
      ∃ r', k r = Pure.pure r' ∧ l r = Pure.pure r' ∧ ends' r' = some id)
    (hkl : ∀ r t calls, ends r = none → Leads v calls s t →
      Cut v hit f ends' t (k r t) (l r t)) :
    Cut v hit f ends' s ((p >>= k) s) ((q >>= l) s) := by
  show Cut v hit f ends' s (EStateM.bind p k s) (EStateM.bind q l s)
  unfold EStateM.bind
  generalize p s = result, q s = result' at h
  cases h with
  | @returns r t calls h hmiss =>
    cases hr : ends r with
    | none => exact (hkl r t calls hr h).after h hmiss
    | some id =>
      obtain ⟨r', hk, hl, hr'⟩ := hends r id hr
      simp only [hk, hl]
      exact .refused h.samePlace h.calls_eq hmiss hr'
  | @refused r t calls id hplace hcalls hmiss hr =>
    obtain ⟨r', hk, hl, hr'⟩ := hends r id hr
    simp only [hk, hl]
    exact .refused hplace hcalls hmiss hr'
  | fault hcalls hmiss => exact .fault hcalls hmiss
  | @ended _ r u before x h hmiss hhit hr hafter =>
    obtain ⟨r', hk, hl, hr'⟩ := hends r _ hr
    simp only [hl]
    refine .ended h hmiss hhit hr' (hafter.trans ?_)
    cases result with
    | ok x t => exact (hextends x).record t
    | error e t => exact List.prefix_rfl

theorem Cut.query {ends : β → Option NodeId} {q : Arena → Except Fault α}
    {k l : α → Walk (List Call × σ) β}
    (h : ∀ r, q s.context.arena = .ok r → Cut v hit f ends s (k r s) (l r s)) :
    Cut v hit f ends s ((liftM (Pass.query q) >>= k) s) ((liftM (Pass.query q) >>= l) s) := by
  cases hr : q s.context.arena with
  | ok r =>
    have hask : (liftM (Pass.query q) : Walk (List Call × σ) α) s = .ok r s :=
      lift_of_ok (ask_eq_ok_iff.2 ⟨hr, rfl⟩)
    rw [bind_eq_of_ok hask, bind_eq_of_ok hask]
    exact h r hr
  | error e =>
    have hask : (liftM (Pass.query q) : Walk (List Call × σ) α) s = .error e s :=
      lift_of_error (ask_of_error hr)
    rw [bind_eq_of_error hask, bind_eq_of_error hask]
    exact .fault (List.append_nil _).symm (by simp [Misses])

/-! ### Scopes -/

/-- A state at other depths. -/
abbrev atDepth (s : WalkState σ) (depth : Nat) (nesting : Nesting) : WalkState σ :=
  { s with context := s.context.atDepth depth nesting }

section Scopes

variable {ends : α → Option NodeId} {depth : Nat} {nesting : Nesting}

theorem Leads.move {calls : List Call} (h : Leads v calls (atDepth s depth nesting) t) :
    Leads v calls s (atDepth t s.context.unevaluatedDepth s.context.nesting) :=
  ⟨⟨h.1.1, rfl, rfl⟩, h.2, h.3.move s.context.unevaluatedDepth s.context.nesting⟩

/-- A part of a walk at other depths, when it is left for the depths outside of it. -/
theorem Cut.leave {r r' : EStateM.Result Fault (WalkState (List Call × σ)) α}
    {leave : α → Walk (List Call × σ) α} {recover : Fault → Walk (List Call × σ) α}
    (hextends : ∀ r, Extends (leave r))
    (hleave : ∀ r t, (atDepth s depth nesting).context.SamePlace t.context →
      leave r t = .ok r (atDepth t s.context.unevaluatedDepth s.context.nesting))
    (hrecover : ∀ e t, ∃ e' t', recover e t = .error e' t' ∧ t'.calls = t.calls)
    (hcut : Cut v hit f ends (atDepth s depth nesting) r r') :
    Cut v hit f ends s (resume leave recover r) (resume leave recover r') := by
  cases hcut with
  | returns h hmiss =>
    simp only [resume, hleave _ _ h.samePlace]
    exact .returns h.move hmiss
  | refused hplace hcalls hmiss hr =>
    simp only [resume, hleave _ _ hplace]
    exact .refused ⟨hplace.1, rfl, rfl⟩ hcalls hmiss hr
  | @fault e t calls hcalls hmiss =>
    obtain ⟨e', t', hrun, ht⟩ := hrecover e t
    simp only [resume, hrun]
    exact .fault (ht.trans hcalls) hmiss
  | ended h hmiss hhit hr hafter =>
    simp only [resume, hleave _ _ h.samePlace]
    refine .ended h.move hmiss hhit hr (hafter.trans ?_)
    cases r with
    | ok r t => exact (hextends r).record t
    | error e t =>
      obtain ⟨e', t', hrun, ht⟩ := hrecover e t
      simp only [hrun, recordOf, ht]
      exact List.prefix_rfl

theorem Cut.nested {span : Span} {overflow : α} {p q : Walk (List Call × σ) α} {id : NodeId}
    (hoverflow : ends overflow = some id)
    (h : ∀ inner, s.context.nesting.enter = .ok inner →
      Cut v hit f ends (atDepth s s.context.unevaluatedDepth inner)
        (p (atDepth s s.context.unevaluatedDepth inner))
        (q (atDepth s s.context.unevaluatedDepth inner))) :
    Cut v hit f ends s (Pass.nested span overflow p s) (Pass.nested span overflow q s) := by
  rw [nested_eq, nested_eq]
  cases hroom : s.context.nesting.enter with
  | error e =>
    have hrefused : Pass.enter span s.context = .ok false _ := Pass.enter_of_error hroom
    have henter := lift_of_ok hrefused
    rw [bind_eq_of_ok henter, bind_eq_of_ok henter]
    exact .refused ⟨rfl, rfl, rfl⟩ (List.append_nil _).symm (by simp [Misses]) hoverflow
  | ok inner =>
    have henter : (liftM (Pass.enter span) : Walk (List Call × σ) Bool) s =
        .ok true (atDepth s s.context.unevaluatedDepth inner) :=
      lift_of_ok (Pass.enter_of_ok hroom)
    rw [bind_eq_of_ok henter, bind_eq_of_ok henter, if_pos rfl, if_pos rfl, bind_eq_resume,
      bind_eq_resume]
    refine Cut.leave (fun r calls => ?_) (fun r t ht => ?_) (fun e t => ⟨e, t, rfl, rfl⟩)
      (h inner hroom)
    · exact ((abreast_records calls).lift _).bind fun _ => parallel_pure
    · have hleave : t.context.nesting.leave = .ok s.context.nesting :=
        ht.nesting_eq ▸ Nesting.leave_of_enter hroom
      rw [← ht.depth_eq]
      exact bind_eq_of_ok (lift_of_ok (Pass.leave_of_ok hleave))

theorem Cut.unevaluated {p q : Walk (List Call × σ) α}
    (h : Cut v hit f ends (atDepth s (s.context.unevaluatedDepth + 1) s.context.nesting)
      (p (atDepth s (s.context.unevaluatedDepth + 1) s.context.nesting))
      (q (atDepth s (s.context.unevaluatedDepth + 1) s.context.nesting))) :
    Cut v hit f ends s (Pass.unevaluated p s) (Pass.unevaluated q s) := by
  rw [unevaluated_eq, unevaluated_eq, tryFinally_eq_resume, tryFinally_eq_resume]
  refine Cut.leave (fun r calls => ?_) (fun r t ht => ?_) (fun e t => ?_) h
  · exact ((abreast_records calls).lift _).bind fun _ => parallel_pure
  · have hdepth : t.context.unevaluatedDepth = s.context.unevaluatedDepth + 1 := ht.depth_eq
    have hleave := lift_of_ok (s := t) (Pass.leaveUnevaluated_of_ne_zero (by omega))
    rw [hdepth, Nat.add_sub_cancel] at hleave
    rw [← ht.nesting_eq]
    exact bind_eq_of_ok hleave
  · by_cases hdepth : t.context.unevaluatedDepth = 0
    · exact ⟨_, _, bind_eq_of_error (lift_of_error (Pass.leaveUnevaluated_of_eq_zero hdepth)), rfl⟩
    · exact ⟨_, _, bind_eq_of_ok (lift_of_ok (Pass.leaveUnevaluated_of_ne_zero hdepth)), rfl⟩

end Scopes

/-! ### Nodes and children -/

/-- The node with which a walk of the children of the language has ended. -/
def foundIn : LanguageWalk × Bool → Option NodeId
  | (.stopped found, _) => some found
  | _ => none

theorem Cut.firstOf {walk walk' : α → Walk (List Call × σ) (Option NodeId)}
    (hextends : ∀ x, Extends (walk x)) (h : ∀ x (s : WalkState (List Call × σ)),
      s.context.arena = a → Cut v hit f id s (walk x s) (walk' x s))
    (xs : List α) (hs : s.context.arena = a) :
    Cut v hit f id s (Walk.firstOf walk xs s) (Walk.firstOf walk' xs s) := by
  induction xs generalizing s with
  | nil => exact .pure none
  | cons x xs ih =>
    refine Cut.bind (h x s hs) (fun found calls => ?_) (fun found id hfound => ?_)
      fun found t calls hfound ht => ?_
    · cases found with
      | some id => exact parallel_pure
      | none => exact parallel_firstOf (fun x => hextends x calls) xs
    · cases hfound
      exact ⟨_, rfl, rfl, rfl⟩
    · cases hfound
      exact ih (ht.samePlace.arena_eq.trans hs)

/-- A visitor that never ends the walk makes its call. -/
theorem leads_visit (hv : v.Steady a descends) {id : NodeId} (hid : (a.find? id).isSome = true)
    (hs : s.context.arena = a) : ∃ t, Walk.visit v.recorded id s = .ok ⟨none, descends id⟩ t ∧
      t.visited = s.visited ∧ Leads v [⟨id, s.context.unevaluatedDepth⟩] s t := by
  obtain ⟨⟨calls, user⟩, visited, context⟩ := s
  obtain ⟨user', context', hrun, hplace⟩ := hv id user context hs hid
  refine ⟨⟨(calls ++ [⟨id, context.unevaluatedDepth⟩], user'), visited, context'⟩, ?_, rfl,
    hplace, rfl, ?_⟩
  · simp only [Walk.visit, Visitor.recorded, hrun, mapState]
  · have hcall : v id (user, context.atDepth context.unevaluatedDepth context.nesting) =
        .ok ⟨none, descends id⟩ (user', context') := hrun
    refine .cons hcall ?_
    rw [hplace.atDepth]
    exact .nil

theorem visit_endedAt {node : NodeId} {answer : Visit}
    (h : Walk.visit v.recorded node s = .ok answer t) :
    Walk.visit (v.endedAt hit f).recorded node s =
      .ok (if hit node then { answer with found := some (f node) } else answer) t := by
  obtain ⟨⟨calls, user⟩, visited, context⟩ := s
  have hmap : v.endedAt hit f node (user, context) = EStateM.map (fun answer : Visit =>
    if hit node then { answer with found := some (f node) } else answer) (v node)
      (user, context) := rfl
  simp only [Walk.visit, Visitor.recorded] at h ⊢
  rw [hmap, EStateM.map]
  cases hrun : v node (user, context) with
  | ok answer' u =>
    rw [hrun] at h
    cases h
    rfl
  | error e u =>
    rw [hrun] at h
    cases h

/-- The visitors make the same call.  It may end the second walk, and the first goes on. -/
theorem Cut.visit (hv : v.Steady a descends) {node : NodeId}
    (hnode : (a.find? node).isSome = true) (hs : s.context.arena = a)
    {k l : Visit → Walk (List Call × σ) (Option NodeId)} (hextends : ∀ answer, Extends (k answer))
    (hends : ∀ found descend, l ⟨some found, descend⟩ = Pure.pure (some found))
    (h : ∀ t, t.context.arena = a →
      Cut v hit f id t (k ⟨none, descends node⟩ t) (l ⟨none, descends node⟩ t)) :
    Cut v hit f id s ((Walk.visit v.recorded node >>= k) s)
      ((Walk.visit (v.endedAt hit f).recorded node >>= l) s) := by
  obtain ⟨t, hvisit, -, hleads⟩ := leads_visit hv hnode hs
  rw [bind_eq_of_ok hvisit, bind_eq_of_ok (visit_endedAt hvisit)]
  cases hhit : hit node with
  | true =>
    rw [if_pos rfl, hends]
    have hleads : Leads v ([] ++ [⟨node, s.context.unevaluatedDepth⟩]) _ _ := hleads
    exact .ended hleads (by simp [Misses]) hhit rfl ((hextends _).record _)
  | false =>
    rw [if_neg Bool.false_ne_true]
    exact (h _ (hleads.samePlace.arena_eq.trans hs)).after hleads (by simpa [Misses] using hhit)

section Self

variable {self self' : NodeId → Walk (List Call × σ) (Option NodeId)}
  (h : ∀ node (s : WalkState (List Call × σ)), s.context.arena = a →
    Cut v hit f id s (self node s) (self' node s))
include h

theorem Cut.child (c : Child) (hs : s.context.arena = a) :
    Cut v hit f id s (Walk.child self c s) (Walk.child self' c s) := by
  unfold Walk.child
  split
  · exact Cut.unevaluated (h c.node _ hs)
  · exact h c.node s hs

theorem Cut.siblings (kind : NodeKind) (hs : s.context.arena = a) :
    Cut v hit f id s (Walk.siblings self kind s) (Walk.siblings self' kind s) := by
  unfold Walk.siblings
  split
  · exact h _ s hs
  · exact .pure none

variable (hextends : ∀ id, Extends (self id))
include hextends

theorem Cut.language (node : NodeId) (descend : Bool) (hs : s.context.arena = a) :
    Cut v hit f foundIn s (Walk.language self node descend s)
      (Walk.language self' node descend s) := by
  refine Cut.query fun parts _ => ?_
  cases parts with
  | none => exact .pure _
  | some parts =>
    have hchildren : Cut v hit f id s _ _ := Cut.firstOf
      (fun c calls => (abreast_records calls).child (fun id => hextends id calls) c)
      (fun c t ht => Cut.child h c ht) parts.children hs
    refine hchildren.bind (fun found calls => ?_) (fun found id hfound => ?_)
      fun found t calls hfound ht => ?_
    · cases found <;> exact parallel_pure
    · cases hfound
      exact ⟨_, rfl, rfl, rfl⟩
    · cases hfound
      exact .pure _

theorem Cut.generic (isType : Bool) (node : NodeId) (hs : s.context.arena = a) :
    Cut v hit f id s (Walk.generic self isType node s) (Walk.generic self' isType node s) :=
  Cut.query (q := (·.genericChildren isType s.visited.isSome node)) fun ids _ =>
    Cut.firstOf hextends h ids hs

theorem Cut.children (kind : NodeKind) (node : NodeId) (hs : s.context.arena = a) :
    Cut v hit f id s (Walk.children self kind node s) (Walk.children self' kind node s) := by
  refine (Cut.language h hextends node true hs).bind (fun walked calls => ?_)
    (fun walked id hwalked => ?_) fun walked t calls hwalked ht => ?_
  · obtain ⟨walked, descend⟩ := walked
    have hgeneric := (abreast_records calls).generic (fun id => hextends id calls) kind.isType node
    cases walked with
    | notHandled => exact hgeneric
    | stopped found => exact parallel_pure
    | finished =>
      cases descend with
      | true => exact hgeneric
      | false => exact parallel_pure
  · obtain ⟨walked, descend⟩ := walked
    cases walked with
    | stopped found =>
      cases hwalked
      exact ⟨_, rfl, rfl, rfl⟩
    | _ => cases hwalked
  · obtain ⟨walked, descend⟩ := walked
    have hgeneric := Cut.generic h hextends kind.isType node (ht.samePlace.arena_eq.trans hs)
    cases walked with
    | notHandled => exact hgeneric
    | stopped found => cases hwalked
    | finished =>
      cases descend with
      | true => exact hgeneric
      | false => exact .pure none

theorem Cut.goOn (node : NodeId) (descend : Bool) (hs : s.context.arena = a) :
    Cut v hit f id s (Walk.goOn self node ⟨none, descend⟩ s)
      (Walk.goOn self' node ⟨none, descend⟩ s) := by
  refine Cut.query fun kind _ => ?_
  cases descend with
  | true => exact Cut.children h hextends kind node hs
  | false => exact Cut.siblings h kind hs

/-- A node at which both walks arrive. -/
theorem Cut.node (hv : v.Steady a descends) (node : NodeId) (hnode : (a.find? node).isSome = true)
    (hs : s.context.arena = a) : Cut v hit f id s (Walk.node v.recorded self node s)
      (Walk.node (v.endedAt hit f).recorded self' node s) := by
  obtain ⟨arrived, visited, harrive⟩ := arrive_runs node s.user s.visited
  have harrive := harrive s.context
  have hleads : Leads v [] s { s with visited } := ⟨.refl _, (List.append_nil _).symm, .nil⟩
  refine Cut.after hleads (by simp [Misses]) ?_
  rw [node_eq, node_eq, bind_eq_of_ok harrive, bind_eq_of_ok harrive]
  cases arrived with
  | false => exact .pure none
  | true =>
    rw [if_pos rfl, if_pos rfl]
    refine Cut.visit (s := ⟨s.user, visited, s.context⟩) (l := Walk.goOn self' node) hv hnode hs
      (fun answer calls => ?_) (fun found descend => rfl) fun t ht => ?_
    · exact (abreast_records calls).goOn (fun id => hextends id calls) node answer
    · exact Cut.goOn h hextends node (descends node) ht

theorem Cut.step (hv : v.Steady a descends) (node : NodeId) (hs : s.context.arena = a) :
    Cut v hit f id s (Walk.step v.recorded self node s)
      (Walk.step (v.endedAt hit f).recorded self' node s) := by
  refine Cut.query fun span hspan => Cut.nested rfl fun inner _ => ?_
  obtain ⟨n, hn, -⟩ := Arena.map_eq_ok_iff.1 hspan
  refine Cut.node h hextends hv node ?_ hs
  rw [← hs, Arena.node_eq_ok_iff.1 hn]
  rfl

end Self

theorem extends_within (v : Visitor σ) (levels : Nat) (node : NodeId) :
    Extends (within v.recorded levels node) :=
  fun calls => (abreast_records calls).within (meet_records calls v) levels node

theorem Cut.within (hv : v.Steady a descends) (levels : Nat) (node : NodeId)
    (hs : s.context.arena = a) : Cut v hit f id s (Walk.within v.recorded levels node s)
      (Walk.within (v.endedAt hit f).recorded levels node s) := by
  induction levels generalizing node s with
  | zero =>
    refine Cut.step (fun _ _ _ => ?_) (fun _ _ => parallel_throw) hv node hs
    exact .fault (List.append_nil _).symm (by simp [Misses])
  | succ levels ih =>
    exact Cut.step (fun node s hs => ih node hs) (extends_within v levels) hv node hs

/-! ### Whole walks -/

theorem treeCalls_eq_recordOf (v : Visitor σ) (root : NodeId) (s : WalkState σ) :
    treeCalls v root s = recordOf (walkTree v.recorded root s.recording) := by
  unfold treeCalls last
  cases walkTree v.recorded root s.recording <;> rfl

/-- There is only one first call at a node that ends the walk. -/
theorem eq_of_first {before before' after after' : List Call} {x x' : Call}
    (h : before ++ x :: after = before' ++ x' :: after') (hmiss : Misses hit before)
    (hhit : hit x.node = true) (hmiss' : Misses hit before') (hhit' : hit x'.node = true) :
    before = before' ∧ x = x' := by
  induction before generalizing before' with
  | nil =>
    cases before' with
    | nil => exact ⟨rfl, (List.cons.inj h).1⟩
    | cons c before' =>
      rw [(List.cons.inj h).1, hmiss' c List.mem_cons_self] at hhit
      cases hhit
  | cons c before ih =>
    cases before' with
    | nil =>
      rw [← (List.cons.inj h).1, hmiss c List.mem_cons_self] at hhit'
      cases hhit'
    | cons c' before' =>
      obtain ⟨rfl, hrest⟩ := List.cons.inj h
      obtain ⟨rfl, hx⟩ := ih hrest (fun c hc => hmiss c (.tail _ hc))
        fun c hc => hmiss' c (.tail _ hc)
      exact ⟨rfl, hx⟩

section Results

variable {ends : α → Option NodeId}
  {r r' : EStateM.Result Fault (WalkState (List Call × σ)) α}

/-- As long as there has been no call at a node that ends the walk, the walks are the same. -/
theorem Cut.same (h : Cut v hit f ends s r r') (hmiss : Misses hit (recordOf r)) : r' = r := by
  cases h with
  | returns | refused | fault => rfl
  | @ended _ _ _ _ x h _ hhit _ hafter =>
    have hx := hmiss x (hafter.subset (by rw [h.calls_eq]; simp))
    rw [hhit] at hx
    cases hx

/-- The first call at a node that ends the walk ends it. -/
theorem Cut.first {before after : List Call} {x : Call} (h : Cut v hit f ends s r r')
    (hs : s.calls = []) (hr : recordOf r = before ++ x :: after) (hmiss : Misses hit before)
    (hhit : hit x.node = true) :
    ∃ answer u, r' = .ok answer u ∧ ends answer = some (f x.node) ∧
      Leads v (before ++ [x]) s u := by
  have hnot : ∀ {t : WalkState (List Call × σ)} {calls}, t.calls = s.calls ++ calls →
      Misses hit calls → t.calls = before ++ x :: after → False := by
    rintro t calls ht hmiss hx
    rw [hs, List.nil_append] at ht
    have hx := hmiss x (by rw [← ht, hx]; simp)
    rw [hhit] at hx
    cases hx
  cases h with
  | returns h hmiss => exact (hnot h.calls_eq hmiss hr).elim
  | refused _ hcalls hmiss => exact (hnot hcalls hmiss hr).elim
  | fault hcalls hmiss => exact (hnot hcalls hmiss hr).elim
  | @ended _ answer u before' x' h hmiss' hhit' hends hafter =>
    obtain ⟨rest, hrest⟩ := hafter
    rw [h.calls_eq, hs, hr, List.nil_append, List.append_assoc] at hrest
    obtain ⟨rfl, rfl⟩ := eq_of_first hrest hmiss' hhit' hmiss hhit
    exact ⟨answer, u, rfl, hends, h⟩

theorem Cut.samePlace {answer : α} (h : Cut v hit f ends s r (.ok answer t)) :
    s.context.SamePlace t.context := by
  cases h with
  | returns h | ended h => exact h.samePlace
  | refused hplace => exact hplace

end Results

/-- A visitor that ends the walk at certain nodes, beside one that never does, both with the same
visits otherwise, in an arena that they leave alone.  If there is no call at such a node the walks
are the same.  Else the calls are those of the other walk up to and including the first at such a
node, the answer is the one that the visitor gives there, and the walk has done nothing but what
these calls do: it has reported nothing of its own.  When they return, both walks have left the
levels and the operands that they have entered. -/
theorem walkTree_endedAt {s : WalkState σ} (hv : v.Steady a descends) (ha : s.context.arena = a)
    (hit : NodeId → Bool) (f : NodeId → NodeId) (root : NodeId) :
    ((∀ c ∈ treeCalls v root s, hit c.node = false) →
      walkTree (v.endedAt hit f) root s = walkTree v root s ∧
      treeCalls (v.endedAt hit f) root s = treeCalls v root s) ∧
    (∀ before x after, treeCalls v root s = before ++ x :: after →
      (∀ c ∈ before, hit c.node = false) → hit x.node = true →
      ∃ t, walkTree (v.endedAt hit f) root s = .ok (some (f x.node)) t ∧
        treeCalls (v.endedAt hit f) root s = before ++ [x] ∧
        v.Runs (before ++ [x]) (s.user, s.context) (t.user, t.context) ∧
        ∀ I : Queue → Prop, (∀ id s answer t, v id s = .ok answer t → I s.2.queue → I t.2.queue) →
          I s.context.queue → I t.context.queue) ∧
    ∀ r t, walkTree v root s = .ok r t ∨ walkTree (v.endedAt hit f) root s = .ok r t →
      s.context.SamePlace t.context := by
  have hcut : ∀ hit, Cut v hit f id s.recording (walkTree v.recorded root s.recording)
      (walkTree (v.endedAt hit f).recorded root s.recording) :=
    fun hit => Cut.within hv _ root ha
  have hplace : ∀ hit r t, walkTree (v.endedAt hit f) root s = .ok r t →
      s.context.SamePlace t.context := by
    intro hit r t hrun
    obtain ⟨u, hu, rfl, -⟩ := recorded_of_walkTree hrun
    have hcut := hcut hit
    rw [hu] at hcut
    exact hcut.samePlace
  refine ⟨fun hmiss => ?_, fun before x after hcalls hmiss hhit => ?_, ?_⟩
  · rw [treeCalls_eq_recordOf] at hmiss
    have hsame := (hcut hit).same hmiss
    rw [walkTree_eq_forget, treeCalls_eq_recordOf, hsame, ← walkTree_eq_forget,
      ← treeCalls_eq_recordOf]
    exact ⟨rfl, rfl⟩
  · rw [treeCalls_eq_recordOf] at hcalls
    obtain ⟨answer, u, hu, hends, hleads⟩ := (hcut hit).first rfl hcalls hmiss hhit
    cases hends
    refine ⟨u.forget, ?_, ?_, hleads.runs, fun I hI hs => hleads.runs.keeps hI hs⟩
    · rw [walkTree_eq_forget, hu]
      rfl
    · rw [treeCalls_eq_recordOf, hu]
      exact hleads.calls_eq
  · rintro r t (hrun | hrun)
    · exact hplace (fun _ => false) r t (by rwa [v.endedAt_never])
    · exact hplace hit r t hrun

/-- Of a list with the purpose `sizeof x`, the walk is ended at the operand of `sizeof`, which is
left with the walk. -/
theorem walkTree_endedAt_sizeofList :
    ∃ t, walkTree ((Visitor.skipping fun _ => false).endedAt (· = ⟨6⟩) fun _ => ⟨5⟩) ⟨9⟩
        ⟨(), none, .ofArena .sizeofList .standard⟩ = .ok (some ⟨5⟩) t ∧
      treeCalls ((Visitor.skipping fun _ => false).endedAt (· = ⟨6⟩) fun _ => ⟨5⟩) ⟨9⟩
        ⟨(), none, .ofArena .sizeofList .standard⟩ = [⟨⟨9⟩, 0⟩, ⟨⟨7⟩, 0⟩, ⟨⟨6⟩, 1⟩] ∧
      t.context.unevaluatedDepth = 0 ∧ t.context.queue.diagnostics = #[] := by
  have hcalls : treeCalls (Visitor.skipping fun _ => false) ⟨9⟩
      ⟨(), none, .ofArena .sizeofList .standard⟩ =
        [⟨⟨9⟩, 0⟩, ⟨⟨7⟩, 0⟩] ++ ⟨⟨6⟩, 1⟩ :: [⟨⟨6⟩, 0⟩, ⟨⟨8⟩, 0⟩, ⟨⟨6⟩, 0⟩] := by decide +kernel
  obtain ⟨-, hfirst, hplace⟩ := walkTree_endedAt
    (s := ⟨(), none, .ofArena .sizeofList .standard⟩)
    (Visitor.steady_skipping (fun _ => false) Arena.sizeofList) rfl (· = ⟨6⟩) (fun _ => ⟨5⟩) ⟨9⟩
  obtain ⟨t, hrun, hprefix, -, hqueue⟩ := hfirst _ _ _ hcalls (by decide) (by decide)
  refine ⟨t, hrun, hprefix, (hplace _ t (.inr hrun)).depth_eq, ?_⟩
  refine hqueue (·.diagnostics = #[]) (fun id s answer t h hs => ?_) rfl
  cases h
  exact hs

end Walk

end ExprTree
