import ExprTree.Proofs.ClassifiedRuns
import ExprTree.Proofs.Normalizing

/-!
# Uses for the second time

A use has nothing left to do after one that was complete: the expression that the first answered
with is in normal form, and the use of a normal form changes nothing, level by level.

* `Pass.Inert` — a pass that answers and changes nothing.
* `Pass.inert_recursively` — the rule for recursion.
* `Pass.inert_recordRead`, `Pass.inert_classifyUse` — recorded reads, and normal forms.
* `Pass.classifyUse_again` — the second of two uses.
-/

namespace ExprTree

theorem Nesting.exists_enter {n : Nesting} {room : Nat} (h : n.room = room + 1) :
    ∃ inner, n.enter = .ok inner ∧ inner.room = room := by
  cases he : n.enter with
  | ok inner => exact ⟨inner, rfl, Nat.succ.inj ((Nesting.room_of_enter he).symm.trans h)⟩
  | error e => cases (Nesting.room_of_refused he).1.symm.trans h

namespace Arena

variable {a : Arena} {id op : NodeId} {n : Node} {f : Node → Node} {e : Bool}

theorem update_eq_self (hn : a.find? id = some n) (hf : f n = n) : update id f a = .ok () a := by
  have hsize := isSome_find?_iff.1 (Option.isSome_of_mem hn)
  refine (if_pos hsize).trans (congrArg (EStateM.Result.ok ()) ?_)
  refine congrArg (fun nodes => { a with nodes }) (Array.ext_getElem? fun i => ?_)
  rw [Array.getElem?_modify]
  split
  · subst i
    rw [show a.nodes[id.index]? = some n from hn]
    exact congrArg some hf
  · rfl

theorem deriveFlags_eq_self {flags : NodeFlags} (hn : a.find? id = some n)
    (hf : a.derivedFlags n = .ok flags) (hflags : n.flags.union flags = n.flags) :
    deriveFlags id a = .ok () a := by
  have hask : Action.ask (fun a : Arena => do a.derivedFlags (← a.node id)) a = .ok flags a :=
    Action.ask_eq_ok_iff.2 ⟨bind_eq_ok_iff.2 ⟨n, node_eq_ok_iff.2 hn, hf⟩, rfl⟩
  refine (Action.bind_eq_of_ok hask).trans (update_eq_self hn ?_)
  rw [hflags]

/-- A location wrapper has the effect of what it wraps. -/
theorem derivedFlags_wrapper (hk : n.kind = .unary .viewConvert op)
    (he : a.hasEffect op = .ok e) : a.derivedFlags n = .ok (effectFlags false e) := by
  refine derivedFlags_eq_ok_iff.2 ⟨false, e, accessesVolatile_eq_false (by rw [hk]; rfl), ?_, ?_⟩
  · rw [inheritsEffect_eq (by rw [hk]; rfl) (by rw [hk]; rfl), anyM_singleton]
    exact he
  · rw [hk]
    rfl

end Arena

namespace Pass

open ExprTree.Action

variable {α β : Type} {cx : Context} {expr op : NodeId} {mode : UseMode} {n : Node} {f : NodeFlags}

/-! ### Passes that change nothing -/

/-- A pass that answers with `r`, and changes nothing. -/
def Inert (p : Pass α) (r : α) (cx : Context) : Prop := p cx = .ok r cx

theorem inert_pure {r : α} : Inert (pure r) r cx := rfl

theorem Inert.bind {p : Pass α} {g : α → Pass β} {x : α} {r : β} (h : Inert p x cx)
    (hg : Inert (g x) r cx) : Inert (p >>= g) r cx :=
  (bind_eq_of_ok h).trans hg

theorem inert_query {q : Arena → Except Fault α} {r : α} (hr : q cx.arena = .ok r) :
    Inert (query q) r cx :=
  ask_eq_ok_iff.2 ⟨hr, rfl⟩

theorem inert_edit {change : Action Arena α} {r : α} (h : change cx.arena = .ok r cx.arena) :
    Inert (edit change) r cx :=
  edit_eq_ok_iff.2 ⟨_, h, rfl⟩

theorem inert_when {asked : Bool} {p : Pass Unit} (h : asked = true → Inert p () cx) :
    Inert (when asked p) () cx := by
  unfold when
  split
  · exact h ‹_›
  · exact inert_pure

theorem inert_forM {xs : List α} {p : α → Pass PUnit} (h : ∀ x ∈ xs, Inert (p x) ⟨⟩ cx) :
    Inert (xs.forM p) ⟨⟩ cx := by
  induction xs with
  | nil => exact inert_pure
  | cons x xs ih => exact (h x (by simp)).bind (ih fun y hy => h y (by simp [hy]))

theorem inert_mapM {o : Option α} {p : α → Pass α} (h : ∀ x, o = some x → Inert (p x) x cx) :
    Inert (o.mapM p) o cx := by
  cases o with
  | none => exact inert_pure
  | some x =>
    show Inert (some <$> p x) (some x) cx
    rw [map_eq_pure_bind]
    exact (h x rfl).bind inert_pure

/-- A level for which there is room. -/
theorem inert_nested {span : Span} {overflow r : α} {body : Pass α} {inner : Nesting}
    (hinner : cx.nesting.enter = .ok inner) (hbody : Inert body r { cx with nesting := inner }) :
    Inert (nested span overflow body) r cx := by
  rw [nested_eq]
  refine (bind_eq_of_ok (enter_of_ok hinner)).trans ((bind_eq_of_ok hbody).trans ?_)
  exact bind_eq_of_ok (leave_of_ok (Nesting.leave_of_enter hinner))

/-- A recursion changes nothing where each level changes nothing, if the next does not.  `K` holds
of what a level is called for, with the room that is left there. -/
theorem inert_recursively {step : (α → Pass β) → α → Pass β} {g : α → β}
    {K : Nat → Arena → α → Prop}
    (hstep : ∀ self x (cx : Context), K cx.nesting.room cx.arena x →
      (∀ inner y, cx.nesting.enter = .ok inner → K inner.room cx.arena y →
        Inert (self y) (g y) { cx with nesting := inner }) → Inert (step self x) (g x) cx)
    {x : α} (h : K cx.nesting.room cx.arena x) : Inert (recursively step x) (g x) cx := by
  have level : ∀ room x (cx : Context), cx.nesting.room = room → K room cx.arena x →
      Inert (unroll step room x) (g x) cx := by
    intro room
    induction room with
    | zero =>
      refine fun x cx hroom h => hstep _ x cx (hroom ▸ h) fun inner y hinner => ?_
      cases (Nesting.room_of_enter hinner).symm.trans hroom
    | succ room ih =>
      refine fun x cx hroom h => hstep _ x cx (hroom ▸ h) fun inner y hinner hy => ?_
      have hroom' : inner.room = room :=
        Nat.succ.inj ((Nesting.room_of_enter hinner).symm.trans hroom)
      exact ih y _ hroom' (hroom' ▸ hy)
  exact level _ x cx rfl h

/-! ### Changes that change nothing -/

/-- A node is given its kind again, and no flags that it has not. -/
theorem inert_rebuild (hn : cx.arena.find? expr = some n) (hf : cx.arena.derivedFlags n = .ok f)
    (hflags : n.flags.union f = n.flags) : Inert (rebuild expr n.kind) () cx :=
  (inert_edit (Arena.update_eq_self hn rfl)).bind
    (inert_edit (Arena.deriveFlags_eq_self hn hf hflags))

/-- The operand is exchanged for itself. -/
theorem inert_exchanged {p : Pass NodeId} {g : NodeId → NodeKind} (hp : Inert p op cx)
    (hop : op ≠ .error) (hn : cx.arena.find? expr = some n) (hk : n.kind = g op) :
    Inert (do
      let r ← p
      if r = .error then return .error
      replaceKind expr (g r)) expr cx := by
  refine hp.bind ?_
  rw [if_neg hop]
  refine (inert_query (Arena.kindOf_eq_ok_iff.2 ⟨n, hn, rfl⟩)).bind ?_
  rw [if_neg (not_not.2 hk)]
  exact inert_pure

/-- A read that has been recorded is recorded. -/
theorem inert_recordRead (h : cx.arena.Recorded cx.nesting.room expr) :
    Inert (recordRead expr) () cx := by
  refine inert_recursively (g := fun _ => ()) (K := fun room a id => a.Recorded room id)
    (fun self expr cx h hself => ?_) h
  generalize hroom : cx.nesting.room = room at h
  cases room with
  | zero => exact h.elim
  | succ room =>
    obtain ⟨n, hn, hread, hops⟩ := h
    obtain ⟨inner, hinner, rfl⟩ := Nesting.exists_enter hroom
    refine (inert_query (Arena.map_node_of_find? hn)).bind (inert_nested hinner ?_)
    refine (inert_query (Arena.node_eq_ok_iff.2 hn)).bind ?_
    split
    · rename_i hk
      refine inert_edit (Arena.update_eq_self hn ?_)
      rw [NodeFlags.union_single_of_has (hread hk)]
    · exact inert_forM fun op hop => hself inner op hinner (hops op hop)

/-! ### Uses of normal forms -/

section Node

variable {self : NodeId × UseMode → Pass NodeId} {room : Nat}
  (h : cx.arena.NormalNode room mode expr n)
  (hself : ∀ op ∈ cx.arena.useOperands n, op ≠ .error ∧
    ∀ loc, Inert (self (op, mode.below n.kind loc)) op cx)
include h hself

/-- A location wrapper that is left is rebuilt as it was. -/
theorem inert_classifyWrapper (hk : n.kind = .unary .viewConvert op) (hw : n.wrapped? = some op) :
    Inert (classifyWrapper self expr op mode) expr cx := by
  obtain ⟨hrvalue, ⟨m, hm, hleaf⟩, e, he, hflags⟩ := h.wrapper op hk hw
  obtain ⟨hop, hcall⟩ := hself op (by
    rw [Arena.useOperands_unary hk (by decide)]
    exact List.mem_singleton_self op)
  rw [hk] at hcall
  refine (inert_query (Arena.map_node_of_find? h.node)).bind ((hcall n.span).bind ?_)
  rw [if_neg hop]
  refine (inert_query (Arena.kindOf_eq_ok_iff.2 ⟨m, hm, rfl⟩)).bind ?_
  rw [if_pos hleaf, hrvalue, if_neg Bool.false_ne_true, ← hk]
  refine (inert_rebuild h.node (Arena.derivedFlags_wrapper hk he) ?_).bind inert_pure
  cases e with
  | true => exact NodeFlags.union_single_of_has (hflags rfl)
  | false => exact NodeFlags.union_empty _

omit h in
/-- A reference that is its own value is not dereferenced again. -/
theorem inert_classifyReference (hk : n.kind = .unary .deref op)
    (href : cx.arena.isReference op = .ok true) :
    Inert (classifyReference self expr op mode) expr cx := by
  obtain ⟨hop, hcall⟩ := hself op (by
    rw [Arena.useOperands_reference hk href]
    exact List.mem_singleton_self op)
  rw [hk] at hcall
  refine (hcall mode.loc).bind ?_
  rw [if_neg hop, if_pos rfl]
  exact inert_pure

theorem inert_classifyNode : Inert (classifyNode self expr mode) expr cx := by
  have hcall : (∀ pointer, n.kind ≠ .unary .deref pointer) → ∀ op ∈ cx.arena.useOperands n,
      ∀ loc, Inert (self (op, { mode with loc })) op cx := fun hk op hop loc => by
    rw [← UseMode.below_of_ne_deref hk]
    exact (hself op hop).2 loc
  refine (inert_query (Arena.node_eq_ok_iff.2 h.node)).bind ?_
  split
  · rename_i object field hk
    have hop : object ∈ cx.arena.useOperands n := by simp [Arena.useOperands, hk]
    have hcall := hcall fun _ hp => by cases hk.symm.trans hp
    exact inert_exchanged (hcall _ hop _) (hself _ hop).1 h.node hk
  · rename_i lhs rhs hk
    have hop : rhs ∈ cx.arena.useOperands n := by simp [Arena.useOperands, hk]
    have hcall := hcall fun _ hp => by cases hk.symm.trans hp
    refine (inert_query (Arena.map_node_of_find? h.node)).bind ?_
    exact inert_exchanged (hcall _ hop _) (hself _ hop).1 h.node hk
  · rename_i first second third hk
    have hop : third ∈ cx.arena.useOperands n := by simp [Arena.useOperands, hk]
    have hsecond : ∀ op, second = some op → op ∈ cx.arena.useOperands n := by
      rintro op rfl
      simp [Arena.useOperands, hk]
    have hne : second ≠ some .error := fun he => (hself _ (hsecond _ he)).1 rfl
    have hcall := hcall fun _ hp => by cases hk.symm.trans hp
    refine (inert_mapM fun op ho => hcall op (hsecond op ho) mode.loc).bind ?_
    rw [if_neg hne]
    exact inert_exchanged (hcall _ hop _) (hself _ hop).1 h.node hk
  · rename_i pointer hk
    obtain ⟨reference, href⟩ := h.known pointer hk
    refine (inert_query href).bind ?_
    cases reference with
    | false => exact inert_pure
    | true => exact inert_classifyReference hself hk href
  · rename_i op operand hne hk
    have hcall := hcall fun pointer hp => hne (by cases hk.symm.trans hp; rfl)
    split
    · rename_i hw
      obtain ⟨rfl, hw⟩ := hw
      exact inert_classifyWrapper h hself hk (Node.wrapped?_of_isWrapper hw hk)
    · split
      · rename_i htransparent
        have hop : operand ∈ cx.arena.useOperands n := by
          rw [Arena.useOperands_unary hk hne, if_pos htransparent]
          exact List.mem_singleton_self operand
        exact inert_exchanged (hcall _ hop mode.loc) (hself _ hop).1 h.node hk
      · exact inert_pure
  · exact inert_pure

end Node

theorem inert_classifyUseStep {self : NodeId × UseMode → Pass NodeId}
    (h : cx.arena.Normal cx.nesting.room mode expr)
    (hself : ∀ inner op mode, cx.nesting.enter = .ok inner → cx.arena.Normal inner.room mode op →
      Inert (self (op, mode)) op { cx with nesting := inner }) :
    Inert (classifyUseStep self (expr, mode)) expr cx := by
  generalize hroom : cx.nesting.room = room at h
  cases h with
  | erroneous herr =>
    refine (inert_query herr).bind ?_
    exact inert_pure
  | @node room _ _ n h hops =>
    obtain ⟨inner, hinner, rfl⟩ := Nesting.exists_enter hroom
    refine (inert_query h.accepted).bind ((inert_query h.admitted).bind ?_)
    refine (inert_when fun hread => inert_recordRead (hroom ▸ h.read hread)).bind ?_
    refine (inert_query (Arena.map_node_of_find? h.node)).bind (inert_nested hinner ?_)
    exact inert_classifyNode h fun op hop =>
      ⟨(hops op hop).ne_error, fun loc => hself inner op _ hinner (hops op hop).at_below⟩

/-- The use of a normal form changes nothing. -/
theorem inert_classifyUse (h : cx.arena.Normal cx.nesting.room mode expr) :
    Inert (classifyUse expr mode) expr cx :=
  inert_recursively (g := Prod.fst) (K := fun room a p => a.Normal room p.2 p.1)
    (fun _ _ _ h hself => inert_classifyUseStep h fun inner op mode hinner hop =>
      hself inner (op, mode) hinner hop) h

/-! ### Two uses -/

/-- Where a use reports nothing and does not answer with the error node, the same use of its answer
answers with that again, reports nothing, and changes nothing.  If only the value is needed, none of
the nodes that it meets is a location wrapper; erroneous nodes are not entered. -/
theorem classifyUse_again {r : NodeId} {t : Context} (hrun : classifyUse expr mode cx = .ok r t)
    (hr : r ≠ .error) (hquiet : (classifyUse expr mode).reported cx = []) :
    classifyUse r mode t = .ok r t ∧ (classifyUse r mode).reported t = [] ∧
    (mode.rvalue = true → ∀ id n op, t.arena.UsedAlong r id → t.arena.find? id = some n →
      n.kind = .unary .viewConvert op → n.isWrapper = false) := by
  obtain ⟨u, hrun', harena, hgood⟩ := exists_run_unrefused hrun (by simp [hquiet])
  have hnesting := (classifyUse_derives recordsAs_marked r t hrun).1.nesting_eq
  have hnormal := ((classifyUse_derives recordsAs_records r u hrun').2 hgood hr).normal
  rw [harena] at hnormal
  have hinert : ∀ queue, Inert (classifyUse r mode) r { t with queue } := fun queue =>
    inert_classifyUse (hnesting ▸ hnormal)
  refine ⟨hinert t.queue, ?_, fun hrvalue id n op hid hn hk => ?_⟩
  · rw [reported, last_eq_of_ok (hinert _)]
    rfl
  · exact hnormal.isWrapper_eq_false hrvalue hid hn hk

end Pass

/-- The arena of `x ? r : x`, its last node, where the number behind the reference `r` is asked for
in a location wrapper around a conversion, and the second `x` is in a location wrapper. -/
def Arena.wrappedBranches : Arena :=
  { Arena.initial with
    nodes := Arena.initial.nodes ++ #[
      ⟨.referenceType .intType, none, .empty, .unknown⟩,
      ⟨.decl .var (.named ⟨1⟩), some ⟨6⟩, .empty, .unknown⟩,
      ⟨.unary .nop ⟨7⟩, some ⟨6⟩, .empty, .unknown⟩,
      ⟨.unary .viewConvert ⟨8⟩, some ⟨6⟩, .single .locationWrapper, ⟨1, 2⟩⟩,
      ⟨.unary .deref ⟨9⟩, some .intType, .empty, .unknown⟩,
      ⟨.decl .var (.named ⟨2⟩), some .intType, .empty, .unknown⟩,
      ⟨.unary .viewConvert ⟨11⟩, some .intType, .single .locationWrapper, ⟨3, 4⟩⟩,
      ⟨.cond ⟨11⟩ (some ⟨10⟩) ⟨12⟩, some .intType, .empty, .unknown⟩] }

namespace Pass

open ExprTree.Action

/-- The first use builds another dereference and makes a location wrapper a value; the second does
nothing. -/
theorem classifyUse_again_wrappedBranches :
    let cx := Context.ofArena .wrappedBranches ⟨16, .unlimited⟩
    let mode : UseMode := ⟨true, true, .unknown, true⟩
    ∃ t, classifyUse ⟨13⟩ mode cx = .ok ⟨13⟩ t ∧
      t.arena.kindOf ⟨13⟩ = .ok (.cond ⟨11⟩ (some ⟨14⟩) ⟨12⟩) ∧
      t.arena.kindOf ⟨12⟩ = .ok (.unary .nonLvalue ⟨11⟩) ∧ classifyUse ⟨13⟩ mode t = .ok ⟨13⟩ t ∧
      ∀ id n op, t.arena.UsedAlong ⟨13⟩ id → t.arena.find? id = some n →
        n.kind = .unary .viewConvert op → n.isWrapper = false := by
  intro cx mode
  obtain ⟨t, ht⟩ := answer?_eq_some_iff.1
    (show (classifyUse ⟨13⟩ mode).answer? cx = some ⟨13⟩ by decide +kernel)
  obtain ⟨hagain, -, hwrappers⟩ := classifyUse_again ht (by decide) (by decide +kernel)
  have hlast : ((classifyUse ⟨13⟩ mode).last cx).arena.kindOf ⟨13⟩ =
        .ok (.cond ⟨11⟩ (some ⟨14⟩) ⟨12⟩) ∧
      ((classifyUse ⟨13⟩ mode).last cx).arena.kindOf ⟨12⟩ = .ok (.unary .nonLvalue ⟨11⟩) :=
    ⟨by decide +kernel, by decide +kernel⟩
  rw [last_eq_of_ok ht] at hlast
  exact ⟨t, ht, hlast.1, hlast.2, hagain, hwrappers rfl⟩

end Pass

end ExprTree
