import ExprTree.Proofs.ReadRoom
import ExprTree.Proofs.Reduction

/-!
# Room for a use

A use of an expression takes one level for each node on its way, and on each of these levels it may
read what is left of the node.  The use of a discarded value uses a node once more on the level of
the node, and so takes one level more.  Neither raises an expression that it has still to go to, so
the room that there is at the start is enough for all.

* `Context.Affords` — room for reading an expression below some levels.
* `Context.Spares` — contexts between which no room is lost.
* `Pass.RoomyCalls` — the calls of a recursive pass from a level.
* `Pass.hasRoom_classifyUse`, `Pass.hasRoom_classifyDiscarded` — uses with enough room.
-/

namespace ExprTree

open Reading (heights heights_lawful)

namespace Context

variable {cx t u : Context} {expr op r inner : NodeId} {n : Node} {levels : Nat}

/-- There is room for reading an expression below so many levels. -/
def Affords (levels : Nat) (cx : Context) (expr : NodeId) : Prop :=
  ∃ x, heights.Sound cx.arena x ∧ x expr + levels ≤ cx.nesting.room

theorem affords_of_intact (h : cx.arena.Intact expr)
    (hroom : cx.arena.readHeight expr + levels ≤ cx.nesting.room) : cx.Affords levels expr := by
  obtain ⟨x, hx, hexpr⟩ := Arena.exists_heights h
  exact ⟨x, hx, hexpr ▸ hroom⟩

namespace Affords

theorem readHeight_le (h : cx.Affords levels expr) :
    cx.arena.readHeight expr ≤ cx.nesting.room := by
  obtain ⟨x, hx, hroom⟩ := h
  exact (hx.1.readHeight_le expr).trans (le_self_add.trans hroom)

theorem room_pos (h : cx.Affords levels expr) (hn : cx.arena.find? expr = some n) :
    0 < cx.nesting.room := by
  obtain ⟨x, hx, hroom⟩ := h
  have hpos : (1 : ℕ∞) ≤ cx.nesting.room := (hx.1.pos hn).trans (le_self_add.trans hroom)
  exact_mod_cast hpos

/-- What is lower needs no more room. -/
theorem of_le {x : NodeId → ℕ∞} {levels' : Nat} (hx : heights.Sound cx.arena x)
    (hroom : x expr + levels ≤ cx.nesting.room) (hle : x op + levels' ≤ x expr + levels) :
    cx.Affords levels' op := ⟨x, hx, hle.trans hroom⟩

/-- An operand that is read along can be read below one more level. -/
theorem operand (h : cx.Affords levels expr) (hn : cx.arena.find? expr = some n)
    (hop : op ∈ n.readOperands) : cx.Affords (levels + 1) op := by
  obtain ⟨x, hx, hroom⟩ := h
  refine of_le hx hroom ?_
  calc x op + ((levels + 1 : Nat) : ℕ∞) = x op + 1 + levels := by
        rw [Nat.cast_succ, add_comm (levels : ℕ∞) 1, add_assoc]
    _ ≤ x expr + levels := by gcongr; exact hx.1.operand hn op hop

theorem stripped (h : cx.Affords levels expr) (hinner : cx.arena.stripWrapper expr = .ok inner) :
    cx.Affords levels inner := by
  obtain ⟨x, hx, hroom⟩ := h
  refine of_le hx hroom ?_
  gcongr
  exact Reading.heights_le (Reading.stripWrapper_stands heights_lawful hx hinner)

/-- One level is entered. -/
theorem enter {level : Nesting} (h : cx.Affords (levels + 1) expr)
    (hlevel : cx.nesting.enter = .ok level) :
    Affords levels { cx with nesting := level } expr := by
  obtain ⟨x, hx, hroom⟩ := h
  rw [Nat.cast_succ, ← add_assoc] at hroom
  exact ⟨x, hx, Nesting.le_room hlevel hroom⟩

end Affords

/-- The depth is the same, and there is room for everything that there was room for. -/
structure Spares (cx t : Context) : Prop where
  nesting_eq : t.nesting = cx.nesting
  affords : ∀ {levels expr}, cx.Affords levels expr → t.Affords levels expr

/-- What there is room for keeps its number. -/
theorem room_of_keepsHeights {x y : NodeId → ℕ∞} (hnesting : t.nesting = cx.nesting)
    (hkeeps : cx.arena.KeepsHeights x t.arena y) (hroom : x expr + levels ≤ cx.nesting.room) :
    y expr + levels ≤ t.nesting.room := by
  -- a number that fits into the room is finite, and finite numbers are kept
  have hfinite : x expr ≠ ⊤ := by
    intro htop
    rw [htop, top_add] at hroom
    exact ENat.natCast_ne_top _ (top_le_iff.1 hroom)
  rwa [hkeeps.finite expr hfinite, hnesting]

end Context

namespace Pass

open ExprTree.Action

variable {α β : Type} {cx t : Context} {expr : NodeId} {mode : UseMode} {levels : Nat}
  {level : Nesting}

/-! ### Room that is left -/

theorem wlp_spares {p : Pass α} (hp : Balanced p) (h : ∀ x, heights.Sound cx.arena x →
      wlp p (fun _ t => ∃ y, heights.Sound t.arena y ∧ cx.arena.KeepsHeights x t.arena y) cx) :
    wlp p (fun _ t => cx.Spares t) cx := by
  refine ((hp.restores cx).and (wlp_forall.2 h)).mono fun _ t ⟨hdepth, ht⟩ => ?_
  refine ⟨hdepth.nesting_eq, fun ⟨x, hx, hroom⟩ => ?_⟩
  obtain ⟨y, hy, hkeeps⟩ := ht x hx
  exact ⟨y, hy, Context.room_of_keepsHeights hdepth.nesting_eq hkeeps hroom⟩

/-- A pass whose answer takes the place of an expression leaves all room, and the answer needs no
more than the expression. -/
theorem wlp_spares_answer {p : Pass NodeId} (hp : Balanced p)
    (h : ∀ x, heights.Sound cx.arena x → wlp p (heights.Places cx x expr) cx) :
    wlp p (fun r t => cx.Spares t ∧
      ∀ levels, cx.Affords levels expr → r ≠ .error → t.Affords levels r) cx := by
  have hspares : wlp p (fun _ t => cx.Spares t) cx := wlp_spares hp fun x hx =>
    (h x hx).mono fun _ _ ⟨y, hy, hl, _⟩ => ⟨y, hy, hl.2⟩
  refine (hspares.and (wlp_forall.2 h)).mono fun r t ⟨ht, hplaces⟩ => ⟨ht, ?_⟩
  rintro levels ⟨x, hx, hroom⟩ hne
  obtain ⟨y, hy, hl, hr⟩ := hplaces x hx
  refine Context.Affords.of_le hy (Context.room_of_keepsHeights ht.nesting_eq hl.2 hroom) ?_
  gcongr
  exact Reading.heights_le (hr hne)

theorem spares_recordRead : wlp (recordRead expr) (fun _ t => cx.Spares t) cx :=
  wlp_spares (balanced_law.recordRead expr) fun x hx =>
    (Reading.recordRead_keeps heights_lawful expr cx).mono fun _ _ ht =>
      ⟨x, (ht x hx).1, (ht x hx).2.2⟩

theorem spares_when {asked : Bool} :
    wlp (when asked (recordRead expr)) (fun _ t => cx.Spares t) cx := by
  rw [wlp_when]
  split
  · exact spares_recordRead
  · exact ⟨rfl, id⟩

/-- A use leaves all room, and its answer needs no more than the expression. -/
theorem spares_classifyUse : wlp (classifyUse expr mode) (fun r t => cx.Spares t ∧
    ∀ levels, cx.Affords levels expr → r ≠ .error → t.Affords levels r) cx :=
  wlp_spares_answer (balanced_law.classifyUse expr mode) fun _ hx =>
    Reading.classifyUse_places heights_lawful expr mode cx ⟨hx, trivial⟩

theorem spares_classifyDiscarded : wlp (classifyDiscarded expr) (fun r t => cx.Spares t ∧
    ∀ levels, cx.Affords levels expr → r ≠ .error → t.Affords levels r) cx :=
  wlp_spares_answer (balanced_law.classifyDiscarded expr) fun _ hx =>
    Reading.classifyDiscarded_places heights_lawful expr cx ⟨hx, trivial⟩

/-! ### Calls -/

/-- Calls of a recursive pass from a level: no level is refused, where there is room for reading
what the call is about below some levels. -/
structure RoomyCalls (step : (α → Pass β) → α → Pass β) (subject : α → NodeId) (levels : Nat)
    (level : Nesting) (call : α → Pass β) : Prop where
  run_eq : ∀ p t, t.nesting = level → call p t = recursively step p t
  hasRoom : ∀ p t, t.nesting = level → t.Affords levels (subject p) → HasRoom (call p) t

section Calls

variable {step : (α → Pass β) → α → Pass β} {subject : α → NodeId} {self : α → Pass β} {p : α}
  {Q : β → Context → Prop}

theorem RoomyCalls.wlp (h : RoomyCalls step subject levels level self) (ht : t.nesting = level)
    (hQ : wlp (recursively step p) Q t) : wlp (self p) Q t := by
  intro r u hu
  rw [h.run_eq p t ht] at hu
  exact hQ r u hu

theorem hasRoom_recursively (subject : α → NodeId)
    (h : ∀ self cx p, (∀ level, cx.nesting.enter = .ok level →
      RoomyCalls step subject levels level self) → cx.Affords levels (subject p) →
        HasRoom (step self p) cx) (hp : cx.Affords levels (subject p)) :
    HasRoom (recursively step p) cx := by
  refine logsAt_recursively (P := fun cx p => cx.Affords levels (subject p))
    (fun self cx p hself hp => h self cx p (fun level hlevel => ?_) hp) hp
  have hroom : ∀ t : Context, t.nesting = level → t.nesting.room + 1 = cx.nesting.room :=
    fun t ht => by rw [ht, Nesting.room_of_enter hlevel]
  exact ⟨fun p t ht => (hself p t (hroom t ht)).1, fun p t ht => (hself p t (hroom t ht)).2⟩

end Calls

/-! ### Parts of a use -/

theorem logs_rebuild {Own : Diagnostic → Prop} {kind : NodeKind} :
    Logs Own (rebuild expr kind) :=
  (logs_edit _).bind fun _ => logs_edit _

theorem logs_replaceKind {Own : Diagnostic → Prop} {kind : NodeKind} :
    Logs Own (replaceKind expr kind) := by
  refine (logs_ask _).bind fun old => ?_
  split
  · exact logs_rebuild.bind fun _ => logs_ask fun _ => .ok expr
  · exact logs_ask fun _ => .ok expr

theorem logs_rejectBuiltin {Own : Diagnostic → Prop} {loc : Span}
    (hown : ∀ span name, Own (.builtinNotCalled span name)) :
    Logs Own (rejectBuiltin expr loc) :=
  (logs_ask _).bind fun _ => (logs_ask _).bind fun _ => (logs_ask _).bind fun _ =>
    (logs_error (hown _ _)).bind fun _ => logs_ask fun _ => .ok NodeId.error

/-- An answer goes on unless it is the error node. -/
theorem logsAt_orError {Own : Diagnostic → Prop} {p : Pass NodeId} {f : NodeId → Pass NodeId}
    (hp : LogsAt Own p cx) (hf : wlp p (fun r t => r ≠ .error → LogsAt Own (f r) t) cx) :
    LogsAt Own (p >>= fun r => if r = .error then pure .error else f r) cx := by
  refine hp.bind (hf.mono fun r t h => ?_)
  split
  · exact logsAt_pure _
  · rename_i hne
    exact h hne

theorem hasRoom_when {asked : Bool} (h : cx.Affords levels expr) :
    HasRoom (when asked (recordRead expr)) cx := by
  unfold Pass.when
  split
  · exact hasRoom_recordRead h.readHeight_le
  · exact logsAt_pure ()

theorem hasRoom_dereference (h : cx.Affords levels expr) : HasRoom (dereference expr) cx := by
  refine logsAt_query.bind fun type t htype => ?_
  obtain ⟨-, rfl⟩ := ask_eq_ok_iff.1 htype
  cases type with
  | none => exact logsAt_pure _
  | some type =>
    refine logsAt_query.bind fun kind t hkind => ?_
    obtain ⟨-, rfl⟩ := ask_eq_ok_iff.1 hkind
    split
    · exact (hasRoom_recordRead h.readHeight_le).bind fun _ t _ =>
        logsAt_query.bind fun _ u _ => logs_edit _ u
    · exact logsAt_pure _

section Use

variable {self : NodeId × UseMode → Pass NodeId}
  (hself : RoomyCalls classifyUseStep Prod.fst 0 level self) (hlevel : cx.nesting = level)
include hself hlevel

theorem hasRoom_classifyWrapper {operand : NodeId} (hop : cx.Affords 0 operand) :
    HasRoom (classifyWrapper self expr operand mode) cx := by
  refine logsAt_query.bind fun loc t hloc => ?_
  obtain ⟨-, rfl⟩ := ask_eq_ok_iff.1 hloc
  refine logsAt_orError (hself.hasRoom _ _ hlevel hop) fun r t _ _ => ?_
  refine logsAt_query.bind fun kind u _ => ?_
  dsimp only
  by_cases hkeep : (kind.isDecl || kind.isConstant) = true
  · rw [if_pos hkeep]
    exact LogsAt.bind (logs_rebuild u) fun _ _ _ => logsAt_pure _
  · rw [if_neg hkeep]
    have hmove : HasRoom (Pass.when kind.isExpression (edit (Arena.setSpan r loc))) u := by
      unfold Pass.when
      split
      · exact logs_edit _ u
      · exact logsAt_pure ()
    exact hmove.bind fun _ _ _ => logsAt_pure _

theorem hasRoom_classifyReference {pointer : NodeId} (hop : cx.Affords 0 pointer) :
    HasRoom (classifyReference self expr pointer mode) cx := by
  refine logsAt_orError (hself.hasRoom _ _ hlevel hop)
    (hself.wlp hlevel (spares_classifyUse.mono fun value t ht hne => ?_))
  split
  · exact logsAt_pure _
  · exact hasRoom_dereference (ht.2 0 hop hne)

theorem hasRoom_classifyNode (hops : ∀ n, cx.arena.find? expr = some n →
      ∀ op ∈ n.readOperands, cx.Affords 0 op) : HasRoom (classifyNode self expr mode) cx := by
  refine logsAt_query.bind (wlp_query.2 fun n hn => ?_)
  have hop := hops n (Arena.node_eq_ok_iff.1 hn)
  have hcall : ∀ op ∈ n.readOperands, ∀ mode, HasRoom (self (op, mode)) cx :=
    fun op h mode => hself.hasRoom _ _ hlevel (hop op h)
  cases hk : n.kind with
  | componentRef object field =>
    have hmem : object ∈ n.readOperands := Node.mem_readOperands_component hk
    exact logsAt_orError (hcall object hmem mode) fun _ t _ _ => logs_replaceKind t
  | comma lhs rhs =>
    have hmem : rhs ∈ n.readOperands := Node.mem_readOperands_comma hk
    refine logsAt_query.bind fun loc t hloc => ?_
    obtain ⟨-, rfl⟩ := ask_eq_ok_iff.1 hloc
    exact logsAt_orError (hcall rhs hmem _) fun _ t _ _ => logs_replaceKind t
  | cond first second third =>
    have hsecond : ∀ op ∈ second, op ∈ n.readOperands := fun op ho =>
      Node.mem_readOperands_second hk ho
    have hthird : third ∈ n.readOperands := Node.mem_readOperands_third hk
    have hspares : wlp (second.mapM fun op => self (op, mode)) (fun _ t => cx.Spares t) cx := by
      rw [wlp_mapM]
      cases second with
      | none => exact ⟨rfl, id⟩
      | some op => exact hself.wlp hlevel (spares_classifyUse.mono fun _ _ ht => ht.1)
    -- the second operand has been rewritten when the third is used, which is as low as before
    refine (LogsAt.mapM fun op h => hcall op (hsecond op h) mode).bind
      (hspares.mono fun o t ht => ?_)
    split
    · exact logsAt_pure _
    · exact logsAt_orError (hself.hasRoom _ _ (ht.nesting_eq.trans hlevel)
        (ht.affords (hop third hthird))) fun _ u _ _ => logs_replaceKind u
  | unary op operand =>
    have hread : op.readsOperand = true → operand ∈ n.readOperands :=
      Node.mem_readOperands_unary hk
    cases op with
    | deref =>
      refine logsAt_query.bind fun reference t href => ?_
      obtain ⟨-, rfl⟩ := ask_eq_ok_iff.1 href
      split
      · exact hasRoom_classifyReference hself hlevel (hop operand (hread rfl))
      · exact logsAt_pure _
    | _ =>
      dsimp only
      split
      · rename_i hwrapper
        exact hasRoom_classifyWrapper hself hlevel
          (hop operand (hread (by rw [hwrapper.1]; rfl)))
      split
      · rename_i htransparent
        have hoperand := hread (UnaryOp.readsOperand_of_isTransparent htransparent)
        exact logsAt_orError (hcall operand hoperand mode) fun _ t _ _ => logs_replaceKind t
      · exact logsAt_pure _
  | _ => exact logsAt_pure _

end Use

/-! ### Uses -/

/-- One level of a use: what is read before the level is entered is no higher than the node. -/
theorem hasRoom_classifyUseStep {self : NodeId × UseMode → Pass NodeId}
    (hself : ∀ level, cx.nesting.enter = .ok level →
      RoomyCalls classifyUseStep Prod.fst 0 level self) (h : cx.Affords 0 expr) :
    HasRoom (classifyUseStep self (expr, mode)) cx := by
  refine logsAt_query.bind fun erroneous t herr => ?_
  obtain ⟨-, rfl⟩ := ask_eq_ok_iff.1 herr
  split
  · exact logsAt_pure _
  refine logsAt_query.bind fun rejected t hrejected => ?_
  obtain ⟨-, rfl⟩ := ask_eq_ok_iff.1 hrejected
  split
  · exact logs_rejectBuiltin (fun _ _ => nofun) cx
  -- the read comes back before the level of the use is entered, and has left the room for it
  refine (hasRoom_when h).bind (spares_when.mono fun _ t ht => ?_)
  have hexpr := ht.affords h
  refine logsAt_query.bind (wlp_query.2 fun span hspan => ?_)
  obtain ⟨n, hn, -⟩ := Arena.map_eq_ok_iff.1 hspan
  rw [Arena.node_eq_ok_iff] at hn
  refine logsAt_level (hexpr.room_pos hn) fun level hlevel => ?_
  refine hasRoom_classifyNode (hself level (ht.nesting_eq ▸ hlevel)) rfl fun m hm op hop => ?_
  exact (hexpr.operand hm hop).enter hlevel

/-- A use with room for the height of the expression. -/
theorem hasRoom_classifyUse (h : cx.Affords 0 expr) : HasRoom (classifyUse expr mode) cx :=
  hasRoom_recursively Prod.fst (fun _ _ _ => hasRoom_classifyUseStep) h

/-- A use that reads its expression needs no more room where a handle dangles: the read does not
come back from there. -/
theorem hasRoom_classifyUse_of_read (hread : mode.read = true)
    (h : cx.arena.readHeight expr ≤ cx.nesting.room) : HasRoom (classifyUse expr mode) cx := by
  by_cases hintact : cx.arena.Intact expr
  · exact hasRoom_classifyUse (Context.affords_of_intact hintact (by simpa using h))
  refine logsAt_recursively (P := fun t p => cx = t ∧ (expr, mode) = p) ?_ ⟨rfl, rfl⟩
  rintro self _ _ - ⟨rfl, rfl⟩
  refine logsAt_query.bind fun erroneous t herr => ?_
  obtain ⟨-, rfl⟩ := ask_eq_ok_iff.1 herr
  split
  · exact logsAt_pure _
  refine logsAt_query.bind fun rejected t hrejected => ?_
  obtain ⟨-, rfl⟩ := ask_eq_ok_iff.1 hrejected
  split
  · exact logs_rejectBuiltin (fun _ _ => nofun) cx
  rw [hread]
  exact (hasRoom_recordRead h).bind fun r t ht => absurd ((recordRead_hasRead r t ht).2 h) hintact

/-! ### Discarded uses -/

section Discarded

variable {self : NodeId → Pass NodeId} (hself : RoomyCalls classifyDiscardedStep id 1 level self)
include hself

/-- On the level of a node, the node can be used or its operands can be discarded. -/
theorem hasRoom_classifyDiscardedNode (hlevel : cx.nesting = level) (hexpr : cx.Affords 0 expr) :
    HasRoom (classifyDiscardedNode self expr) cx := by
  refine logsAt_query.bind (wlp_query.2 fun kind hkind => ?_)
  obtain ⟨n, hn, rfl⟩ := Arena.kindOf_eq_ok_iff.1 hkind
  have hop : ∀ op ∈ n.readOperands, cx.Affords 1 op := fun op h => hexpr.operand hn h
  -- a use of the node starts over with it, one level below
  have huse : HasRoom (discardedRvalueUse expr) cx := by
    refine (logsAt_ask fun cx => .ok cx).bind fun t u hget => ?_
    obtain ⟨-, rfl⟩ := ask_eq_ok_iff.1 hget
    exact hasRoom_classifyUse hexpr
  split
  · rename_i first second third hk
    have hthird : third ∈ n.readOperands := Node.mem_readOperands_third hk
    have hsecond : ∀ op ∈ second, op ∈ n.readOperands := fun op ho =>
      Node.mem_readOperands_second hk ho
    refine (hself.hasRoom third cx hlevel (hop third hthird)).bind
      (hself.wlp hlevel (spares_classifyDiscarded.mono fun r t ht => ?_))
    refine (LogsAt.mapM fun op h => hself.hasRoom op t (ht.1.nesting_eq.trans hlevel)
      (ht.1.affords (hop op (hsecond op h)))).bind fun o u _ => ?_
    dsimp only
    split
    · exact logsAt_pure _
    · exact LogsAt.bind (logs_rebuild u) fun _ _ _ => logsAt_pure _
  · rename_i lhs rhs hk
    have hrhs : rhs ∈ n.readOperands := Node.mem_readOperands_comma hk
    exact logsAt_orError (hself.hasRoom rhs cx hlevel (hop rhs hrhs)) fun _ t _ _ =>
      LogsAt.bind (logs_rebuild t) fun _ _ _ => logsAt_pure _
  case h_3 | h_4 | h_5 | h_6 => exact huse
  split
  · exact huse
  · exact logsAt_pure _

end Discarded

theorem hasRoom_classifyDiscardedStep {self : NodeId → Pass NodeId}
    (hself : ∀ level, cx.nesting.enter = .ok level →
      RoomyCalls classifyDiscardedStep id 1 level self) (h : cx.Affords 1 expr) :
    HasRoom (classifyDiscardedStep self expr) cx := by
  refine logsAt_query.bind (wlp_query.2 fun inner hinner => ?_)
  refine logsAt_query.bind (wlp_query.2 fun span hspan => ?_)
  obtain ⟨n, hn, -⟩ := Arena.map_eq_ok_iff.1 hspan
  have hstripped := h.stripped hinner
  exact logsAt_level (hstripped.room_pos (Arena.node_eq_ok_iff.1 hn)) fun level hlevel =>
    hasRoom_classifyDiscardedNode (hself level hlevel) rfl (hstripped.enter hlevel)

/-- The use of a discarded value with room for one level more than the height of the expression. -/
theorem hasRoom_classifyDiscarded (h : cx.Affords 1 expr) :
    HasRoom (classifyDiscarded expr) cx :=
  hasRoom_recursively id (fun _ _ _ => hasRoom_classifyDiscardedStep) h

end Pass

end ExprTree
