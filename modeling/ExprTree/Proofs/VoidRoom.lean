import ExprTree.Proofs.Returning
import ExprTree.Proofs.UseRoom

/-!
# Room for a reduction

The reduction of an expression discards its value on the level of the expression, and reduces its
operands from there.  So it takes two levels more than the height of the expression: one for itself,
and the one that a discarded use takes.

* `Pass.hasRoom_toVoid` — a reduction with enough room.
* `Nesting.le_room_of_add_le`, `Nesting.room_lt_of_lt_add` — room in terms of depth and limit.
* `Pass.levels_suffice` — the levels that each pass needs.
-/

namespace ExprTree

open Reading (heights heights_lawful)

namespace Pass

open ExprTree.Action

variable {cx t : Context} {expr : NodeId} {loc : Span} {site : DiscardSite} {level : Nesting}

theorem spares_toVoid : wlp (toVoid expr site) (fun _ t => cx.Spares t) cx :=
  wlp_spares (balanced_law.toVoid expr site) fun _ hx =>
    (Reading.toVoid_reduces heights_lawful expr site cx ⟨hx, trivial⟩).mono
      fun _ _ ⟨y, hy, hl, _⟩ => ⟨y, hy, hl.2⟩

/-- Warnings are no refused levels. -/
theorem reportsOf_hasRoom {n : Node} : ReportsOf (fun d => d.code ≠ .tooDeep) expr n loc cx where
  deref pointer type site _ _ := by
    refine logsAt_voidDeref (fun reference => logs_warnVolatile ?_) (fun reference _ => ?_)
      fun expr site => logs_warnIgnored fun d hd => ?_
    · rintro code message (rfl | rfl | rfl) <;> nofun
    · exact logsAt_warnUnusedValue fun _ _ _ => nofun
    · rw [hd]
      nofun
  var payload type site _ _ := logs_warnVariable (fun message => nofun) cx

section Void

variable {self : NodeId × DiscardSite → Pass NodeId}

/-- The operands of an expression that can be read below one level can be reduced. -/
theorem hasRoom_voidByKind (hself : RoomyCalls toVoidStep Prod.fst 2 level self)
    (hlevel : cx.nesting = level) (hexpr : cx.Affords 1 expr) {n : Node} {type : NodeId}
    (hn : cx.arena.find? expr = some n) (ht : n.type = some type) :
    HasRoom (voidByKind self expr type loc site) cx := by
  have hop : ∀ op ∈ n.readOperands, cx.Affords 2 op := fun op h => hexpr.operand hn h
  refine logsAt_voidByKind hn ht (fun first second third hk => ?_) (fun lhs rhs hk => ?_)
    reportsOf_hasRoom fun expr site => logs_warnIgnored fun d hd => by rw [hd]; nofun
  · have hthird : third ∈ n.readOperands := Node.mem_readOperands_third hk
    have hsecond : ∀ op ∈ second, op ∈ n.readOperands := fun op ho =>
      Node.mem_readOperands_second hk ho
    refine logsAt_voidCond (P := cx.Spares) (fun _ => ⟨rfl, id⟩) (fun op h place => ?_)
      fun place t ht => ?_
    · exact ⟨hself.hasRoom _ cx hlevel (hop op (hsecond op h)), hself.wlp hlevel spares_toVoid⟩
    · exact hself.hasRoom _ t (ht.nesting_eq.trans hlevel) (ht.affords (hop third hthird))
  · have hrhs : rhs ∈ n.readOperands := Node.mem_readOperands_comma hk
    exact logsAt_voidComma fun place => hself.hasRoom _ cx hlevel (hop rhs hrhs)

theorem hasRoom_voidNode (hself : RoomyCalls toVoidStep Prod.fst 2 level self)
    (hlevel : cx.nesting = level) (hexpr : cx.Affords 1 expr) :
    HasRoom (voidNode self expr loc site) cx := by
  -- what the discarded use answers takes the place of the expression with the room that it had
  refine (hasRoom_classifyDiscarded hexpr).bind (spares_classifyDiscarded.mono fun r t ht => ?_)
  refine logsAt_query.bind (wlp_query.2 fun erroneous herr => ?_)
  cases erroneous with
  | true => exact logsAt_pure _
  | false =>
    have hne : r ≠ .error := by
      rintro rfl
      cases herr
    have hr : t.Affords 1 r := ht.2 1 hexpr hne
    rw [if_neg Bool.false_ne_true]
    refine (hasRoom_when hr).bind (spares_when.mono fun _ u hu => ?_)
    have htyped : HasRoom (voidTyped self r loc site) u := logsAt_voidTyped fun n type hn htype =>
      hasRoom_voidByKind hself ((hu.nesting_eq.trans ht.1.nesting_eq).trans hlevel)
        (hu.affords hr) hn htype
    exact htyped

theorem hasRoom_toVoidStep (hself : ∀ level, cx.nesting.enter = .ok level →
      RoomyCalls toVoidStep Prod.fst 2 level self) (h : cx.Affords 2 expr) :
    HasRoom (toVoidStep self (expr, site)) cx := by
  refine logsAt_query.bind fun erroneous t herr => ?_
  obtain ⟨-, rfl⟩ := ask_eq_ok_iff.1 herr
  split
  · exact logsAt_pure _
  refine (logsAt_ask _).bind (wlp_location.2 fun loc hloc => ?_)
  obtain ⟨n, hn, -⟩ := Arena.map_eq_ok_iff.1 hloc
  exact logsAt_level (h.room_pos (Arena.node_eq_ok_iff.1 hn)) fun level hlevel =>
    hasRoom_voidNode (hself level hlevel) rfl (h.enter hlevel)

end Void

/-- A reduction with room for two levels more than the height of the expression. -/
theorem hasRoom_toVoid (h : cx.Affords 2 expr) : HasRoom (toVoid expr site) cx :=
  hasRoom_recursively Prod.fst (fun _ _ _ => hasRoom_toVoidStep) h

end Pass

/-! ### Levels -/

namespace Nesting

variable {n : Nesting} {c : ℕ∞}

theorem le_room_of_add_le (h : (n.depth : ℕ∞) + c ≤ n.limit) : c ≤ n.room := by
  have hdepth : (n.depth : ℕ∞) ≠ ⊤ := ENat.natCast_ne_top _
  calc c ≤ (n.limit : ℕ∞) - n.depth := ENat.le_sub_of_add_le_left hdepth h
    _ = n.room := (ENat.natCast_sub _ _).symm

theorem room_lt_of_lt_add (h : (n.limit : ℕ∞) < n.depth + c) (hc : 1 ≤ c) : (n.room : ℕ∞) < c := by
  by_contra hle
  rw [not_lt] at hle
  have hpos : (1 : ℕ∞) ≤ n.room := hc.trans hle
  have hroom : n.depth + n.room ≤ n.limit := by
    have : 1 ≤ n.room := by exact_mod_cast hpos
    unfold room at this ⊢
    omega
  refine absurd h (not_lt.2 ?_)
  calc (n.depth : ℕ∞) + c ≤ n.depth + n.room := by gcongr
    _ ≤ n.limit := by exact_mod_cast hroom

end Nesting

namespace Pass

open ExprTree.Action

variable {cx t : Context} {expr : NodeId}

/-- A read that returns asks for the span of its expression first. -/
theorem one_le_readHeight_of_recordRead (h : recordRead expr cx = .ok () t) :
    1 ≤ cx.arena.readHeight expr := by
  refine wlp_recursively_of_step (Q := fun _ _ => 1 ≤ cx.arena.readHeight expr)
    (fun self => ?_) () t h
  unfold recordReadStep
  rw [wlp_bind, wlp_query]
  intro span hspan
  obtain ⟨n, hn, -⟩ := Arena.map_eq_ok_iff.1 hspan
  exact fun _ _ _ => cx.arena.mounts_readHeight.pos (Arena.node_eq_ok_iff.1 hn)

/-- Let the height of an expression be the largest number of nodes on a path along which a read of
it leads.  If depth and height are within the limit, no level is refused to a read, nor to a use
that reads.  If they exceed it, a read that returns reports that a level has been refused.  Where no
handle dangles along the way, a read returns; and no level is refused to any use if depth and height
are within the limit, to the use of a discarded value if there is one level more, and to a reduction
if there are two. -/
theorem levels_suffice (cx : Context) (expr : NodeId) :
    let depth : ℕ∞ := cx.nesting.depth
    let limit : ℕ∞ := cx.nesting.limit
    let height := cx.arena.readHeight expr
    (depth + height ≤ limit → HasRoom (recordRead expr) cx ∧
      ∀ mode, mode.read = true → HasRoom (classifyUse expr mode) cx) ∧
    (limit < depth + height → ∀ t, recordRead expr cx = .ok () t → ∃ spans : List Span,
      spans ≠ [] ∧ t.queue = cx.queue.refusals cx.nesting.limit spans) ∧
    (cx.arena.Intact expr →
      (∃ t, recordRead expr cx = .ok () t) ∧
      (∀ mode, depth + height ≤ limit → HasRoom (classifyUse expr mode) cx) ∧
      (depth + height + 1 ≤ limit → HasRoom (classifyDiscarded expr) cx) ∧
      ∀ site, depth + height + 2 ≤ limit → HasRoom (toVoid expr site) cx) := by
  intro depth limit height
  have haffords : ∀ levels : Nat, cx.arena.Intact expr → depth + height + levels ≤ limit →
      cx.Affords levels expr := by
    intro levels hintact hlevels
    rw [add_assoc] at hlevels
    exact Context.affords_of_intact hintact (Nesting.le_room_of_add_le hlevels)
  refine ⟨fun h => ?_, fun h t ht => ?_,
    fun hintact => ⟨?_, fun mode h => ?_, fun h => ?_, fun site h => ?_⟩⟩
  · have hroom := Nesting.le_room_of_add_le h
    exact ⟨hasRoom_recordRead hroom, fun mode hread => hasRoom_classifyUse_of_read hread hroom⟩
  · have hscarce : (cx.nesting.room : ℕ∞) < cx.arena.readHeight expr :=
      Nesting.room_lt_of_lt_add h (one_le_readHeight_of_recordRead ht)
    obtain ⟨-, spans, hspans, hqueue⟩ := (recordRead_hasRead () t ht).1
    exact ⟨spans, hspans hscarce, by rw [hqueue]⟩
  · obtain ⟨_, t, ht, -⟩ := faultless_recordRead hintact
    exact ⟨t, ht⟩
  · exact hasRoom_classifyUse (haffords 0 hintact (by simpa using h))
  · exact hasRoom_classifyDiscarded (haffords 1 hintact (by simpa using h))
  · exact hasRoom_toVoid (haffords 2 hintact (by simpa using h))

end Pass

/-- The arena of two conditionals.  One is between the object behind the result of a call, which is
in a location wrapper, and a node below three conversions; the other between two commas with the
value of that node, and the same object.  The last node has a branch that is not there. -/
def Arena.branches (id : NodeId) : Arena :=
  { Arena.initial with
    nodes := Arena.initial.nodes ++ #[
      ⟨.referenceType .intType, none, .empty, .unknown⟩,
      ⟨.call none .empty, some ⟨6⟩, .single .effect, .unknown⟩,
      ⟨.unary .viewConvert ⟨7⟩, some ⟨6⟩, .ofList [.effect, .locationWrapper], .unknown⟩,
      ⟨.unary .deref ⟨8⟩, some .intType, .single .effect, .unknown⟩,
      ⟨.decl .var (.named ⟨0⟩), some .boolType, .empty, .unknown⟩,
      ⟨.unary .nop id, some .intType, .empty, .unknown⟩,
      ⟨.unary .nop ⟨11⟩, some .intType, .empty, .unknown⟩,
      ⟨.unary .nop ⟨12⟩, some .intType, .empty, .unknown⟩,
      ⟨.cond ⟨10⟩ (some ⟨9⟩) ⟨13⟩, some .intType, .single .effect, .unknown⟩,
      ⟨.comma ⟨10⟩ id, some .intType, .empty, .unknown⟩,
      ⟨.comma ⟨10⟩ ⟨15⟩, some .intType, .empty, .unknown⟩,
      ⟨.cond ⟨10⟩ (some ⟨16⟩) ⟨9⟩, some .intType, .single .effect, .unknown⟩,
      ⟨.cond ⟨10⟩ (some ⟨99⟩) ⟨13⟩, some .intType, .empty, .unknown⟩] }

namespace Pass

open ExprTree.Action

/-- From depth one, the value of a variable below three conversions and a conditional takes the
levels up to the sixth; so does discarding it below two commas and a conditional, and a reduction
takes one more. -/
theorem levels_suffice_variable :
    let cx (limit : Nat) : Context :=
      { Context.ofArena (.branches ⟨10⟩) ⟨limit, .unlimited⟩ with nesting := ⟨1, limit⟩ }
    HasRoom (recordRead ⟨14⟩) (cx 6) ∧
    (∃ t spans, recordRead ⟨14⟩ (cx 5) = .ok () t ∧ spans ≠ [] ∧
      t.queue = (cx 5).queue.refusals 5 spans) ∧
    (∀ mode, HasRoom (classifyUse ⟨14⟩ mode) (cx 6)) ∧
    HasRoom (classifyDiscarded ⟨17⟩) (cx 6) ∧ ∀ site, HasRoom (toVoid ⟨17⟩ site) (cx 7) := by
  intro cx
  have hrank : (Arena.branches ⟨10⟩).RankedBy fun id =>
      [1, 1, 1, 1, 1, 1, 1, 1, 2, 3, 1, 2, 3, 4, 5, 2, 3, 4, 5].getD id.index 0 :=
    .of_list rfl (by decide +kernel)
  let ids : List NodeId := [⟨7⟩, ⟨8⟩, ⟨9⟩, ⟨10⟩, ⟨11⟩, ⟨12⟩, ⟨13⟩, ⟨14⟩, ⟨15⟩, ⟨16⟩, ⟨17⟩]
  have hcomplete : (Arena.branches ⟨10⟩).Complete (· ∈ ids) :=
    show ∀ id ∈ ids, ∃ n ∈ (Arena.branches ⟨10⟩).find? id, ∀ op ∈ n.readOperands, op ∈ ids by
      decide +kernel
  have hfive : ∀ limit, (cx limit).arena.readHeight ⟨14⟩ = 5 := fun _ => hrank.readHeight_eq ⟨14⟩
  have hfour : ∀ limit, (cx limit).arena.readHeight ⟨17⟩ = 4 := fun _ => hrank.readHeight_eq ⟨17⟩
  have hvalue : (Arena.branches ⟨10⟩).Intact ⟨14⟩ := hcomplete.intact (by decide)
  have hdropped : (Arena.branches ⟨10⟩).Intact ⟨17⟩ := hcomplete.intact (by decide)
  obtain ⟨hread, -, huse⟩ := levels_suffice (cx 6) ⟨14⟩
  obtain ⟨-, hscarce, hreturns⟩ := levels_suffice (cx 5) ⟨14⟩
  obtain ⟨-, -, hdiscarded⟩ := levels_suffice (cx 6) ⟨17⟩
  obtain ⟨-, -, hvoid⟩ := levels_suffice (cx 7) ⟨17⟩
  rw [hfive] at hread huse hscarce
  rw [hfour] at hdiscarded hvoid
  have hsix : ((1 : Nat) : ℕ∞) + 5 ≤ (6 : Nat) := by norm_cast
  have hmore : ((1 : Nat) : ℕ∞) + 4 + 1 ≤ (6 : Nat) := by norm_cast
  have hmost : ((1 : Nat) : ℕ∞) + 4 + 2 ≤ (7 : Nat) := by norm_cast
  have htight : ((5 : Nat) : ℕ∞) < (1 : Nat) + 5 := by norm_cast
  obtain ⟨⟨t, ht⟩, -⟩ := hreturns hvalue
  obtain ⟨spans, hspans, hqueue⟩ := hscarce htight t ht
  exact ⟨(hread hsix).1, ⟨t, spans, ht, hspans, hqueue⟩, fun mode => (huse hvalue).2.1 mode hsix,
    (hdiscarded hdropped).2.2.1 hmore, fun site => (hvoid hdropped).2.2.2 site hmost⟩

/-- Where a handle dangles, more levels may be needed: here it gets the node that is built while the
result of the call is dereferenced.  And a read may get to it before a level is refused. -/
theorem not_levels_suffice :
    let cx (limit : Nat) := Context.ofArena (.branches ⟨19⟩) ⟨limit, .unlimited⟩
    let height := (Arena.branches ⟨19⟩).readHeight
    (height ⟨14⟩ = 4 ∧
      ¬ HasRoom (classifyUse ⟨14⟩ ⟨false, false, .unknown, false⟩) (cx 4)) ∧
    (height ⟨17⟩ = 4 ∧ ¬ HasRoom (classifyDiscarded ⟨17⟩) (cx 5) ∧
      ¬ HasRoom (toVoid ⟨17⟩ .statement) (cx 6)) ∧
    height ⟨18⟩ = 4 ∧ (recordRead ⟨18⟩).added (cx 3) = [] := by
  intro cx height
  have hrank : (Arena.branches ⟨19⟩).RankedBy fun id =>
      [1, 1, 1, 1, 1, 1, 1, 1, 2, 3, 1, 1, 2, 3, 4, 1, 2, 4, 4].getD id.index 0 :=
    .of_list rfl (by decide +kernel)
  have hdeep : ∀ {α : Type} {p : Pass α} {limit : Nat},
      ¬ (∀ d ∈ p.added (cx limit), d.code ≠ .tooDeep) → ¬ HasRoom p (cx limit) :=
    fun hadded h => hadded h.added
  exact ⟨⟨hrank.readHeight_eq ⟨14⟩, hdeep (by decide +kernel)⟩,
    ⟨hrank.readHeight_eq ⟨17⟩, hdeep (by decide +kernel), hdeep (by decide +kernel)⟩,
    hrank.readHeight_eq ⟨18⟩, by decide +kernel⟩

end Pass

end ExprTree
