import Mathlib.Logic.Relation
import ExprTree.Proofs.Builders
import ExprTree.Proofs.StateReports
import ExprTree.Proofs.Typing

/-!
# Qualified variants

A qualified variant of a type is a node of its own.  It has the kind that the type had when it was
made, and so far it has the name of the type, and all of the kind unless that is a record's.  But a
record is completed in place, where its variants are not: what is known of the size of a record or
of a variant goes by what was done to that node itself.

* `TypeStep`, `TypeHistory` — operations on types, and the operations so far with their answers.
* `TypeHistory.size?` — the size that a record has by its history.
* `TypeStep.run_spec` — what one operation does to the kinds of nodes.
* `Arena.TypesAfter` — an arena after a history; `Arena.TypesAfter.size?_eq` and
  `Arena.TypesAfter.shape?_eq` are its invariants.
* `Arena.variants_agree` — in how far a variant agrees with its type.
-/

namespace ExprTree

/-! ### Operations on types -/

/-- An operation on types. -/
inductive TypeStep
  /-- Build a type of a kind: a number, a pointer, a reference, an array. -/
  | plain (kind : NodeKind)
  | functionType (result : NodeId) (params : List NodeId)
  | recordType (name : String) (size : Option Nat) (span : Span)
  | qualified (type : NodeId) (quals : NodeFlags)
  /-- Give a record its size. -/
  | complete (record : NodeId) (size : Nat)
  | mark (type : NodeId) (flags : NodeFlags)
  | attach (type : NodeId) (attr : Attribute)

/-- An operation and its answer: the node that was built or changed. -/
structure TypeEntry where
  step : TypeStep
  id : NodeId

/-- The operations so far, the last one first. -/
abbrev TypeHistory := List TypeEntry

namespace NodeKind

/-- The size of a complete record. -/
def recordSize? : NodeKind → Option Nat
  | recordType _ size _ => size
  | _ => none

/-- The declaration that names a record. -/
def nameDecl? : NodeKind → Option NodeId
  | recordType name _ _ => name
  | _ => none

/-- A record with a size; other kinds stay as they are. -/
def withSize (size : Nat) : NodeKind → NodeKind
  | recordType name _ memberFunction => recordType name (some size) memberFunction
  | kind => kind

/-- A kind but for the size of a record. -/
def unsized : NodeKind → NodeKind
  | recordType name _ memberFunction => recordType name none memberFunction
  | kind => kind

/-- Is this a record? -/
def isRecord : NodeKind → Bool
  | recordType .. => true
  | _ => false

theorem unsized_withSize (k : NodeKind) (size : Nat) : (k.withSize size).unsized = k.unsized := by
  cases k <;> rfl

theorem nameDecl?_unsized (k : NodeKind) : k.unsized.nameDecl? = k.nameDecl? := by
  cases k <;> rfl

theorem recordSize?_withSize {k : NodeKind} {size : Nat} (h : (k.withSize size).isRecord = true) :
    (k.withSize size).recordSize? = some size := by
  cases k <;> first | rfl | cases h

theorem isRecord_unsized (k : NodeKind) : k.unsized.isRecord = k.isRecord := by
  cases k <;> rfl

theorem unsized_of_not_isRecord {k : NodeKind} (h : k.isRecord = false) : k.unsized = k := by
  cases k <;> first | rfl | cases h

end NodeKind

namespace TypeHistory

/-- One node was made as a qualified variant of another. -/
def Variant (h : TypeHistory) (variant type : NodeId) : Prop :=
  ∃ quals, ⟨.qualified type quals, variant⟩ ∈ h

/-- A node was given a size. -/
def Completes (h : TypeHistory) (record : NodeId) : Prop :=
  ∃ size r, ⟨.complete record size, r⟩ ∈ h

/-- The size with which a record was built or that it was given last; a variant has at first the
size of its type at that time. -/
def size? (start : Arena) : TypeHistory → NodeId → Option Nat
  | [], id => (start.find? id).bind (·.kind.recordSize?)
  | ⟨.plain kind, r⟩ :: h, id => if id = r then kind.recordSize? else size? start h id
  | ⟨.functionType .., r⟩ :: h, id => if id = r then none else size? start h id
  | ⟨.recordType _ size _, r⟩ :: h, id => if id = r then size else size? start h id
  | ⟨.qualified type _, r⟩ :: h, id => size? start h (if id = r then type else id)
  | ⟨.complete record size, _⟩ :: h, id => if id = record then some size else size? start h id
  | ⟨.mark .., _⟩ :: h, id => size? start h id
  | ⟨.attach .., _⟩ :: h, id => size? start h id

end TypeHistory

namespace Arena

/-- The kind of a node that is there. -/
def kind? (a : Arena) (id : NodeId) : Option NodeKind := (a.find? id).map Node.kind

/-- The kind of a node that is there, but for the size of a record. -/
def shape? (a : Arena) (id : NodeId) : Option NodeKind := (a.kind? id).map NodeKind.unsized

variable {a b : Arena} {id : NodeId} {k : NodeKind}

theorem kindOf_eq_ok_iff_kind? : a.kindOf id = .ok k ↔ a.kind? id = some k := by
  rw [kindOf_eq_ok_iff, kind?, Option.map_eq_some_iff]

theorem ne_size_of_kind? (h : a.kind? id = some k) : id ≠ ⟨a.size⟩ ∧ id ≠ ⟨a.size + 1⟩ := by
  obtain ⟨n, hn, -⟩ := Option.map_eq_some_iff.1 h
  have hlt : id.index < a.size := isSome_find?_iff.1 (Option.isSome_of_mem hn)
  constructor
  · rintro rfl
    exact Nat.lt_irrefl _ hlt
  · rintro rfl
    exact Nat.lt_irrefl _ (Nat.lt_of_succ_lt hlt)

theorem kind?_alloc (a : Arena) (kind : NodeKind) (type : Option NodeId) (span : Span)
    (id : NodeId) : (a.alloc kind type span).2.kind? id =
      if id = ⟨a.size⟩ then some kind else a.kind? id := by
  rw [kind?, kind?]
  by_cases hid : id = ⟨a.size⟩
  · rw [if_pos hid]
    exact congrArg (Option.map _) ((find?_append a _ id).trans (if_pos (congrArg NodeId.index hid)))
  · rw [if_neg hid]
    exact congrArg (Option.map _)
      ((find?_append a _ id).trans (if_neg fun h => hid (congrArg NodeId.mk h)))

theorem kind?_change (a : Arena) (id other : NodeId) (f : Node → Node) :
    (a.change id f).kind? other =
      if other = id then (a.find? id).map fun n => (f n).kind else a.kind? other := by
  rw [kind?, find?_change, kind?]
  split
  · rw [Option.map_map]
    rfl
  · rfl

theorem kind?_change_of_kind_eq {f : Node → Node} (hf : ∀ n, (f n).kind = n.kind)
    (other : NodeId) : (a.change id f).kind? other = a.kind? other := by
  rw [kind?_change]
  split
  · rename_i hother
    rw [hother, kind?]
    exact congrArg (Option.map · _) (funext hf)
  · rfl

/-- Only the nodes matter. -/
theorem kind?_of_nodes_eq (h : b.nodes = a.nodes) (id : NodeId) : b.kind? id = a.kind? id := by
  rw [kind?, find?, h]
  rfl

theorem kind?_addFunctionType (a : Arena) (result : NodeId) (params : List NodeId) (id : NodeId) :
    (a.addFunctionType result params).2.kind? id =
      if id = ⟨a.size⟩ then some (.functionType result (a.allocList params).1) else a.kind? id := by
  show ((a.allocList params).2.alloc _ _ _).2.kind? id = _
  rw [kind?_alloc, size_allocList, kind?_of_nodes_eq (nodes_allocList a params)]
  rfl

theorem kind?_addRecordType (a : Arena) (name : String) (size : Option Nat) (span : Span)
    (id : NodeId) : (a.addRecordType name size span).2.kind? id =
      if id = ⟨a.size + 1⟩ then some (.decl .typeName (.named (a.intern name).1))
      else if id = ⟨a.size⟩ then some (.recordType (some ⟨a.size + 1⟩) size none)
      else a.kind? id := by
  show (((a.intern name).2.addType _).2.alloc _ _ _).2.kind? id = _
  have hsize : ((a.intern name).2.addType
      (.recordType (some ⟨a.size + 1⟩) size none)).2.size = a.size + 1 := size_append
  rw [kind?_alloc]
  refine (if_congr (by rw [← hsize]; rfl) rfl ?_)
  exact kind?_alloc (a.intern name).2 _ _ _ id

theorem nodes_foldl_addAttribute (attrs : List Attribute) (a : Arena) :
    (attrs.foldl (·.addAttribute id ·) a).nodes = a.nodes := by
  induction attrs generalizing a with
  | nil => rfl
  | cons attr attrs ih => exact ih (a.addAttribute id attr)

end Arena

namespace TypeStep

open Arena ExprTree.Action

variable {a b : Arena} {id r : NodeId} {k : NodeKind} {step : TypeStep}

/-- Run the operation; the answer is the node that is built or changed. -/
def run : TypeStep → Action Arena NodeId
  | plain kind => modifyGet (·.addType kind)
  | functionType result params => modifyGet (·.addFunctionType result params)
  | recordType name size span => modifyGet (·.addRecordType name size span)
  | qualified type quals => addQualified type quals
  | complete record size => do
    completeRecord record size
    return record
  | mark type flags => do
    insertFlags type flags
    return type
  | attach type attr => do
    modify (·.addAttribute type attr)
    return type

/-- The node that is built or changed. -/
def result (a : Arena) : TypeStep → NodeId
  | complete record _ => record
  | mark type _ => type
  | attach type _ => type
  | _ => ⟨a.size⟩

/-- The kind of a node after the operation. -/
def kind? (a : Arena) : TypeStep → NodeId → Option NodeKind
  | plain kind, id => if id = ⟨a.size⟩ then some kind else a.kind? id
  | functionType result params, id =>
    if id = ⟨a.size⟩ then some (.functionType result (a.allocList params).1) else a.kind? id
  | recordType name size _, id =>
    if id = ⟨a.size + 1⟩ then some (.decl .typeName (.named (a.intern name).1))
    else if id = ⟨a.size⟩ then some (.recordType (some ⟨a.size + 1⟩) size none)
    else a.kind? id
  | qualified type _, id => if id = ⟨a.size⟩ then a.kind? type else a.kind? id
  | complete record size, id =>
    if id = record then (a.kind? id).map (NodeKind.withSize size) else a.kind? id
  | mark _ _, id => a.kind? id
  | attach _ _, id => a.kind? id

theorem wlp_addQualified {type : NodeId} {quals : NodeFlags} :
    wlp (addQualified type quals) (fun r b => r = ⟨a.size⟩ ∧ (a.kind? type).isSome = true ∧
      ∀ id, b.kind? id = (qualified type quals).kind? a id) a := by
  unfold addQualified
  rw [wlp_bind, wlp_ask]
  intro n hn
  have hkind : a.kind? type = some n.kind := by
    rw [Arena.kind?, node_eq_ok_iff.1 hn]
    rfl
  rw [wlp_bind, wlp_modifyGet, wlp_bind, insertFlags, wlp_update]
  intro _ _
  rw [wlp_bind, wlp_modify, wlp_pure]
  refine ⟨rfl, Option.isSome_of_mem hkind, fun id => ?_⟩
  rw [TypeStep.kind?, hkind]
  refine (kind?_of_nodes_eq (nodes_foldl_addAttribute _ _) id).trans ?_
  refine (kind?_change_of_kind_eq ?_ id).trans ?_
  · intro _
    rfl
  · exact kind?_alloc a _ _ _ id

theorem run_spec (step : TypeStep) (a : Arena) :
    wlp step.run (fun r b => r = step.result a ∧ ∀ id, b.kind? id = step.kind? a id) a := by
  cases step with
  | plain kind => exact wlp_modifyGet.2 ⟨rfl, kind?_alloc a kind none .unknown⟩
  | functionType result params =>
    exact wlp_modifyGet.2
      ⟨congrArg NodeId.mk (size_allocList a params), kind?_addFunctionType a result params⟩
  | recordType name size span =>
    exact wlp_modifyGet.2 ⟨rfl, kind?_addRecordType a name size span⟩
  | qualified type quals => exact wlp_addQualified.mono fun _ _ h => ⟨h.1, h.2.2⟩
  | complete record size =>
    show wlp (completeRecord record size >>= fun _ => pure record) _ a
    rw [wlp_bind, completeRecord, wlp_update]
    intro n hn
    refine wlp_pure.2 ⟨rfl, fun id => ?_⟩
    rw [kind?_change, TypeStep.kind?]
    split
    · rename_i hid
      rw [hid, Arena.kind?, hn]
      obtain ⟨kind, _, _, _⟩ := n
      cases kind <;> rfl
    · rfl
  | mark type flags =>
    show wlp (insertFlags type flags >>= fun _ => pure type) _ a
    rw [wlp_bind, insertFlags, wlp_update]
    intro n _
    exact wlp_pure.2 ⟨rfl, kind?_change_of_kind_eq fun _ => rfl⟩
  | attach type attr =>
    exact wlp_bind.2 (wlp_modify.2 (wlp_pure.2 ⟨rfl, fun _ => rfl⟩))

/-- A node that is there stays, with its kind but for the size of a record. -/
theorem shape?_of_run {s : NodeKind} (hrun : step.run a = .ok r b) (hs : a.shape? id = some s) :
    b.shape? id = some s := by
  obtain ⟨k, hk, rfl⟩ := Option.map_eq_some_iff.1 hs
  obtain ⟨hnew, hnext⟩ := ne_size_of_kind? hk
  have hkept : ∃ k', step.kind? a id = some k' ∧ k'.unsized = k.unsized := by
    cases step with
    | plain _ => exact ⟨k, (if_neg hnew).trans hk, rfl⟩
    | functionType _ _ => exact ⟨k, (if_neg hnew).trans hk, rfl⟩
    | recordType _ _ _ => exact ⟨k, (if_neg hnext).trans ((if_neg hnew).trans hk), rfl⟩
    | qualified _ _ => exact ⟨k, (if_neg hnew).trans hk, rfl⟩
    | complete record size =>
      rw [TypeStep.kind?, hk]
      split
      · exact ⟨k.withSize size, rfl, k.unsized_withSize size⟩
      · exact ⟨k, rfl, rfl⟩
    | mark _ _ => exact ⟨k, hk, rfl⟩
    | attach _ _ => exact ⟨k, hk, rfl⟩
  obtain ⟨k', hk', hsame⟩ := hkept
  rw [shape?, (run_spec step a r b hrun).2 id, hk', Option.map_some, hsame]

end TypeStep

/-- The size of a node that is there changes only when it is completed. -/
theorem TypeHistory.size?_cons {start a b : Arena} {h : TypeHistory} {id r : NodeId}
    {step : TypeStep} {s : NodeKind} (hrun : step.run a = .ok r b) (hs : a.shape? id = some s)
    (hstep : ∀ size, step ≠ .complete id size) :
    TypeHistory.size? start (⟨step, r⟩ :: h) id = h.size? start id := by
  obtain ⟨k, hk, -⟩ := Option.map_eq_some_iff.1 hs
  obtain ⟨hnew, -⟩ := Arena.ne_size_of_kind? hk
  obtain ⟨rfl, -⟩ := TypeStep.run_spec step a r b hrun
  cases step with
  | plain _ => exact if_neg hnew
  | functionType _ _ => exact if_neg hnew
  | recordType _ _ _ => exact if_neg hnew
  | qualified _ _ => exact congrArg (h.size? start) (if_neg hnew)
  | complete record size => exact if_neg fun hid => hstep size (by rw [hid])
  | mark _ _ => rfl
  | attach _ _ => rfl

/-- The arena in which the operations of a history end. -/
def TypeHistory.replay (start : Arena) : TypeHistory → Arena
  | [] => start
  | ⟨step, _⟩ :: h => step.run.last (replay start h)

namespace Arena

open ExprTree.Action TypeHistory

variable {start a b : Arena} {h older newer : TypeHistory} {id r v t : NodeId} {k : NodeKind}
  {step : TypeStep}

/-! ### Histories -/

/-- The arena after a history of operations on types, all of which returned. -/
inductive TypesAfter (start : Arena) : TypeHistory → Arena → Prop
  | start : TypesAfter start [] start
  | step {h : TypeHistory} {a b : Arena} {step : TypeStep} {r : NodeId} (ha : TypesAfter start h a)
    (hrun : step.run a = .ok r b) : TypesAfter start (⟨step, r⟩ :: h) b

/-- The history goes on with the next operation that returns. -/
theorem TypesAfter.replay (ha : TypesAfter start h (h.replay start))
    (hr : step.run.answer? (h.replay start) = some r) :
    TypesAfter start (⟨step, r⟩ :: h) (step.run.last (h.replay start)) := by
  obtain ⟨b, hrun⟩ := answer?_eq_some_iff.1 hr
  rw [last_eq_of_ok hrun]
  exact .step ha hrun

/-- A record has the size that it has by the history. -/
theorem TypesAfter.size?_eq (ha : TypesAfter start h a) (hk : a.kind? id = some k)
    (hrecord : k.isRecord = true) : k.recordSize? = h.size? start id := by
  induction ha generalizing id k with
  | start =>
    obtain ⟨n, hn, rfl⟩ := Option.map_eq_some_iff.1 hk
    rw [TypeHistory.size?, hn]
    rfl
  | @step h a b step r ha hrun ih =>
    obtain ⟨rfl, hkinds⟩ := TypeStep.run_spec step a r b hrun
    rw [hkinds] at hk
    -- a node that the step neither builds nor completes has kind and size from before
    cases step with
    | plain kind =>
      rw [TypeStep.kind?] at hk
      split at hk <;> rename_i hid
      · cases hk
        exact (if_pos hid).symm
      · exact (ih hk hrecord).trans (if_neg hid).symm
    | functionType result params =>
      rw [TypeStep.kind?] at hk
      split at hk <;> rename_i hid
      · cases hk
        cases hrecord
      · exact (ih hk hrecord).trans (if_neg hid).symm
    | recordType name size span =>
      rw [TypeStep.kind?] at hk
      split at hk
      · cases hk
        cases hrecord
      split at hk <;> rename_i hid
      · cases hk
        exact (if_pos hid).symm
      · exact (ih hk hrecord).trans (if_neg hid).symm
    | qualified type quals =>
      rw [TypeStep.kind?] at hk
      show _ = h.size? start (if id = ⟨a.size⟩ then type else id)
      split at hk <;> rename_i hid
      · rw [if_pos hid]
        exact ih hk hrecord
      · rw [if_neg hid]
        exact ih hk hrecord
    | complete record size =>
      rw [TypeStep.kind?] at hk
      split at hk <;> rename_i hid
      · obtain ⟨k', -, rfl⟩ := Option.map_eq_some_iff.1 hk
        exact (NodeKind.recordSize?_withSize hrecord).trans (if_pos hid).symm
      · exact (ih hk hrecord).trans (if_neg hid).symm
    | mark type flags => exact ih hk hrecord
    | attach type attr => exact ih hk hrecord

/-- A variant and its type are there, and have the same kind but for the size of a record. -/
theorem TypesAfter.shape?_eq (ha : TypesAfter start h a) (hv : h.Variant v t) :
    ∃ s, a.shape? v = some s ∧ a.shape? t = some s := by
  induction ha with
  | start =>
    obtain ⟨_, hmem⟩ := hv
    cases hmem
  | @step h a b step r ha hrun ih =>
    obtain ⟨quals, hmem⟩ := hv
    rcases List.mem_cons.1 hmem with hlast | hbefore
    · -- the variant is the new node, so the type is another one, which stays
      cases hlast
      obtain ⟨rfl, htype, hkinds⟩ := TypeStep.wlp_addQualified v b hrun
      obtain ⟨k, hk⟩ := Option.isSome_iff_exists.1 htype
      refine ⟨k.unsized, ?_, ?_⟩
      · rw [shape?, hkinds, TypeStep.kind?, if_pos rfl, hk]
        rfl
      · rw [shape?, hkinds, TypeStep.kind?, if_neg (ne_size_of_kind? hk).1, hk]
        rfl
    · obtain ⟨s, hv, ht⟩ := ih ⟨quals, hbefore⟩
      exact ⟨s, TypeStep.shape?_of_run hrun hv, TypeStep.shape?_of_run hrun ht⟩

/-- The nodes that are there keep their size until they are completed. -/
theorem TypesAfter.size?_append (ha : TypesAfter start (newer ++ older) a)
    (hthere : ∀ b, TypesAfter start older b → (b.shape? id).isSome = true)
    (hidle : ¬ newer.Completes id) : (newer ++ older).size? start id = older.size? start id ∧
      (a.shape? id).isSome = true := by
  -- that the node is there goes along: so none of the newer operations has built it
  induction newer generalizing a with
  | nil => exact ⟨rfl, hthere a ha⟩
  | cons entry newer ih =>
    cases ha with
    | step ha hrun =>
      obtain ⟨hsize, hsome⟩ :=
        ih ha fun ⟨size, r, hmem⟩ => hidle ⟨size, r, List.mem_cons_of_mem _ hmem⟩
      obtain ⟨s, hs⟩ := Option.isSome_iff_exists.1 hsome
      refine ⟨(TypeHistory.size?_cons hrun hs ?_).trans hsize,
        Option.isSome_of_mem (TypeStep.shape?_of_run hrun hs)⟩
      rintro size rfl
      exact hidle ⟨size, _, List.mem_cons_self⟩

/-- A variant has the size that its type had when it was made, and the type keeps it, each until it
is completed. -/
theorem TypesAfter.size?_of_variant {quals : NodeFlags}
    (ha : TypesAfter start (newer ++ ⟨.qualified t quals, v⟩ :: older) a) :
    (¬ newer.Completes v → TypeHistory.size? start (newer ++ ⟨.qualified t quals, v⟩ :: older) v =
      older.size? start t) ∧
    (¬ newer.Completes t → TypeHistory.size? start (newer ++ ⟨.qualified t quals, v⟩ :: older) t =
      older.size? start t) := by
  have hthere : ∀ b, TypesAfter start (⟨.qualified t quals, v⟩ :: older) b →
      (b.shape? v).isSome = true ∧ (b.shape? t).isSome = true := by
    intro b hb
    obtain ⟨s, hv, ht⟩ := hb.shape?_eq ⟨quals, List.mem_cons_self⟩
    exact ⟨Option.isSome_of_mem hv, Option.isSome_of_mem ht⟩
  constructor
  · intro hidle
    refine (ha.size?_append (fun b hb => (hthere b hb).1) hidle).1.trans ?_
    exact congrArg (older.size? start) (if_pos rfl)
  · intro hidle
    refine (ha.size?_append (fun b hb => (hthere b hb).2) hidle).1.trans ?_
    exact congrArg (older.size? start) (ite_self t)

/-- A variant of a variant has the kind of the type as well. -/
theorem TypesAfter.shape?_eq_of_transGen (ha : TypesAfter start h a)
    (hv : Relation.TransGen h.Variant v t) : ∃ s, a.shape? v = some s ∧ a.shape? t = some s := by
  induction hv with
  | single hv => exact ha.shape?_eq hv
  | tail _ hlast ih =>
    obtain ⟨s, hs, hmid⟩ := ih
    obtain ⟨s', hmid', ht⟩ := ha.shape?_eq hlast
    cases hmid.symm.trans hmid'
    exact ⟨s, hs, ht⟩

/-! ### Questions -/

/-- Is this a record type? -/
def IsRecord (a : Arena) (type : NodeId) : Prop := ∃ k, a.kindOf type = .ok k ∧ k.isRecord = true

theorem isRecord_iff_of_shape? {s : NodeKind} (hs : a.shape? id = some s) :
    a.IsRecord id ↔ s.isRecord = true := by
  obtain ⟨k, hk, rfl⟩ := Option.map_eq_some_iff.1 hs
  rw [k.isRecord_unsized]
  constructor
  · rintro ⟨k', hk', hrecord⟩
    cases (kindOf_eq_ok_iff_kind?.1 hk').symm.trans hk
    exact hrecord
  · exact fun hrecord => ⟨k, kindOf_eq_ok_iff_kind?.2 hk, hrecord⟩

/-- What is no record has all of its kind in its shape. -/
theorem kindOf_of_shape? {s : NodeKind} (hs : a.shape? id = some s) (hrecord : ¬ a.IsRecord id) :
    a.kindOf id = .ok s := by
  rw [isRecord_iff_of_shape? hs, Bool.not_eq_true] at hrecord
  obtain ⟨k, hk, rfl⟩ := Option.map_eq_some_iff.1 hs
  rw [k.isRecord_unsized] at hrecord
  rw [NodeKind.unsized_of_not_isRecord hrecord]
  exact kindOf_eq_ok_iff_kind?.2 hk

/-- Two types have the same name, the same size and are both complete or both incomplete. -/
def Agree (a : Arena) (x y : NodeId) : Prop :=
  a.nameDecl? x = a.nameDecl? y ∧ a.sizeInBytes x = a.sizeInBytes y ∧
    a.isComplete x = a.isComplete y

theorem nameDecl?_eq_of_shape? {s : NodeKind} (hs : a.shape? id = some s) :
    a.nameDecl? id = .ok s.nameDecl? := by
  obtain ⟨k, hk, rfl⟩ := Option.map_eq_some_iff.1 hs
  rw [nameDecl?, kindOf_eq_ok_iff_kind?.2 hk, NodeKind.nameDecl?_unsized]
  rfl

theorem sizeInBytes_of_isRecord (hk : a.kind? id = some k) (hrecord : k.isRecord = true) :
    a.sizeInBytes id = .ok k.recordSize? := by
  rw [sizeInBytes, kindOf_eq_ok_iff_kind?.2 hk]
  cases k <;> first | rfl | cases hrecord

theorem isComplete_of_isRecord (hk : a.kind? id = some k) (hrecord : k.isRecord = true) :
    a.isComplete id = .ok k.recordSize?.isSome := by
  rw [isComplete, isCompleteWithin, kindOf_eq_ok_iff_kind?.2 hk]
  cases k <;> first | rfl | cases hrecord

/-- What a record answers is what its history says. -/
theorem TypesAfter.answers_eq (ha : TypesAfter start h a) (hrecord : a.IsRecord id) :
    a.sizeInBytes id = .ok (h.size? start id) ∧
      a.isComplete id = .ok (h.size? start id).isSome := by
  obtain ⟨k, hk, hrecord⟩ := hrecord
  rw [kindOf_eq_ok_iff_kind?] at hk
  rw [← ha.size?_eq hk hrecord]
  exact ⟨sizeInBytes_of_isRecord hk hrecord, isComplete_of_isRecord hk hrecord⟩

/-- Types of the same kind agree. -/
theorem agree_of_kindOf_eq {x y : NodeId} (hxy : a.kindOf x = a.kindOf y) : a.Agree x y := by
  refine ⟨?_, ?_, ?_⟩
  · rw [nameDecl?, nameDecl?, hxy]
  · rw [sizeInBytes, sizeInBytes, hxy]
  · rw [isComplete, isComplete, isCompleteWithin, isCompleteWithin, hxy]

/-- No access to an object of this type is reported as one to an object of incomplete type. -/
def Accessible (a : Arena) (type : NodeId) : Prop :=
  ∀ cx : Context, cx.arena = a → ∀ (site : DiscardSite) (loc : Span),
    (∀ name, (Pass.warnVariable name type loc site).added cx = []) ∧
      ∀ reference, ∀ d ∈ (Pass.warnVolatile site loc reference type).added cx,
        d.code ≠ .incompleteTarget

theorem accessible_of_isComplete (hcomplete : a.isComplete id = .ok true) : a.Accessible id := by
  rintro cx rfl site loc
  refine ⟨fun name => ?_, fun reference => ?_⟩
  · have hlogs : LogsAt (fun _ => False) (Pass.warnVariable name id loc site) cx := by
      refine Pass.logsAt_query.bind (Pass.wlp_query.2 fun volatile _ => ?_)
      cases volatile with
      | false => exact logsAt_pure ()
      | true =>
        refine Pass.logsAt_query.bind (Pass.wlp_query.2 fun complete hasked => ?_)
        cases hcomplete.symm.trans hasked
        exact logsAt_pure ()
    exact List.eq_nil_iff_forall_not_mem.2 hlogs.added
  · have hlogs : LogsAt (fun d => d.code ≠ .incompleteTarget)
        (Pass.warnVolatile site loc reference id) cx := by
      refine Pass.logsAt_query.bind (Pass.wlp_query.2 fun spelled _ => ?_)
      refine Pass.logsAt_query.bind (Pass.wlp_query.2 fun complete hasked => ?_)
      cases hcomplete.symm.trans hasked
      cases reference with
      | true => exact Pass.logs_discard_warn (by rintro ⟨⟩) cx
      | false =>
        refine Pass.logsAt_query.bind (Pass.wlp_query.2 fun addressable _ => ?_)
        cases addressable with
        | true => exact Pass.logs_discard_warn (by rintro ⟨⟩) cx
        | false => exact logsAt_pure ()
    exact hlogs.added

/-- Variants, and variants of variants, have the name of their type, and unless that is a record
they agree with it altogether.  The size of a record and of its variants is that of the history:
a variant has the size that the type had when the variant was made until it is completed itself,
and what happens to the type does not matter. -/
theorem variants_agree (ha : TypesAfter start h a) (hv : Relation.TransGen h.Variant v t) :
    (∃ decl, a.nameDecl? v = .ok decl ∧ a.nameDecl? t = .ok decl) ∧
    (a.Agree v t ↔ (a.IsRecord t → h.size? start v = h.size? start t)) ∧
    (a.IsRecord t → ∀ x, x = v ∨ x = t →
      a.sizeInBytes x = .ok (h.size? start x) ∧ a.isComplete x = .ok (h.size? start x).isSome ∧
      ((h.size? start x).isSome → a.Accessible x)) ∧
    ∀ (newer older : TypeHistory) type quals,
      h = newer ++ ⟨.qualified type quals, v⟩ :: older →
      (¬ newer.Completes v → h.size? start v = older.size? start type) ∧
      (¬ newer.Completes type → h.size? start type = older.size? start type) := by
  obtain ⟨s, hsv, hst⟩ := ha.shape?_eq_of_transGen hv
  have hname : a.nameDecl? v = a.nameDecl? t :=
    (nameDecl?_eq_of_shape? hsv).trans (nameDecl?_eq_of_shape? hst).symm
  have hrecords : a.IsRecord v ↔ a.IsRecord t :=
    (isRecord_iff_of_shape? hsv).trans (isRecord_iff_of_shape? hst).symm
  refine ⟨⟨_, nameDecl?_eq_of_shape? hsv, nameDecl?_eq_of_shape? hst⟩, ⟨?_, ?_⟩, ?_, ?_⟩
  · rintro ⟨-, hsize, -⟩ hrecord
    rw [(ha.answers_eq (hrecords.2 hrecord)).1, (ha.answers_eq hrecord).1] at hsize
    exact Except.ok.inj hsize
  · intro hsame
    by_cases hrecord : a.IsRecord t
    · obtain ⟨hsize, hcomplete⟩ := ha.answers_eq (hrecords.2 hrecord)
      obtain ⟨hsize', hcomplete'⟩ := ha.answers_eq hrecord
      refine ⟨hname, ?_, ?_⟩
      · rw [hsize, hsize', hsame hrecord]
      · rw [hcomplete, hcomplete', hsame hrecord]
    · refine agree_of_kindOf_eq ?_
      rw [kindOf_of_shape? hst hrecord, kindOf_of_shape? hsv (mt hrecords.1 hrecord)]
  · intro hrecord x hx
    have hx : a.IsRecord x := by
      rcases hx with rfl | rfl
      · exact hrecords.2 hrecord
      · exact hrecord
    obtain ⟨hsize, hcomplete⟩ := ha.answers_eq hx
    refine ⟨hsize, hcomplete, fun hsome => accessible_of_isComplete ?_⟩
    rw [hcomplete, hsome]
  · rintro newer older type quals rfl
    exact ha.size?_of_variant

end Arena

/-- A record is declared and completed, and then gets a volatile variant, and this a constant
variant. -/
def TypeHistory.completedFirst : TypeHistory :=
  [⟨.qualified ⟨8⟩ (.single .const), ⟨9⟩⟩, ⟨.qualified ⟨6⟩ (.single .volatile), ⟨8⟩⟩,
    ⟨.complete ⟨6⟩ 8, ⟨6⟩⟩, ⟨.recordType "Fwd" none ⟨0, 3⟩, ⟨6⟩⟩]

/-- A record is declared and gets a volatile variant, and then it is completed. -/
def TypeHistory.completedLast : TypeHistory :=
  [⟨.complete ⟨6⟩ 8, ⟨6⟩⟩, ⟨.qualified ⟨6⟩ (.single .volatile), ⟨8⟩⟩,
    ⟨.recordType "Fwd" none ⟨0, 3⟩, ⟨6⟩⟩]

namespace Arena

open ExprTree.Action TypeHistory

/-- Both variants agree with the record that was completed before. -/
theorem variants_agree_completedFirst :
    TypesAfter .initial completedFirst (completedFirst.replay .initial) ∧
      Relation.TransGen completedFirst.Variant ⟨9⟩ ⟨6⟩ ∧
      (completedFirst.replay .initial).Agree ⟨9⟩ ⟨6⟩ := by
  have ha : TypesAfter .initial completedFirst (completedFirst.replay .initial) :=
    .replay (.replay (.replay (.replay .start (by decide +kernel)) (by decide +kernel))
      (by decide +kernel)) (by decide +kernel)
  have hv : Relation.TransGen completedFirst.Variant ⟨9⟩ ⟨6⟩ :=
    .tail (.single ⟨_, List.mem_cons_self⟩) ⟨_, List.mem_cons_of_mem _ List.mem_cons_self⟩
  exact ⟨ha, hv, (variants_agree ha hv).2.1.2 fun _ => by decide +kernel⟩

/-- The record is complete, its variant is not, and a variable that has the variant as its type is
reported as one of incomplete type. -/
theorem not_variants_agree_completedLast :
    let a := completedLast.replay .initial
    let cx := Context.ofArena ((addDecl .var "v" ⟨8⟩ ⟨4, 5⟩).last a) .standard
    TypesAfter .initial completedLast a ∧ completedLast.Variant ⟨8⟩ ⟨6⟩ ∧
      a.sizeInBytes ⟨6⟩ = .ok (some 8) ∧ a.isComplete ⟨6⟩ = .ok true ∧
      a.sizeInBytes ⟨8⟩ = .ok none ∧ a.isComplete ⟨8⟩ = .ok false ∧
      ((Pass.toVoid ⟨9⟩ .statement).added cx).map Diagnostic.code = [.incompleteVariable] := by
  refine ⟨.replay (.replay (.replay .start (by decide +kernel)) (by decide +kernel))
    (by decide +kernel), ⟨_, List.mem_cons_of_mem _ List.mem_cons_self⟩, ?_, ?_, ?_, ?_, ?_⟩ <;>
    decide +kernel

end Arena

end ExprTree
