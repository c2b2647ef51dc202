import ExprTree.Proofs.Consistency

/-!
# Builders keep arenas consistent

What a builder makes of a consistent arena is consistent, if its operands and types are in range.
Node lists, names and attributes hold no nodes of their own; types have no effects; a location
wrapper has the type and the effects of what it wraps.

* `Arena.Built` — an arena and what one call of a builder makes of it.
* `Arena.Built.consistent` — a builder keeps an arena consistent.
-/

namespace ExprTree

namespace Arena

/-- One call of a builder, with operands and types in range. -/
inductive Built (a : Arena) : Arena → Prop
  | alloc {kind : NodeKind} {type : Option NodeId} {span : Span} {f : NodeFlags}
    (h : a.Admits kind type) (hf : a.derivedFlags ⟨kind, type, .empty, span⟩ = .ok f)
    (he : f.has .effect = false) : Built a (a.alloc kind type span).2
  | build {kind : NodeKind} {type : Option NodeId} {span : Span} {r : NodeId} {b : Arena}
    (h : a.Admits kind type) (hrun : build kind type span a = .ok r b) : Built a b
  | list {ids : List NodeId} : Built a (a.allocList ids).2
  | name {s : String} : Built a (a.intern s).2
  | attached {id : NodeId} {attr : Attribute} : Built a (a.addAttribute id attr)
  | type {kind : NodeKind} (hk : kind.isType = true)
    (h : ∀ t, kind = .referenceType t → (a.find? t).isSome = true) : Built a (a.addType kind).2
  | functionType {result : NodeId} {params : List NodeId} :
    Built a (a.addFunctionType result params).2
  | recordType {name : String} {size : Option Nat} {span : Span} :
    Built a (a.addRecordType name size span).2
  | completeRecord {record : NodeId} {size : Nat} {b : Arena}
    (hrun : completeRecord record size a = .ok () b) : Built a b
  | qualified {type : NodeId} {n : Node} {quals : NodeFlags} {r : NodeId} {b : Arena}
    (hn : a.find? type = some n) (h : n.kind.isType = true)
    (hrun : addQualified type quals a = .ok r b) : Built a b
  | decl {sort : DeclSort} {name : String} {type : NodeId} {span : Span} {r : NodeId} {b : Arena}
    (h : (a.find? type).isSome = true) (hrun : addDecl sort name type span a = .ok r b) : Built a b
  | addressable {type : NodeId} {b : Arena}
    (hrun : insertFlags type (.single .addressable) a = .ok () b) : Built a b
  | span {id : NodeId} {span : Span} {b : Arena} (hrun : setSpan id span a = .ok () b) : Built a b
  | updateDecl {id : NodeId} {f : Decl → Decl} {b : Arena}
    (hrun : updateDecl id f a = .ok () b) : Built a b
  | const {kind : NodeKind} {type : NodeId} (hk : kind.isConstant = true)
    (h : (a.find? type).isSome = true) : Built a (a.addConst kind type).2
  | string {text : String} {type : NodeId} (h : (a.find? type).isSome = true) :
    Built a (a.addString text type).2
  | nonLvalue {operand : NodeId} {span : Span} {r : NodeId} {b : Arena}
    (hrun : buildNonLvalue operand span a = .ok r b) : Built a b
  | comma {lhs rhs : NodeId} {span : Span} {r : NodeId} {b : Arena}
    (h : (a.find? lhs).isSome = true) (hrun : buildComma lhs rhs span a = .ok r b) : Built a b
  | assignment {lhs rhs : NodeId} {span : Span} {r : NodeId} {b : Arena}
    (h : (a.find? rhs).isSome = true) (hrun : buildAssignment lhs rhs span a = .ok r b) :
    Built a b
  | component {object field : NodeId} {span : Span} {r : NodeId} {b : Arena}
    (h : (a.find? object).isSome = true) (hrun : buildComponent object field span a = .ok r b) :
    Built a b
  | target {slot initial : NodeId} {span : Span} {r : NodeId} {b : Arena}
    (h : (a.find? initial).isSome = true) (hrun : buildTarget slot initial span a = .ok r b) :
    Built a b
  | call {callee : Option NodeId} {args : List NodeId} {type : Option NodeId} {span : Span}
    {r : NodeId} {b : Arena} (h : ∀ op ∈ callee.toList ++ args, (a.find? op).isSome = true)
    (ht : ∀ t, type = some t → (a.find? t).isSome = true)
    (hrun : buildCall callee args type span a = .ok r b) : Built a b
  | wrapper {operand : NodeId} {span : Span} {r : NodeId} {b : Arena}
    (hrun : buildWrapper operand span a = .ok r b) : Built a b
  | offset {base index : NodeId} {loc : Span} {r : NodeId} {b : Arena}
    (hrun : offsetPointer base index loc a = .ok r b) : Built a b

variable {a b : Arena} {r : NodeId}

/-! ### Lists, names and attributes -/

theorem size_lists_append (ids : List NodeId) :
    (a.lists ++ ids).size = a.lists.size + ids.length := by
  rw [← Array.length_toList, Array.toList_appendList, List.length_append, Array.length_toList]

theorem nodes_allocList (a : Arena) (ids : List NodeId) : (a.allocList ids).2.nodes = a.nodes := by
  unfold allocList
  split <;> rfl

theorem size_allocList (a : Arena) (ids : List NodeId) : (a.allocList ids).2.size = a.size :=
  congrArg Array.size (nodes_allocList a ids)

theorem handles_allocList (ids : List NodeId) (parts : List NodeId × NodeSlice)
    (ops : List NodeId) (h : a.handles parts = .ok ops) :
    (a.allocList ids).2.handles parts = .ok ops := by
  obtain ⟨l, hl, rfl⟩ := map_eq_ok_iff.1 h
  refine map_eq_ok_iff.2 ⟨l, ?_, rfl⟩
  unfold allocList
  split
  · exact hl
  unfold list at hl ⊢
  split
  · rename_i he
    rwa [if_pos he] at hl
  · rename_i he
    rw [if_neg he] at hl
    split at hl
    · -- the old list lies before the new handles
      rename_i hstop
      cases hl
      have hsize : parts.2.stop ≤ (a.lists ++ ids).size := by
        rw [size_lists_append]
        omega
      have hlen : parts.2.stop ≤ a.lists.toList.length := by
        rwa [Array.length_toList]
      rw [if_pos hsize]
      simp only [Array.toList_extract, Array.toList_appendList, List.extract_eq_take_drop,
        ← List.drop_take, List.take_append_of_le_length hlen]
    · cases hl

/-- A stored operand list is read back. -/
theorem list_allocList (ids : List NodeId) :
    (a.allocList ids).2.list (a.allocList ids).1 = .ok ids := by
  unfold allocList
  split
  · rename_i he
    rw [List.isEmpty_iff.1 he]
    rfl
  · rename_i he
    unfold list
    have hne : NodeSlice.isEmpty ⟨a.lists.size, ids.length⟩ = false := by
      simpa [NodeSlice.isEmpty] using he
    have hsize : NodeSlice.stop ⟨a.lists.size, ids.length⟩ ≤ (a.lists ++ ids).size := by
      rw [size_lists_append]
      exact Nat.le_refl _
    rw [hne, if_neg Bool.false_ne_true, if_pos hsize]
    simp [NodeSlice.stop, Array.toList_appendList]

theorem allocList_consistent (h : a.Consistent) (ids : List NodeId) :
    (a.allocList ids).2.Consistent := by
  refine h.of_find?_eq (fun id => ?_) (handles_allocList ids)
  unfold allocList
  split <;> rfl

theorem intern_consistent (h : a.Consistent) (s : String) : (a.intern s).2.Consistent :=
  h.of_find?_eq (fun _ => rfl) (handles_of_lists_eq rfl)

theorem addAttribute_consistent (h : a.Consistent) (id : NodeId) (attr : Attribute) :
    (a.addAttribute id attr).Consistent :=
  h.of_find?_eq (fun _ => rfl) (handles_of_lists_eq rfl)

theorem foldl_addAttribute_consistent (h : a.Consistent) (attrs : List Attribute) (id : NodeId) :
    (attrs.foldl (·.addAttribute id ·) a).Consistent := by
  induction attrs generalizing a with
  | nil => exact h
  | cons attr attrs ih => exact ih (addAttribute_consistent h id attr)

/-! ### Types -/

theorem addType_builds (h : a.Consistent) {kind : NodeKind} (hk : kind.isType = true)
    (ht : ∀ t, kind = .referenceType t → (a.find? t).isSome = true) :
    a.Builds (a.addType kind).1 (a.addType kind).2 := by
  unfold addType
  refine alloc_builds_inert h (by rw [hk]; rfl) fun t hmem => ?_
  rcases NodeKind.mem_namedTypes.1 hmem with hnone | hreferent
  · cases hnone
  · exact ht t hreferent

theorem addFunctionType_consistent (h : a.Consistent) (result : NodeId) (params : List NodeId) :
    (a.addFunctionType result params).2.Consistent :=
  (addType_builds (allocList_consistent h params) rfl (by nofun)).consistent

theorem addRecordType_consistent (h : a.Consistent) (name : String) (size : Option Nat)
    (span : Span) : (a.addRecordType name size span).2.Consistent := by
  have htype := addType_builds (intern_consistent h name)
    (show (NodeKind.recordType (some ⟨a.size + 1⟩) size none).isType = true from rfl) (by nofun)
  refine (alloc_builds htype.consistent (admits_of_operands rfl ?_)
    (exact_of_inert rfl rfl rfl (NodeFlags.has_empty _))).consistent
  exact NodeKind.forall_namedTypes_some (by nofun) htype.mem

theorem completeRecord_consistent (h : a.Consistent) {record : NodeId} {size : Nat}
    (hrun : completeRecord record size a = .ok () b) : b.Consistent := by
  refine (wlp_update (Q := fun _ b => b.Consistent)).2 (fun n hn => ?_) () b hrun
  refine h.change hn (fun m g _ => ?_) ?_ ?_
  · split <;> rfl
  · split <;> rfl
  · split
    · rename_i hk
      rw [hk]
      exact .record
    · exact .refl _

theorem addQualified_consistent (h : a.Consistent) {type : NodeId} {n : Node} {quals : NodeFlags}
    (hn : a.find? type = some n) (hk : n.kind.isType = true)
    (hrun : addQualified type quals a = .ok r b) : b.Consistent := by
  let m : Node := ⟨n.kind, none, n.flags.union (quals.inter .qualifiers), n.span⟩
  have hinert : (n.kind.isType || n.kind.isConstant) = true := by
    rw [hk]
    rfl
  obtain ⟨hops, hown, hacc⟩ := inert_of_isType hinert
  have hflags : m.flags.has .effect = false := by
    obtain ⟨f, hf, he⟩ := h.flagged.exact type n hn
    cases (derivedFlags_of_inert hops hown hacc).symm.trans hf
    have hquals : NodeFlags.qualifiers.has .effect = false := by decide
    simp [m, ← he, hquals]
  -- the qualified type as it is in the end, when its flags are set
  have hm : (a.append m).Consistent := by
    refine h.append ⟨fun pointer _ hp _ => ?_, fun operand hw => ?_⟩
      (exact_of_inert hops hown hacc hflags) fun t hmem => ?_
    · cases (show n.kind = _ from hp) ▸ hk
    · rcases (Node.wrapped?_eq_some_iff.1 hw).2 with hp | hp <;>
        cases (show n.kind = _ from hp) ▸ hk
    · obtain hnone | hreferent := NodeKind.mem_namedTypes.1 hmem
      · cases hnone
      · exact h.type_mem type n hn t (NodeKind.mem_namedTypes.2 (.inr hreferent))
  have hbuild : Action.wlp (addQualified type quals) (fun _ b => b.Consistent) a := by
    unfold addQualified
    rw [Action.wlp_bind, Action.wlp_ask]
    intro n' hn'
    cases hn.symm.trans (node_eq_ok_iff.1 hn')
    rw [Action.wlp_bind, Action.wlp_modifyGet, Action.wlp_bind, insertFlags, wlp_update]
    intro _ _
    rw [Action.wlp_bind, Action.wlp_modify, Action.wlp_pure]
    refine foldl_addAttribute_consistent ?_ _ _
    have happend : (a.alloc n.kind none n.span).2.change ⟨a.size⟩
        (fun n' => { n' with flags := n'.flags.union (n.flags.union (quals.inter .qualifiers)) }) =
        a.append m := by
      refine (change_append a _ _).trans ?_
      simp [m, NodeFlags.union, NodeFlags.empty]
    exact happend ▸ hm
  exact hbuild r b hrun

/-! ### Declarations and expressions -/

theorem updateDecl_consistent (h : a.Consistent) {id : NodeId} {f : Decl → Decl}
    (hrun : updateDecl id f a = .ok () b) : b.Consistent := by
  refine (wlp_update (Q := fun _ b => b.Consistent)).2 (fun n hn => ?_) () b hrun
  refine h.change hn (fun m g _ => rfl) rfl ?_
  unfold NodeKind.mapDecl
  split
  · rename_i hk
    rw [hk]
    exact .decl
  · exact .refl _

theorem addDecl_consistent (h : a.Consistent) {sort : DeclSort} {name : String} {type : NodeId}
    {span : Span} (ht : (a.find? type).isSome = true)
    (hrun : addDecl sort name type span a = .ok r b) : b.Consistent := by
  have hbuild : Action.wlp (addDecl sort name type span) (fun _ b => b.Consistent) a := by
    unfold addDecl
    rw [Action.wlp_bind, Action.wlp_modifyGet]
    refine (build_builds (intern_consistent h name) (admits_of_operands rfl ?_)).mono
      fun _ _ hb => hb.consistent
    exact NodeKind.forall_namedTypes_some (by nofun) ht
  exact hbuild r b hrun

theorem buildCall_consistent (h : a.Consistent) {callee : Option NodeId} {args : List NodeId}
    {type : Option NodeId} {span : Span}
    (hops : ∀ op ∈ callee.toList ++ args, (a.find? op).isSome = true)
    (ht : ∀ t, type = some t → (a.find? t).isSome = true)
    (hrun : buildCall callee args type span a = .ok r b) : b.Consistent := by
  have hfind : ∀ id, (a.allocList args).2.find? id = a.find? id := by
    intro id
    unfold allocList
    split <;> rfl
  have hbuild : Action.wlp (buildCall callee args type span) (fun _ b => b.Consistent) a := by
    unfold buildCall
    rw [Action.wlp_bind, Action.wlp_modifyGet]
    refine (build_builds (allocList_consistent h args)
      ⟨⟨callee.toList ++ args, ?_, fun op hop => ?_⟩, ?_, by nofun⟩).mono
      fun _ _ hb => hb.consistent
    · exact map_eq_ok_iff.2 ⟨args, list_allocList args, rfl⟩
    · rw [hfind]
      exact hops op hop
    · intro t hmem
      rw [hfind]
      exact NodeKind.forall_namedTypes (by nofun) ht t hmem
  exact hbuild r b hrun

theorem buildWrapper_consistent (h : a.Consistent) {operand : NodeId} {span : Span}
    (hrun : buildWrapper operand span a = .ok r b) : b.Consistent := by
  have hbuild : Action.wlp (buildWrapper operand span) (fun _ b => b.Consistent) a := by
    unfold buildWrapper
    rw [Action.wlp_bind, Action.wlp_ask]
    intro kind _
    simp only
    generalize hop : (if kind.isConstant = true then UnaryOp.nonLvalue else .viewConvert) = op
    rw [Action.wlp_bind]
    -- the wrapper is built, and only then marked as one
    refine wlp_buildLike fun n hn => wlp_build fun flags hflags => ?_
    rw [Action.wlp_bind, insertFlags, wlp_update]
    intro _ _
    rw [change_append, Action.wlp_pure]
    have hclass : (NodeKind.unary op operand).operands = ([operand], .empty) ∧
        op ≠ .deref := by
      subst hop
      split <;> exact ⟨rfl, by decide⟩
    have htype : a.typeOf operand = .ok n.type := map_eq_ok_iff.2 ⟨n, node_eq_ok_iff.2 hn, rfl⟩
    have hmem : ∀ t, n.type = some t → (a.find? t).isSome = true := fun t ht =>
      h.type_mem operand n hn t (NodeKind.mem_namedTypes.2 (.inl ht))
    obtain ⟨f, hf⟩ := derivedFlags_isOk (n := ⟨.unary op operand, n.type, .empty, span⟩)
      (inRange_of_operands hclass.1 (by simp [hn])) hmem
    have heq : flags = f := derivedFlags_of_append hf hflags
    refine h.append ⟨fun pointer _ hk _ => ?_, fun operand' hw => ?_⟩
      ⟨f, (derivedFlags_congr rfl rfl).trans hf, by simp [heq]⟩
      (NodeKind.forall_namedTypes (fun _ ht => by cases ht) hmem)
    · cases hk
      exact absurd rfl hclass.2
    · rcases (Node.wrapped?_eq_some_iff.1 hw).2 with hk | hk <;> cases hk <;> exact htype
  exact hbuild r b hrun

theorem foldConvert_builds (h : a.Consistent) {expr type : NodeId} {loc : Span}
    (ht : (a.find? type).isSome = true) : Action.wlp (foldConvert expr type loc) a.Builds a := by
  have htype : ∀ {kind : NodeKind}, (∀ t, kind ≠ .referenceType t) →
      ∀ t ∈ kind.namedTypes (some type), (a.find? t).isSome = true := fun hk =>
    NodeKind.forall_namedTypes_some hk ht
  unfold foldConvert
  rw [Action.wlp_bind, Action.wlp_ask]
  intro n hn
  have hexpr : (a.find? expr).isSome = true := by
    rw [node_eq_ok_iff.1 hn]
    rfl
  split
  · exact Action.wlp_pure.2 (.self h hexpr)
  split
  · rw [Action.wlp_modifyGet]
    exact alloc_builds_inert h rfl (htype (by nofun))
  · exact build_builds h ⟨inRange_of_operands rfl (by simp [hexpr]), htype (by nofun), by nofun⟩

theorem foldMult_builds (h : a.Consistent) {expr type : NodeId} {factor : Int64} {loc : Span}
    (hexpr : (a.find? expr).isSome = true) (ht : (a.find? type).isSome = true) :
    Action.wlp (foldMult expr factor type loc) a.Builds a := by
  have htype : ∀ {kind : NodeKind}, (∀ t, kind ≠ .referenceType t) →
      ∀ t ∈ kind.namedTypes (some type), (a.find? t).isSome = true := fun hk =>
    NodeKind.forall_namedTypes_some hk ht
  unfold foldMult
  split
  · exact Action.wlp_pure.2 (.self h hexpr)
  rw [Action.wlp_bind, Action.wlp_ask]
  intro kind _
  split
  · rw [Action.wlp_modifyGet]
    exact alloc_builds_inert h rfl (htype (by nofun))
  · rw [Action.wlp_bind, Action.wlp_modifyGet]
    have hfactor : a.Builds (a.addConst (.intConst factor) type).1
        (a.addConst (.intConst factor) type).2 := alloc_builds_inert h rfl (htype (by nofun))
    refine (build_builds hfactor.consistent ⟨inRange_of_operands rfl ?_,
      fun t hmem => hfactor.kept t (htype (by nofun) t hmem), by nofun⟩).mono
      fun _ _ hb => hfactor.trans hb
    simp [hfactor.mem, hfactor.kept expr hexpr]

theorem offsetPointer_consistent (h : a.Consistent) {base index : NodeId} {loc : Span}
    (hrun : offsetPointer base index loc a = .ok r b) : b.Consistent := by
  have hoffset : Action.wlp (offsetPointer base index loc) (fun _ b => b.Consistent) a := by
    unfold offsetPointer
    split
    · exact Action.wlp_pure.2 h
    rw [Action.wlp_bind, Action.wlp_ask]
    rintro (_ | stride) _
    · exact Action.wlp_pure.2 h
    simp only
    rw [Action.wlp_bind]
    refine (foldConvert_builds h h.sizeType).mono fun i c hc => ?_
    rw [Action.wlp_bind]
    refine (foldMult_builds hc.consistent hc.mem hc.consistent.sizeType).mono fun o d hd => ?_
    rw [Action.wlp_bind, Action.wlp_ask]
    intro _ _
    split
    · exact Action.wlp_pure.2 hd.consistent
    · exact (buildLike_builds hd.consistent rfl (by simp [hd.mem]) (by nofun) (by nofun)).mono
        fun _ _ he => he.consistent
  exact hoffset r b hrun

/-- A builder keeps an arena consistent. -/
theorem Built.consistent (h : a.Consistent) (hb : Built a b) : b.Consistent := by
  cases hb with
  | alloc hadm hf he =>
    exact (alloc_builds h hadm ⟨_, hf, he.trans (NodeFlags.has_empty _).symm⟩).consistent
  | build hadm hrun => exact (build_builds h hadm _ b hrun).consistent
  | list => exact allocList_consistent h _
  | name => exact intern_consistent h _
  | attached => exact addAttribute_consistent h _ _
  | type hk ht => exact (addType_builds h hk ht).consistent
  | functionType => exact addFunctionType_consistent h _ _
  | recordType => exact addRecordType_consistent h _ _ _
  | completeRecord hrun => exact completeRecord_consistent h hrun
  | qualified hn hk hrun => exact addQualified_consistent h hn hk hrun
  | addressable hrun =>
    refine (wlp_update (Q := fun _ b => b.Consistent)).2 (fun n hn => ?_) () b hrun
    exact h.change hn (fun m g hg => by simp [Ne.symm hg]) rfl (.refl _)
  | span hrun =>
    refine (wlp_update (Q := fun _ b => b.Consistent)).2 (fun n hn => ?_) () b hrun
    exact h.change hn (fun _ _ _ => rfl) rfl (.refl _)
  | decl ht hrun => exact addDecl_consistent h ht hrun
  | updateDecl hrun => exact updateDecl_consistent h hrun
  | @const kind _ hk ht =>
    have href : ∀ t, kind ≠ .referenceType t := by
      rintro t rfl
      cases hk
    exact (alloc_builds_inert h (by rw [hk, Bool.or_true])
      (NodeKind.forall_namedTypes_some href ht)).consistent
  | string ht =>
    exact (alloc_builds_inert (intern_consistent h _) rfl
      (NodeKind.forall_namedTypes_some (by nofun) ht)).consistent
  | nonLvalue hrun =>
    exact (buildLike_builds h rfl (by simp) (by nofun) (by nofun) _ b hrun).consistent
  | comma hop hrun | assignment hop hrun | component hop hrun | target hop hrun =>
    exact (buildLike_builds h rfl (by simp [hop]) (by nofun) (by nofun) _ b hrun).consistent
  | call hops ht hrun => exact buildCall_consistent h hops ht hrun
  | wrapper hrun => exact buildWrapper_consistent h hrun
  | offset hrun => exact offsetPointer_consistent h hrun

end Arena

end ExprTree
