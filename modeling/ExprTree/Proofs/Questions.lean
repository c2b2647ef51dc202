import ExprTree.Proofs.Closed
import ExprTree.Proofs.Runs
import ExprTree.Proofs.Warnings

/-!
# Questions that have an answer

In an arena in which texts and conversions end, everything that passes ask about a node has an
answer, and the warnings about it are given.

* `Arena.Spellable.spellType`, `Arena.Closed.stripConversions` and the others — the questions.
* `Pass.Reports` — a pass that returns and reports, and does nothing else.
* `Pass.reports_warnIgnored` and the others — the warnings about discarded values.
-/

namespace ExprTree

namespace Arena

variable {a : Arena} {id : NodeId} {n : Node}

theorem mapM_isOk {α β : Type} {f : α → Except Fault β} {xs : List α}
    (h : ∀ x ∈ xs, ∃ r, f x = .ok r) : ∃ rs, xs.mapM f = .ok rs := by
  induction xs with
  | nil => exact ⟨[], rfl⟩
  | cons x xs ih =>
    obtain ⟨r, hr⟩ := h x (by simp)
    obtain ⟨rs, hrs⟩ := ih fun y hy => h y (by simp [hy])
    exact ⟨r :: rs, by rw [List.mapM_cons, hr, hrs]; rfl⟩

/-! ### Chains -/

theorem spellRecord_isOk {name : Option NodeId}
    (hname : ∀ decl ∈ name, (a.find? decl).isSome = true) : ∃ s, a.spellRecord name = .ok s := by
  cases name with
  | none => exact ⟨_, rfl⟩
  | some decl =>
    obtain ⟨n, hn⟩ := Option.isSome_iff_exists.1 (hname decl rfl)
    have hknown : a.declName? decl = .ok (n.kind.decl?.map Decl.name) :=
      map_kindOf_of_find? hn
    simp only [Arena.spellRecord, hknown, bind, Except.bind]
    split <;> exact ⟨_, rfl⟩

section Texts

variable {text : NodeId → Nat} (h : a.Closed)
  (htext : ∀ id part, a.Spells id part → text part < text id)
include h htext

/-- The parts of a text are there, and have smaller numbers. -/
theorem parts_of_text (hn : a.find? id = some n) :
    (∀ part ∈ n.kind.spelledParts.1, (a.find? part).isSome = true ∧ text part < text id) ∧
    ∃ ids, a.list n.kind.spelledParts.2 = .ok ids ∧
      ∀ part ∈ ids, (a.find? part).isSome = true ∧ text part < text id := by
  obtain ⟨ids, hids, hmem⟩ := (h.holds id n hn).handles n.kind.spelledParts_in_fields
  have hall : ∀ part ∈ ids, (a.find? part).isSome = true ∧ text part < text id :=
    fun part hpart => ⟨hmem part hpart, htext id part ⟨n, ids, hn, hids, hpart⟩⟩
  obtain ⟨listed, hlisted, rfl⟩ := map_eq_ok_iff.1 hids
  exact ⟨fun part hpart => hall part (List.mem_append_left _ hpart),
    listed, hlisted, fun part hpart => hall part (List.mem_append_right _ hpart)⟩

theorem spellDeclWithin_isOk {fuel : Nat} (hid : (a.find? id).isSome = true)
    (hfuel : text id < fuel) : ∃ s, a.spellDeclWithin fuel id = .ok s := by
  induction fuel generalizing id with
  | zero => omega
  | succ fuel ih =>
    obtain ⟨n, hn⟩ := Option.isSome_iff_exists.1 hid
    have hkind : a.kindOf id = .ok n.kind := kindOf_eq_ok_iff.2 ⟨n, hn, rfl⟩
    obtain ⟨hparts, -⟩ := parts_of_text h htext hn
    cases hk : n.kind with
    | usingDecl name scope decls =>
      obtain ⟨hname, hless⟩ := hparts name (by simp [hk, NodeKind.spelledParts])
      obtain ⟨s, hs⟩ := ih hname (by omega)
      exact ⟨s, bind_eq_ok_iff.2 ⟨_, hkind, by rw [hk]; exact hs⟩⟩
    | _ => exact ⟨_, bind_eq_ok_iff.2 ⟨_, hkind, by rw [hk]; rfl⟩⟩

theorem spellTypeWithin_isOk (hdecl : ∀ id, (a.find? id).isSome = true →
      ∃ s, a.spellDecl id = .ok s) {fuel : Nat} (hid : (a.find? id).isSome = true)
    (hfuel : text id < fuel) : ∃ s, a.spellTypeWithin fuel id = .ok s := by
  induction fuel generalizing id with
  | zero => omega
  | succ fuel ih =>
    obtain ⟨n, hn⟩ := Option.isSome_iff_exists.1 hid
    have hnode : a.node id = .ok n := node_eq_ok_iff.2 hn
    obtain ⟨hparts, ids, hids, hlisted⟩ := parts_of_text h htext hn
    -- the parts have smaller numbers, so the fuel lasts for them
    have hpart : ∀ part ∈ n.kind.spelledParts.1, ∃ s, a.spellTypeWithin fuel part = .ok s :=
      fun part hmem => ih (hparts part hmem).1 (by have := (hparts part hmem).2; omega)
    have hlist : ∃ texts, ids.mapM (a.spellTypeWithin fuel) = .ok texts :=
      mapM_isOk fun part hmem =>
        ih (hlisted part hmem).1 (by have := (hlisted part hmem).2; omega)
    simp only [Arena.spellTypeWithin, hnode, bind, Except.bind]
    cases hk : n.kind with
    | pointerType part | referenceType part | arrayType part | underlyingType part
    | typeExpansion part =>
      obtain ⟨s, hs⟩ := hpart part (by simp [hk, NodeKind.spelledParts])
      simp only [hs]
      exact ⟨_, rfl⟩
    | functionType result params =>
      obtain ⟨s, hs⟩ := hpart result (by simp [hk, NodeKind.spelledParts])
      obtain ⟨texts, htexts⟩ := hlist
      rw [hk] at hids
      simp only [NodeKind.spelledParts] at hids
      simp only [hs, hids, htexts]
      exact ⟨_, rfl⟩
    | recordType name size memberFunction =>
      have hname : ∀ decl ∈ name, (a.find? decl).isSome = true := fun decl hdecl =>
        (h.holds id n hn).nodes decl (by
          simp [hk, NodeKind.nodes, NodeKind.fields, Field.nodes, Option.mem_def.1 hdecl])
      obtain ⟨s, hs⟩ := spellRecord_isOk hname
      simp only [hs]
      exact ⟨_, rfl⟩
    | typenameType scope fullName =>
      obtain ⟨hname, -⟩ := hparts fullName (by simp [hk, NodeKind.spelledParts])
      obtain ⟨s, hs⟩ := hdecl fullName hname
      cases scope with
      | none =>
        simp only [hs]
        exact ⟨_, rfl⟩
      | some scope =>
        obtain ⟨t, ht⟩ := hpart scope (by simp [hk, NodeKind.spelledParts])
        simp only [hs, ht]
        exact ⟨_, rfl⟩
    | _ => exact ⟨_, rfl⟩

theorem isCompleteWithin_isOk {fuel : Nat} (hid : (a.find? id).isSome = true)
    (hfuel : text id < fuel) : ∃ r, a.isCompleteWithin fuel id = .ok r := by
  induction fuel generalizing id with
  | zero => omega
  | succ fuel ih =>
    obtain ⟨n, hn⟩ := Option.isSome_iff_exists.1 hid
    have hkind : a.kindOf id = .ok n.kind := kindOf_eq_ok_iff.2 ⟨n, hn, rfl⟩
    cases hk : n.kind with
    | arrayType element =>
      obtain ⟨helement, hless⟩ :=
        (parts_of_text h htext hn).1 element (by simp [hk, NodeKind.spelledParts])
      obtain ⟨r, hr⟩ := ih helement (by omega)
      exact ⟨r, bind_eq_ok_iff.2 ⟨_, hkind, by rw [hk]; exact hr⟩⟩
    | _ => exact ⟨_, bind_eq_ok_iff.2 ⟨_, hkind, by rw [hk]; rfl⟩⟩

end Texts

namespace Spellable

theorem spellDecl (h : a.Spellable) (hid : (a.find? id).isSome = true) :
    ∃ s, a.spellDecl id = .ok s := by
  obtain ⟨text, htext, hle⟩ := h.exists_text
  exact spellDeclWithin_isOk h.closed htext hid (Nat.lt_succ_of_le (hle id))

theorem spellType (h : a.Spellable) (hid : (a.find? id).isSome = true) :
    ∃ s, a.spellType id = .ok s := by
  obtain ⟨text, htext, hle⟩ := h.exists_text
  exact spellTypeWithin_isOk h.closed htext (fun _ => h.spellDecl) hid
    (Nat.lt_succ_of_le (hle id))

theorem isComplete (h : a.Spellable) (hid : (a.find? id).isSome = true) :
    ∃ r, a.isComplete id = .ok r := by
  obtain ⟨text, htext, hle⟩ := h.exists_text
  exact isCompleteWithin_isOk h.closed htext hid (Nat.lt_succ_of_le (hle id))

end Spellable

/-! ### Conversions -/

theorem stripConversionsWithin_isOk {depth : NodeId → Nat} (h : a.Closed)
    (hdepth : ∀ id operand, a.Converts id operand → depth operand < depth id) {fuel : Nat}
    (hid : (a.find? id).isSome = true) (hfuel : depth id < fuel) :
    ∃ r, a.stripConversionsWithin fuel id = .ok r ∧ (a.find? r).isSome = true := by
  induction fuel generalizing id with
  | zero => omega
  | succ fuel ih =>
    obtain ⟨n, hn⟩ := Option.isSome_iff_exists.1 hid
    have hnode : a.node id = .ok n := node_eq_ok_iff.2 hn
    cases hc : n.converted? with
    | none => exact ⟨id, bind_eq_ok_iff.2 ⟨n, hnode, by rw [hc]; rfl⟩, hid⟩
    | some operand =>
      have hlink : a.Converts id operand := ⟨n, hn, hc⟩
      obtain ⟨r, hr, hsome⟩ := ih (h.of_looksThrough hlink.looksThrough).2 (by
        have := hdepth id operand hlink
        omega)
      exact ⟨r, bind_eq_ok_iff.2 ⟨n, hnode, by rw [hc]; exact hr⟩, hsome⟩

/-- What is left below all conversions is there, where they end. -/
theorem Closed.stripConversions (h : a.Closed) (hstrip : a.Strippable)
    (hid : (a.find? id).isSome = true) :
    ∃ r, a.stripConversions id = .ok r ∧ (a.find? r).isSome = true := by
  obtain ⟨depth, hdepth, hle⟩ :=
    exists_rank (fun _ _ hc => h.of_looksThrough hc.looksThrough) hstrip
  exact stripConversionsWithin_isOk h hdepth hid (Nat.lt_succ_of_le (hle id))

theorem Closed.stripWrapper (h : a.Closed) (hid : (a.find? id).isSome = true) :
    ∃ r, a.stripWrapper id = .ok r ∧ (a.find? r).isSome = true := by
  obtain ⟨n, hn⟩ := Option.isSome_iff_exists.1 hid
  refine ⟨_, map_node_of_find? hn, ?_⟩
  cases hw : n.wrapped? with
  | none => exact hid
  | some operand => exact (h.of_looksThrough ⟨n, hn, Node.behind?_of_wrapped? hw⟩).2

/-! ### Types and calls -/

theorem Closed.isReference (h : a.Closed) (hid : (a.find? id).isSome = true) :
    ∃ r, a.isReference id = .ok r := by
  obtain ⟨n, hn⟩ := Option.isSome_iff_exists.1 hid
  have htype : a.typeOf id = .ok n.type := map_node_of_find? hn
  simp only [Arena.isReference, htype, bind, Except.bind]
  cases ht : n.type with
  | none => exact ⟨false, rfl⟩
  | some type =>
    obtain ⟨m, hm⟩ := Option.isSome_iff_exists.1 (h.type id n hn type ht)
    exact ⟨_, map_kindOf_of_find? hm⟩

theorem Closed.isRejected (h : a.Closed) (hid : (a.find? id).isSome = true) (mode : UseMode) :
    ∃ r, a.isRejected id mode = .ok r := by
  obtain ⟨target, htarget, hsome⟩ := h.stripWrapper hid
  obtain ⟨n, hn⟩ := Option.isSome_iff_exists.1 hsome
  unfold Arena.isRejected
  split
  · exact ⟨_, bind_eq_ok_iff.2 ⟨target, htarget, bind_eq_ok_iff.2 ⟨n, node_eq_ok_iff.2 hn, rfl⟩⟩⟩
  · exact ⟨false, rfl⟩

/-- A handle that is taken from a field of a node leads to a node. -/
theorem Closed.map_kindOf (h : a.Closed) {g : NodeKind → Option NodeId}
    (hg : ∀ k x, g k = some x → x ∈ k.nodes) (hid : (a.find? id).isSome = true) :
    ∃ o, (a.kindOf id).map g = .ok o ∧ ∀ x ∈ o, (a.find? x).isSome = true := by
  obtain ⟨n, hn⟩ := Option.isSome_iff_exists.1 hid
  exact ⟨g n.kind, map_kindOf_of_find? hn, fun x hx => (h.holds id n hn).nodes x (hg _ x hx)⟩

theorem Closed.indirectTarget? (h : a.Closed) (hid : (a.find? id).isSome = true) :
    ∃ o, a.indirectTarget? id = .ok o ∧ ∀ x ∈ o, (a.find? x).isSome = true := by
  refine h.map_kindOf (fun k x hx => ?_) hid
  split at hx
  · cases hx
    exact List.mem_singleton_self _
  · cases hx
    exact List.mem_singleton_self _
  · cases hx

theorem Closed.resultType? (h : a.Closed) (hid : (a.find? id).isSome = true) :
    ∃ o, a.resultType? id = .ok o ∧ ∀ x ∈ o, (a.find? x).isSome = true := by
  refine h.map_kindOf (fun k x hx => ?_) hid
  split at hx
  · cases hx
    exact List.mem_singleton_self _
  · cases hx

theorem Closed.nameDecl? (h : a.Closed) (hid : (a.find? id).isSome = true) :
    ∃ o, a.nameDecl? id = .ok o ∧ ∀ x ∈ o, (a.find? x).isSome = true := by
  refine h.map_kindOf (fun k x hx => ?_) hid
  split at hx
  · simp [NodeKind.nodes, NodeKind.fields, Field.nodes, hx]
  · cases hx

/-- What a callee returns has a type of the arena. -/
theorem Closed.callResult? (h : a.Closed) (hid : (a.find? id).isSome = true) :
    ∃ o, a.callResult? id = .ok o ∧ ∀ x ∈ o, (a.find? x).isSome = true := by
  obtain ⟨n, hn⟩ := Option.isSome_iff_exists.1 hid
  have htype : a.typeOf id = .ok n.type := map_node_of_find? hn
  simp only [Arena.callResult?, htype, bind, Except.bind]
  cases ht : n.type with
  | none => exact ⟨none, rfl, nofun⟩
  | some type =>
    have hsome := h.type id n hn type ht
    obtain ⟨target, htarget, hmem⟩ := h.indirectTarget? hsome
    simp only [htarget]
    cases target with
    | none => exact h.resultType? hsome
    | some target => exact h.resultType? (hmem target rfl)

theorem Closed.discardedCall (h : a.Closed) (hid : (a.find? id).isSome = true) :
    ∃ call, a.discardedCall id = .ok call ∧ (a.find? call).isSome = true := by
  obtain ⟨n, hn⟩ := Option.isSome_iff_exists.1 hid
  refine ⟨_, map_kindOf_of_find? hn, ?_⟩
  split
  · rename_i slot initial hk
    exact (h.holds id n hn).nodes initial (by
      simp [hk, NodeKind.nodes, NodeKind.fields, Field.nodes])
  · exact hid

theorem asFunction?_isOk (hid : (a.find? id).isSome = true) :
    ∃ f, a.asFunction? id = .ok f ∧ ∀ x ∈ f, (a.find? x).isSome = true := by
  obtain ⟨n, hn⟩ := Option.isSome_iff_exists.1 hid
  refine ⟨_, map_kindOf_of_find? hn, ?_⟩
  split
  · rintro x ⟨⟩
    exact hid
  · nofun

/-- The function that a callee names is a node of the arena. -/
theorem Closed.calledFunction? (h : a.Closed) (hstrip : a.Strippable)
    (hid : (a.find? id).isSome = true) :
    ∃ f, a.calledFunction? id = .ok f ∧ ∀ x ∈ f, (a.find? x).isSome = true := by
  obtain ⟨n, hn⟩ := Option.isSome_iff_exists.1 hid
  have hkind : a.kindOf id = .ok n.kind := kindOf_eq_ok_iff.2 ⟨n, hn, rfl⟩
  have htype : a.typeOf id = .ok n.type := map_node_of_find? hn
  simp only [Arena.calledFunction?, hkind, htype, bind, Except.bind]
  split
  · refine ⟨_, rfl, ?_⟩
    rintro x ⟨⟩
    exact hid
  cases ht : n.type with
  | none => exact ⟨none, rfl, nofun⟩
  | some type =>
    obtain ⟨target, htarget, -⟩ := h.indirectTarget? (h.type id n hn type ht)
    have hindirect : a.isIndirectType type = .ok target.isSome :=
      map_eq_ok_iff.2 ⟨target, htarget, rfl⟩
    simp only [hindirect]
    cases target with
    | none => exact ⟨none, rfl, nofun⟩
    | some target =>
      -- a pointer or a reference: its conversions end, and at most one address-of is looked through
      obtain ⟨core, hcore, hsome⟩ := h.stripConversions hstrip hid
      obtain ⟨c, hc⟩ := Option.isSome_iff_exists.1 hsome
      have hckind : a.kindOf core = .ok c.kind := kindOf_eq_ok_iff.2 ⟨c, hc, rfl⟩
      simp only [hcore, hckind]
      cases hk : c.kind with
      | unary op operand =>
        have hoperand := (h.holds core c hc).nodes operand (by
          rw [hk]
          exact List.mem_singleton_self _)
        cases op with
        | addressOf => exact asFunction?_isOk hoperand
        | _ => exact asFunction?_isOk hsome
      | _ => exact asFunction?_isOk hsome

/-- The function whose result must be used is the called one. -/
theorem mem_of_mustUse? {function : Option NodeId} {result f : NodeId} {reason : String}
    (h : a.mustUse? function result = some (.function f reason)) : f ∈ function := by
  cases function with
  | none => simp [mustUse?] at h
  | some g =>
    simp only [mustUse?, Option.bind_some, Option.or_eq_some_iff, Option.map_eq_some_iff] at h
    rcases h with ⟨_, -, h⟩ | ⟨-, _, -, h⟩
    · cases h
      rfl
    · cases h

end Arena

namespace Pass

open ExprTree.Action

variable {α β : Type} {a : Arena} {cx : Context} {id expr : NodeId} {loc : Span}

/-! ### Passes that return and report -/

/-- In every context with this arena a pass returns, and changes nothing but the queue. -/
def Reports (p : Pass α) (a : Arena) : Prop :=
  ∀ cx : Context, cx.arena = a → ∃ r queue, p cx = .ok r { cx with queue := queue }

theorem Reports.returns {p : Pass α} (hp : Reports p a) (ha : cx.arena = a)
    {Q : α → Context → Prop} (hQ : ∀ r queue, Q r { cx with queue := queue }) :
    Returns p Q cx := by
  obtain ⟨r, queue, hrun⟩ := hp cx ha
  exact ⟨r, _, hrun, hQ r queue⟩

theorem reports_pure {r : α} : Reports (pure r : Pass α) a := fun cx _ => ⟨r, cx.queue, rfl⟩

theorem Reports.bind {p : Pass α} {f : α → Pass β} (hp : Reports p a)
    (hf : ∀ r, Reports (f r) a) : Reports (p >>= f) a := by
  intro cx ha
  obtain ⟨x, queue, hx⟩ := hp cx ha
  obtain ⟨r, queue', hr⟩ := hf x { cx with queue := queue } ha
  exact ⟨r, queue', bind_eq_ok_iff.2 ⟨x, _, hx, hr⟩⟩

/-- A question that has an answer. -/
theorem reports_query {q : Arena → Except Fault α} {x : α} {f : α → Pass β} (hx : q a = .ok x)
    (hf : Reports (f x) a) : Reports (query q >>= f) a := by
  intro cx ha
  obtain ⟨r, queue, hr⟩ := hf cx ha
  exact ⟨r, queue, bind_eq_ok_iff.2 ⟨x, cx, ask_eq_ok_iff.2 ⟨by rw [ha, hx], rfl⟩, hr⟩⟩

theorem reports_get {f : Context → Pass β} (hf : ∀ cx, Reports (f cx) a) :
    Reports (get >>= f) a := by
  intro cx ha
  obtain ⟨r, queue, hr⟩ := hf cx cx ha
  exact ⟨r, queue, bind_eq_ok_iff.2 ⟨cx, cx, rfl, hr⟩⟩

theorem reports_location {f : Span → Pass β} (hid : (a.find? id).isSome = true)
    (hf : ∀ loc, Reports (f loc) a) : Reports (location id >>= f) a := by
  intro cx ha
  obtain ⟨n, hn⟩ := Option.isSome_iff_exists.1 hid
  have hloc : cx.arena.locationOf id cx.inputLocation = .ok _ :=
    Arena.map_node_of_find? (ha ▸ hn)
  obtain ⟨r, queue, hr⟩ := hf _ cx ha
  exact ⟨r, queue, bind_eq_ok_iff.2 ⟨_, cx, ask_eq_ok_iff.2 ⟨hloc, rfl⟩, hr⟩⟩

theorem reports_warn {code : Code} {message : String} : Reports (warn code loc message) a :=
  fun _ _ => ⟨_, _, rfl⟩

theorem reports_note {message : String} : Reports (note loc message) a :=
  fun _ _ => ⟨_, _, rfl⟩

theorem Reports.discard {p : Pass α} (hp : Reports p a) : Reports (discard p) a := by
  show Reports (_ <$> p) a
  rw [map_eq_pure_bind]
  exact hp.bind fun _ => reports_pure

theorem Reports.when {p : Pass Unit} (hp : Reports p a) {asked : Bool} :
    Reports (Pass.when asked p) a := by
  unfold Pass.when
  split
  · exact hp
  · exact reports_pure

/-! ### Warnings -/

section Warnings

variable {site : DiscardSite} {reference : Bool} {type : NodeId} {name : Name}
  {message spelled reason : String} {function : Option NodeId}

/-- A flag of a node is known. -/
theorem reports_flag {g : Node → Bool} {f : Bool → Pass β} (hid : (a.find? id).isSome = true)
    (hf : ∀ r, Reports (f r) a) : Reports (query (fun a => (a.node id).map g) >>= f) a := by
  obtain ⟨n, hn⟩ := Option.isSome_iff_exists.1 hid
  exact reports_query (Arena.map_node_of_find? hn) (hf _)

theorem reports_warnVolatile (h : a.Spellable) (htype : (a.find? type).isSome = true) :
    Reports (warnVolatile site loc reference type) a := by
  obtain ⟨s, hs⟩ := h.spellType htype
  obtain ⟨complete, hcomplete⟩ := h.isComplete htype
  refine reports_query hs (reports_query hcomplete ?_)
  cases complete with
  | false => exact reports_warn.discard
  | true =>
    cases reference with
    | true => exact reports_warn.discard
    | false =>
      refine reports_flag htype fun addressable => ?_
      cases addressable with
      | true => exact reports_warn.discard
      | false => exact reports_pure

theorem reports_warnUnusedValue (hexpr : (a.find? expr).isSome = true) :
    Reports (warnUnusedValue site loc reference expr) a := by
  unfold warnUnusedValue
  refine reports_get fun cx => ?_
  split
  · obtain ⟨n, hn⟩ := Option.isSome_iff_exists.1 hexpr
    have hflags : a.suppresses expr (.single .noUnusedValueWarning) = .ok _ :=
      Arena.map_eq_ok_iff.2
        ⟨_, Arena.map_node_of_find? hn, rfl⟩
    refine reports_query hflags ?_
    split
    · exact reports_warn.discard
    · exact reports_pure
  · exact reports_pure

theorem reports_warnVariable (h : a.Spellable) (htype : (a.find? type).isSome = true) :
    Reports (warnVariable name type loc site) a := by
  obtain ⟨s, hs⟩ := h.spellType htype
  obtain ⟨complete, hcomplete⟩ := h.isComplete htype
  refine reports_flag htype fun volatile => ?_
  cases volatile with
  | false => exact reports_pure
  | true =>
    refine reports_query hcomplete ?_
    cases complete with
    | true => exact reports_pure
    | false => exact reports_query hs (reports_get fun _ => reports_warn.discard)

theorem reports_noteAt (hid : (a.find? id).isSome = true) : Reports (noteAt id message) a := by
  obtain ⟨n, hn⟩ := Option.isSome_iff_exists.1 hid
  exact reports_query (Arena.map_node_of_find? hn)
    reports_note.discard

theorem reports_noteFunction (h : a.Spellable)
    (hfunction : ∀ f ∈ function, (a.find? f).isSome = true) :
    Reports (noteFunction function) a := by
  cases function with
  | none => exact reports_pure
  | some f =>
    obtain ⟨s, hs⟩ := h.spellDecl (hfunction f rfl)
    exact reports_query hs (reports_noteAt (hfunction f rfl))

theorem reports_noteType (h : a.Closed) (htype : (a.find? type).isSome = true) :
    Reports (noteType type spelled) a := by
  obtain ⟨decl, hdecl, hmem⟩ := h.nameDecl? htype
  refine reports_query hdecl ?_
  cases decl with
  | none => exact reports_pure
  | some decl => exact reports_noteAt (hmem decl rfl)

theorem reports_warnIgnoredFunction (h : a.Spellable) (hid : (a.find? id).isSome = true) :
    Reports (warnIgnoredFunction loc id reason) a := by
  obtain ⟨s, hs⟩ := h.spellDecl hid
  exact reports_query hs (reports_warn.bind fun _ => (reports_noteAt hid).when)

theorem reports_warnIgnoredType (h : a.Spellable)
    (hfunction : ∀ f ∈ function, (a.find? f).isSome = true)
    (htype : (a.find? type).isSome = true) :
    Reports (warnIgnoredType loc function type reason) a := by
  obtain ⟨s, hs⟩ := h.spellType htype
  exact reports_query hs (reports_warn.bind fun _ =>
    ((reports_noteFunction h hfunction).bind fun _ => reports_noteType h.closed htype).when)

theorem reports_warnIgnoredCall {call callee result : NodeId} (h : a.Spellable)
    (hstrip : a.Strippable) (hcall : (a.find? call).isSome = true)
    (hcallee : (a.find? callee).isSome = true) (hresult : (a.find? result).isSome = true) :
    Reports (warnIgnoredCall call callee result) a := by
  obtain ⟨function, hfunction, hmem⟩ := h.closed.calledFunction? hstrip hcallee
  refine reports_query hfunction (reports_location hcall fun loc => reports_query rfl ?_)
  cases hmust : a.mustUse? function result with
  | none => exact reports_pure
  | some demand =>
    cases demand with
    | type reason => exact reports_warnIgnoredType h hmem hresult
    | function f reason =>
      exact reports_warnIgnoredFunction h (hmem f (Arena.mem_of_mustUse? hmust))

/-- The warning about an ignored result is given, or not, without a fault. -/
theorem reports_warnIgnored (h : a.Spellable) (hstrip : a.Strippable)
    (hexpr : (a.find? expr).isSome = true) : Reports (warnIgnored expr site) a := by
  obtain ⟨call, hcall, hsome⟩ := h.closed.discardedCall hexpr
  obtain ⟨n, hn⟩ := Option.isSome_iff_exists.1 hsome
  refine reports_query hcall (reports_query (Arena.kindOf_eq_ok_iff.2 ⟨n, hn, rfl⟩) ?_)
  split
  · rename_i callee args hk
    have hcallee := (h.closed.holds call n hn).nodes callee (by
      simp [hk, NodeKind.nodes, NodeKind.fields, Field.nodes])
    obtain ⟨result, hresult, hmem⟩ := h.closed.callResult? hcallee
    refine reports_query hresult ?_
    cases result with
    | none => exact reports_pure
    | some result => exact (reports_warnIgnoredCall h hstrip hsome hcallee (hmem result rfl)).when
  · exact reports_pure

end Warnings

end Pass

end ExprTree
