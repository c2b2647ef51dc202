import ExprTree.Discard.Ignored
import ExprTree.Proofs.Typing

/-!
# Who says that a result must be used

A callee names a function by its form: it is the declaration, or a pointer or a reference that leads
to one below conversions and at most one address-of.  The result of a call must be used where this
function is marked as `nodiscard`, or else the type of the result.

* `Arena.Strips`, `Arena.Resolves` — the function that a callee names.
* `Arena.CallsFor` — the call that an expression evaluates, and what it returns.
* `Arena.MustUseResult` — somebody says that the result must be used.
* `Arena.calledFunction?_eq_some_iff`, `Arena.callsFor_iff`, `Arena.mustUse?_cases` — how these are
  asked.
-/

namespace ExprTree

namespace Arena

variable {a : Arena} {expr call callee result core f id : NodeId} {n : Node}

/-! ### The function that a callee names -/

/-- What is left of an expression below the conversions that change nothing. -/
inductive Strips (a : Arena) : NodeId → NodeId → Prop
  | core {expr : NodeId} {n : Node} (hn : a.find? expr = some n) (h : n.converted? = none) :
    Strips a expr expr
  | conversion {expr operand core : NodeId} {n : Node} (hn : a.find? expr = some n)
    (h : n.converted? = some operand) (hs : Strips a operand core) : Strips a expr core

/-- A declaration of a function. -/
def IsFunction (a : Arena) (id : NodeId) : Prop :=
  ∃ n, a.find? id = some n ∧ n.kind.isFunction = true

/-- A callee names a function: it is the declaration, or a pointer or a reference of which the
declaration is left below conversions and at most one address-of. -/
inductive Resolves (a : Arena) (callee : NodeId) : NodeId → Prop
  | itself (h : a.IsFunction callee) : Resolves a callee callee
  | behind {type core f : NodeId} (htype : a.typeOf callee = .ok (some type))
    (hindirect : a.isIndirectType type = .ok true) (hs : a.Strips callee core)
    (hcore : f = core ∨ a.kindOf core = .ok (.unary .addressOf f)) (hf : a.IsFunction f) :
    Resolves a callee f

theorem strips_of_stripConversions (h : a.stripConversions expr = .ok core) :
    a.Strips expr core := by
  unfold stripConversions at h
  generalize a.size + 1 = fuel at h
  induction fuel generalizing expr with
  | zero => cases h
  | succ fuel ih =>
    obtain ⟨n, hn, h⟩ := bind_eq_ok_iff.1 h
    rw [node_eq_ok_iff] at hn
    cases hc : n.converted? with
    | none =>
      rw [hc] at h
      cases h
      exact .core hn hc
    | some operand =>
      rw [hc] at h
      exact .conversion hn hc (ih h)

theorem Strips.unique {core' : NodeId} (h : a.Strips expr core) (h' : a.Strips expr core') :
    core' = core := by
  induction h with
  | core hn hc =>
    cases h' with
    | core => rfl
    | conversion hn' hc' =>
      cases hn.symm.trans hn'
      cases hc.symm.trans hc'
  | conversion hn hc _ ih =>
    cases h' with
    | core hn' hc' =>
      cases hn.symm.trans hn'
      cases hc.symm.trans hc'
    | conversion hn' hc' hs =>
      cases hn.symm.trans hn'
      cases hc.symm.trans hc'
      exact ih hs

/-- A declaration is no conversion. -/
theorem IsFunction.strips (h : a.IsFunction f) : a.Strips f f := by
  obtain ⟨n, hn, hf⟩ := h
  refine .core hn ?_
  cases hk : n.kind with
  | decl => simp [Node.converted?, Node.wrapped?, hk]
  | _ =>
    rw [hk] at hf
    cases hf

theorem IsFunction.ne_addressOf (h : a.IsFunction f) {operand : NodeId} :
    a.kindOf f ≠ .ok (.unary .addressOf operand) := by
  intro hk
  obtain ⟨n, hn, hf⟩ := h
  obtain ⟨m, hm, hk⟩ := kindOf_eq_ok_iff.1 hk
  cases hn.symm.trans hm
  rw [hk] at hf
  cases hf

theorem asFunction?_eq_some_iff {function : Option NodeId}
    (h : a.asFunction? id = .ok function) : function = some f ↔ f = id ∧ a.IsFunction id := by
  obtain ⟨k, hk, rfl⟩ := map_eq_ok_iff.1 h
  obtain ⟨n, hn, rfl⟩ := kindOf_eq_ok_iff.1 hk
  have hid : a.IsFunction id ↔ n.kind.isFunction = true :=
    ⟨fun ⟨m, hm, hf⟩ => by cases hn.symm.trans hm; exact hf, fun hf => ⟨n, hn, hf⟩⟩
  rw [hid]
  cases n.kind.isFunction <;> simp [eq_comm]

/-- A function names itself and nothing else. -/
theorem IsFunction.resolves_iff (h : a.IsFunction callee) : a.Resolves callee f ↔ f = callee := by
  refine ⟨fun hf => ?_, fun hf => by rw [hf]; exact .itself h⟩
  cases hf with
  | itself => rfl
  | behind _ _ hs hcore _ =>
    cases h.strips.unique hs
    rcases hcore with rfl | haddress
    · rfl
    · exact absurd haddress h.ne_addressOf

section Behind

variable (hcallee : ¬ a.IsFunction callee)
include hcallee

theorem not_resolves (h : ∀ type, a.typeOf callee = .ok (some type) →
    a.isIndirectType type ≠ .ok true) : ¬ a.Resolves callee f := by
  intro hf
  cases hf with
  | itself hf => exact hcallee hf
  | behind htype hindirect => exact h _ htype hindirect

theorem resolves_behind_iff {type : NodeId} (htype : a.typeOf callee = .ok (some type))
    (hindirect : a.isIndirectType type = .ok true) (hs : a.Strips callee core) :
    a.Resolves callee f ↔
      (f = core ∨ a.kindOf core = .ok (.unary .addressOf f)) ∧ a.IsFunction f := by
  refine ⟨fun h => ?_, fun ⟨hf, h⟩ => .behind htype hindirect hs hf h⟩
  cases h with
  | itself h => exact absurd h hcallee
  | behind _ _ hs' hf h =>
    cases hs.unique hs'
    exact ⟨hf, h⟩

/-- What is left below the conversions is the function, or its address is. -/
theorem calledBehind_eq_some_iff {type : NodeId} {k : NodeKind} {function : Option NodeId}
    (htype : a.typeOf callee = .ok (some type)) (hindirect : a.isIndirectType type = .ok true)
    (hs : a.Strips callee core) (hk : a.kindOf core = .ok k)
    (h : (match k with
      | .unary .addressOf operand => a.asFunction? operand
      | _ => a.asFunction? core) = .ok function) :
    function = some f ↔ a.Resolves callee f := by
  rw [resolves_behind_iff hcallee htype hindirect hs]
  -- an address-of is no function itself, and no other expression leads further
  split at h
  · rename_i operand
    rw [asFunction?_eq_some_iff h]
    constructor
    · rintro ⟨rfl, hf⟩
      exact ⟨.inr hk, hf⟩
    · rintro ⟨rfl | haddress, hf⟩
      · exact absurd hk hf.ne_addressOf
      · cases hk.symm.trans haddress
        exact ⟨rfl, hf⟩
  · rename_i hno
    rw [asFunction?_eq_some_iff h]
    constructor
    · rintro ⟨rfl, hf⟩
      exact ⟨.inl rfl, hf⟩
    · rintro ⟨rfl | haddress, hf⟩
      · exact ⟨rfl, hf⟩
      · exact absurd (Except.ok.inj (hk.symm.trans haddress)) (hno f)

end Behind

/-- The function that a callee names is found. -/
theorem calledFunction?_eq_some_iff {function : Option NodeId}
    (h : a.calledFunction? callee = .ok function) : function = some f ↔ a.Resolves callee f := by
  unfold calledFunction? at h
  obtain ⟨k, hk, h⟩ := bind_eq_ok_iff.1 h
  obtain ⟨n, hn, rfl⟩ := kindOf_eq_ok_iff.1 hk
  split at h
  · rename_i hf
    cases h
    rw [IsFunction.resolves_iff ⟨n, hn, hf⟩, Option.some.injEq, eq_comm]
  rename_i hf
  have hcallee : ¬ a.IsFunction callee := fun ⟨m, hm, h⟩ => by
    cases hn.symm.trans hm
    exact hf h
  obtain ⟨_ | type, htype, h⟩ := bind_eq_ok_iff.1 h
  · cases h
    exact iff_of_false nofun (not_resolves hcallee fun _ h => nomatch htype.symm.trans h)
  simp only at h
  obtain ⟨indirect, hindirect, h⟩ := bind_eq_ok_iff.1 h
  cases indirect with
  | false =>
    cases h
    refine iff_of_false nofun (not_resolves hcallee fun type' htype' h => ?_)
    cases htype.symm.trans htype'
    cases hindirect.symm.trans h
  | true =>
    rw [if_pos rfl] at h
    obtain ⟨core, hcore, h⟩ := bind_eq_ok_iff.1 h
    obtain ⟨k, hk, h⟩ := bind_eq_ok_iff.1 h
    exact calledBehind_eq_some_iff hcallee htype hindirect (strips_of_stripConversions hcore) hk h

/-! ### Calls -/

/-- An expression evaluates a call, itself or as the initializer of a temporary, and what is called
is a function, or a pointer or a reference to one. -/
structure CallsFor (a : Arena) (expr call callee result : NodeId) : Prop where
  evaluates : call = expr ∨ ∃ slot, a.kindOf expr = .ok (.target slot call)
  calls : ∃ args, a.kindOf call = .ok (.call (some callee) args)
  returns : ∃ type function params, a.typeOf callee = .ok (some type) ∧
    (function = type ∨ a.kindOf type = .ok (.pointerType function) ∨
      a.kindOf type = .ok (.referenceType function)) ∧
    a.kindOf function = .ok (.functionType result params)

theorem callResult?_eq_some_iff : a.callResult? callee = .ok (some result) ↔
    ∃ type function params, a.typeOf callee = .ok (some type) ∧
      (function = type ∨ a.kindOf type = .ok (.pointerType function) ∨
        a.kindOf type = .ok (.referenceType function)) ∧
      a.kindOf function = .ok (.functionType result params) := by
  have hresult : ∀ function, a.resultType? function = .ok (some result) ↔
      ∃ params, a.kindOf function = .ok (.functionType result params) := by
    intro function
    unfold resultType?
    rw [map_eq_ok_iff]
    constructor
    · rintro ⟨k, hk, h⟩
      split at h
      · cases h
        exact ⟨_, hk⟩
      · cases h
    · rintro ⟨params, hk⟩
      exact ⟨_, hk, rfl⟩
  unfold callResult?
  rw [bind_eq_ok_iff]
  constructor
  · rintro ⟨_ | type, htype, h⟩
    · cases h
    obtain ⟨target, htarget, h⟩ := bind_eq_ok_iff.1 h
    obtain ⟨k, hk, rfl⟩ := map_eq_ok_iff.1 htarget
    obtain ⟨params, hparams⟩ := (hresult _).1 h
    refine ⟨type, _, params, htype, ?_, hparams⟩
    split
    · exact .inr (.inl hk)
    · exact .inr (.inr hk)
    · exact .inl rfl
  · rintro ⟨type, function, params, htype, hfunction, hk⟩
    refine ⟨_, htype, bind_eq_ok_iff.2 ?_⟩
    rcases hfunction with rfl | hpointer | hreference
    · exact ⟨none, map_eq_ok_iff.2 ⟨_, hk, rfl⟩, (hresult _).2 ⟨params, hk⟩⟩
    · exact ⟨some function, map_eq_ok_iff.2 ⟨_, hpointer, rfl⟩, (hresult _).2 ⟨params, hk⟩⟩
    · exact ⟨some function, map_eq_ok_iff.2 ⟨_, hreference, rfl⟩, (hresult _).2 ⟨params, hk⟩⟩

theorem callsFor_iff : a.CallsFor expr call callee result ↔
    a.discardedCall expr = .ok call ∧ (∃ args, a.kindOf call = .ok (.call (some callee) args)) ∧
      a.callResult? callee = .ok (some result) := by
  rw [callResult?_eq_some_iff]
  unfold discardedCall
  rw [map_eq_ok_iff]
  constructor
  · rintro ⟨rfl | ⟨slot, hk⟩, ⟨args, hcall⟩, hreturns⟩
    · exact ⟨⟨_, hcall, rfl⟩, ⟨args, hcall⟩, hreturns⟩
    · exact ⟨⟨_, hk, rfl⟩, ⟨args, hcall⟩, hreturns⟩
  · rintro ⟨⟨k, hk, hcall⟩, hcalls, hreturns⟩
    refine ⟨?_, hcalls, hreturns⟩
    split at hcall
    · cases hcall
      exact .inr ⟨_, hk⟩
    · exact .inl hcall.symm

theorem CallsFor.unique {call' callee' result' : NodeId} (h : a.CallsFor expr call callee result)
    (h' : a.CallsFor expr call' callee' result') :
    call' = call ∧ callee' = callee ∧ result' = result := by
  obtain ⟨hcall, ⟨args, hk⟩, hresult⟩ := callsFor_iff.1 h
  obtain ⟨hcall', ⟨args', hk'⟩, hresult'⟩ := callsFor_iff.1 h'
  cases hcall.symm.trans hcall'
  cases hk.symm.trans hk'
  cases hresult.symm.trans hresult'
  exact ⟨rfl, rfl, rfl⟩

/-! ### Marks -/

/-- A declaration or a type carries the attribute that asks for a use. -/
def IsNodiscard (a : Arena) (id : NodeId) : Prop :=
  ∃ attr ∈ a.attributesOf id, a.nameText attr.name = nodiscard

theorem isNodiscard_iff : a.IsNodiscard id ↔ ∃ reason, a.nodiscardReason? id = some reason := by
  rw [← Option.isSome_iff_exists]
  simp [IsNodiscard, nodiscardReason?, attribute?]

/-- Somebody says that the result of a call must be used: the function, or else the type. -/
def MustUseResult (a : Arena) (callee result : NodeId) : Prop :=
  (∃ f, a.Resolves callee f ∧ a.IsNodiscard f) ∨ a.IsNodiscard result

theorem isNodiscard_false_iff : ¬ a.IsNodiscard id ↔ a.nodiscardReason? id = none := by
  rw [isNodiscard_iff, ← Option.isSome_iff_exists, Option.not_isSome_iff_eq_none]

/-- What is said by the function comes before what is said by the type. -/
theorem mustUse?_cases {function : Option NodeId}
    (h : ∀ f, function = some f ↔ a.Resolves callee f) :
    match a.mustUse? function result with
    | some (.function f reason) => a.Resolves callee f ∧ a.nodiscardReason? f = some reason
    | some (.type reason) => (∀ f, a.Resolves callee f → ¬ a.IsNodiscard f) ∧
        a.nodiscardReason? result = some reason
    | none => ¬ a.MustUseResult callee result := by
  -- nothing said by the function leaves what is said by the type
  have htype : (∀ f, a.Resolves callee f → ¬ a.IsNodiscard f) →
      match (a.nodiscardReason? result).map MustUse.type with
      | some (.function f reason) => a.Resolves callee f ∧ a.nodiscardReason? f = some reason
      | some (.type reason) => (∀ f, a.Resolves callee f → ¬ a.IsNodiscard f) ∧
          a.nodiscardReason? result = some reason
      | none => ¬ a.MustUseResult callee result := by
    intro hfree
    cases hresult : a.nodiscardReason? result with
    | some reason => exact ⟨hfree, rfl⟩
    | none =>
      rintro (⟨f, hf, hmark⟩ | hmark)
      · exact hfree f hf hmark
      · exact isNodiscard_false_iff.2 hresult hmark
  cases function with
  | none => exact htype fun f hf => nomatch (h f).2 hf
  | some f =>
    have hresolves : a.Resolves callee f := (h f).1 rfl
    unfold mustUse?
    cases hf : a.nodiscardReason? f with
    | some reason =>
      rw [Option.bind_some, hf]
      exact ⟨hresolves, hf⟩
    | none =>
      rw [Option.bind_some, hf]
      refine htype fun g hg => ?_
      cases (h g).2 hg
      exact isNodiscard_false_iff.2 hf

end Arena

end ExprTree
