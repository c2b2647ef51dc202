import ExprTree.Proofs.StateReports

/-!
# Where volatile variables are reported

A variable of volatile incomplete type is reported where it is used, which only its location wrapper
knows.  The discarded use of a conditional or a comma drops the location wrappers of its branches
before these are reduced, so a variable below them is reported at the input location.

* `Arena.VolatileChoice` — conditionals and commas above such variables in their wrappers.
* `Arena.Dressed`, `Arena.Plain` — choices between variables, with location wrappers and without.
* `Pass.classifyDiscarded_undresses` — a discarded use drops all wrappers.
* `Pass.incompleteVariable_reports` — where the variables of a choice are reported.
-/

namespace ExprTree

/-- Variables, conditionals and commas. -/
def NodeKind.isChoice : NodeKind → Bool
  | .decl .var _ | .cond .. | .comma .. => true
  | _ => false

theorem NodeKind.isChoice_skeleton (k : NodeKind) : k.skeleton.isChoice = k.isChoice := by
  cases k with
  | unary op _ => cases op <;> rfl
  | _ => rfl

/-- A choice that is no conditional and no comma is a variable. -/
theorem NodeKind.exists_variable {k : NodeKind} (hk : k.isChoice = true)
    (hcond : ∀ first second third, k ≠ .cond first second third)
    (hcomma : ∀ lhs rhs, k ≠ .comma lhs rhs) : ∃ payload, k = .decl .var payload := by
  unfold NodeKind.isChoice at hk
  split at hk
  · exact ⟨_, rfl⟩
  · exact absurd rfl (hcond _ _ _)
  · exact absurd rfl (hcomma _ _)
  · cases hk

theorem Node.wrapped?_of_isChoice {n : Node} (hk : n.kind.isChoice = true) : n.wrapped? = none := by
  refine Option.eq_none_iff_forall_ne_some.2 fun operand hw => ?_
  obtain ⟨-, h | h⟩ := Node.wrapped?_eq_some_iff.1 hw <;> rw [h] at hk <;> cases hk

namespace Arena

/-- Conditionals and commas, nested to any depth, above variables of volatile incomplete type, each
in a location wrapper with a known span. -/
inductive VolatileChoice (a : Arena) : NodeId → Prop
  | use {id var type : NodeId} {w n : Node} {payload : Decl} (hw : a.find? id = some w)
    (hwrap : w.wrapped? = some var) (hspan : w.span ≠ .unknown)
    (hn : a.find? var = some n) (hk : n.kind = .decl .var payload) (ht : n.type = some type)
    (hvolatile : a.isVolatile type = .ok true) (hincomplete : a.isComplete type = .ok false) :
    VolatileChoice a id
  | cond {id first third : NodeId} {second : Option NodeId} {n : Node} (hn : a.find? id = some n)
    (hk : n.kind = .cond first second third) (hsecond : ∀ op ∈ second, VolatileChoice a op)
    (hthird : VolatileChoice a third) : VolatileChoice a id
  | comma {id lhs rhs : NodeId} {n : Node} (hn : a.find? id = some n) (hk : n.kind = .comma lhs rhs)
    (hrhs : VolatileChoice a rhs) : VolatileChoice a id

/-! ### Choices -/

variable {a b : Arena} {S T : NodeId → Prop} {id inner op : NodeId} {n m : Node}

/-- The node is a variable, or a conditional or a comma whose branches are in a set. -/
def Forks (a : Arena) (S : NodeId → Prop) (id : NodeId) : Prop :=
  ∃ n, a.find? id = some n ∧ n.kind.isChoice = true ∧ ∀ op ∈ n.kind.branches, S op

/-- A choice between variables. -/
def Plain (a : Arena) (id : NodeId) : Prop := ∃ S, (∀ x, S x → a.Forks S x) ∧ S id

/-- A choice between variables, in location wrappers or not. -/
def Dressed (a : Arena) (id : NodeId) : Prop :=
  ∃ S, (∀ x, S x → ∃ inner, a.stripWrapper x = .ok inner ∧ a.Forks S inner) ∧ S id

theorem Forks.imp (h : a.Forks S id) (hST : ∀ x, S x → T x) : a.Forks T id := by
  obtain ⟨n, hn, hk, hop⟩ := h
  exact ⟨n, hn, hk, fun op hm => hST op (hop op hm)⟩

theorem Forks.stripWrapper (h : a.Forks S id) : a.stripWrapper id = .ok id := by
  obtain ⟨n, hn, hk, -⟩ := h
  rw [Arena.stripWrapper, map_node_of_find? hn, Node.wrapped?_of_isChoice hk]
  rfl

theorem Plain.forks (h : a.Plain id) : a.Forks a.Plain id := by
  obtain ⟨S, hS, hid⟩ := h
  exact (hS id hid).imp fun x hx => ⟨S, hS, hx⟩

theorem Dressed.forks (h : a.Dressed id) :
    ∃ inner, a.stripWrapper id = .ok inner ∧ a.Forks a.Dressed inner := by
  obtain ⟨S, hS, hid⟩ := h
  obtain ⟨inner, hs, hinner⟩ := hS id hid
  exact ⟨inner, hs, hinner.imp fun x hx => ⟨S, hS, hx⟩⟩

theorem plain_variable {payload : Decl} (hn : a.find? id = some n)
    (hk : n.kind = .decl .var payload) : a.Plain id := by
  refine ⟨(· = id), ?_, rfl⟩
  rintro _ rfl
  exact ⟨n, hn, by rw [hk]; rfl, by rw [hk]; exact nofun⟩

theorem Plain.dressed (h : a.Plain id) : a.Dressed id :=
  ⟨a.Plain, fun _ hx => ⟨_, hx.forks.stripWrapper, hx.forks⟩, h⟩

theorem VolatileChoice.dressed (h : a.VolatileChoice id) : a.Dressed id := by
  refine ⟨a.VolatileChoice, fun x hx => ?_, h⟩
  have hfork : ∀ {n : Node}, a.find? x = some n → n.kind.isChoice = true →
      (∀ op ∈ n.kind.branches, a.VolatileChoice op) →
      ∃ inner, a.stripWrapper x = .ok inner ∧ a.Forks a.VolatileChoice inner :=
    fun hn hk hop => ⟨x, Forks.stripWrapper ⟨_, hn, hk, hop⟩, _, hn, hk, hop⟩
  cases hx with
  | use hw hwrap _ hn hk =>
    refine ⟨_, ?_, _, hn, by rw [hk]; rfl, by rw [hk]; exact nofun⟩
    rw [Arena.stripWrapper, map_node_of_find? hw, hwrap]
    rfl
  | cond hn hk hsecond hthird =>
    refine hfork hn (by rw [hk]; rfl) fun op hop => ?_
    rw [hk, NodeKind.branches, List.mem_append, Option.mem_toList, List.mem_singleton] at hop
    rcases hop with hop | rfl
    · exact hsecond op hop
    · exact hthird
  | comma hn hk hrhs =>
    refine hfork hn (by rw [hk]; rfl) fun op hop => ?_
    rw [hk, NodeKind.branches, List.mem_singleton] at hop
    exact hop ▸ hrhs

/-- Choices of the first arena are choices of the second. -/
structure KeepsChoices (a b : Arena) : Prop where
  evolves : a.Evolves b
  plain : ∀ id, a.Plain id → b.Plain id
  dressed : ∀ id, a.Dressed id → b.Dressed id

theorem KeepsChoices.refl (a : Arena) : a.KeepsChoices a := ⟨.refl a, fun _ => id, fun _ => id⟩

theorem KeepsChoices.trans {c : Arena} (h : a.KeepsChoices b) (h' : b.KeepsChoices c) :
    a.KeepsChoices c :=
  ⟨h.evolves.trans h'.evolves, fun id hid => h'.plain id (h.plain id hid),
    fun id hid => h'.dressed id (h.dressed id hid)⟩

/-- It is enough that location wrappers stay, and that choices keep branches that are choices. -/
theorem keepsChoices_of (hev : a.Evolves b)
    (hstrip : ∀ x inner, a.stripWrapper x = .ok inner → b.stripWrapper x = .ok inner)
    (hfork : ∀ S, (∀ x, a.Plain x → S x) → ∀ x, a.Forks S x → b.Forks S x) : a.KeepsChoices b where
  evolves := hev
  plain id h := ⟨a.Plain, fun x hx => hfork a.Plain (fun _ hx => hx) x hx.forks, h⟩
  dressed id h := by
    refine ⟨a.Dressed, fun x hx => ?_, h⟩
    obtain ⟨inner, hs, hinner⟩ := hx.forks
    exact ⟨inner, hstrip x inner hs, hfork a.Dressed (fun _ => Plain.dressed) inner hinner⟩

theorem Marked.keepsChoices (h : a.Marked b) : a.KeepsChoices b := by
  refine keepsChoices_of h.evolves (fun x inner hs => ?_) fun S _ x hx => ?_
  · rw [← h.sameButReads.eq (q := (·.stripWrapper x)) (·.stripWrapper_unread x), hs]
  · obtain ⟨n, hn, hk, hop⟩ := hx
    obtain ⟨m, hm, hmn⟩ := h.find? hn
    have hkind : m.kind = n.kind := (congrArg Node.kind hmn :)
    exact ⟨m, hm, hkind ▸ hk, hkind ▸ hop⟩

theorem keepsChoices_append (hev : a.Evolves (a.append m)) : a.KeepsChoices (a.append m) := by
  refine keepsChoices_of hev (fun x inner hs => ?_) fun S _ x hx => ?_
  · obtain ⟨n, hn, rfl⟩ := map_eq_ok_iff.1 hs
    exact map_node_of_find? (find?_append_of_some (node_eq_ok_iff.1 hn))
  · obtain ⟨n, hn, hk, hop⟩ := hx
    exact ⟨n, find?_append_of_some hn, hk, hop⟩

/-- A conditional or a comma gets branches without location wrappers. -/
theorem keepsChoices_rebuild {k : NodeKind} {f : NodeFlags} (hn : a.find? inner = some n)
    (hkn : n.kind.isChoice = true) (hk : k.skeleton = n.kind.skeleton)
    (hf : a.derivedFlags { n with kind := k } = .ok f) (hplain : ∀ op ∈ k.branches, a.Plain op) :
    let b := a.change inner fun n => { n with kind := k, flags := n.flags.union f }
    a.KeepsChoices b ∧ b.Plain inner := by
  intro b
  have hkind : k.isChoice = true := by
    rw [← NodeKind.isChoice_skeleton, hk, NodeKind.isChoice_skeleton, hkn]
  have hnew : b.find? inner = some { n with kind := k, flags := n.flags.union f } :=
    find?_change_self hn
  have hother : ∀ {x}, x ≠ inner → b.find? x = a.find? x := fun hx => by
    rw [find?_change, if_neg hx]
  have hkeeps : a.KeepsChoices b := by
    refine keepsChoices_of (evolves_change hn (becomes_rebuilt hk hf)) (fun x y hs => ?_)
      fun S hS x hx => ?_
    · by_cases hx : x = inner
      · subst hx
        rw [Arena.stripWrapper, map_node_of_find? hn, Node.wrapped?_of_isChoice hkn] at hs
        rw [Arena.stripWrapper, map_node_of_find? hnew, Node.wrapped?_of_isChoice hkind, hs]
      · rw [Arena.stripWrapper, Arena.node, hother hx]
        exact hs
    · by_cases hx' : x = inner
      · subst hx'
        exact ⟨_, hnew, hkind, fun op hop => hS op (hplain op hop)⟩
      · obtain ⟨m, hm, hkm, hop⟩ := hx
        exact ⟨m, (hother hx').trans hm, hkm, hop⟩
  refine ⟨hkeeps, fun x => b.Plain x ∨ x = inner, fun x hx => ?_, .inr rfl⟩
  rcases hx with hx | rfl
  · exact hx.forks.imp fun _ => .inl
  · exact ⟨_, hnew, hkind, fun op hop => .inl (hkeeps.plain op (hplain op hop))⟩

end Arena

namespace Pass

open ExprTree.Action HasContext

variable {cx : Context} {expr inner : NodeId} {site : DiscardSite}

/-! ### Wrappers are dropped -/

/-- What is left of an expression is its node without location wrappers, from top to bottom. -/
def Undresses (a : Arena) (expr r : NodeId) (b : Arena) : Prop :=
  a.KeepsChoices b ∧ (r ≠ .error → a.stripWrapper expr = .ok r ∧ b.Plain r)

/-- A conditional or a comma is rebuilt from branches without location wrappers. -/
theorem rebuild_undresses {a : Arena} {n : Node} {k : NodeKind} {t : Context}
    (hn : a.find? inner = some n) (hkn : n.kind.isChoice = true)
    (hk : n.kind.Rewritten (fun _ _ => True) k) (ht : a.KeepsChoices t.arena)
    (hplain : ∀ op ∈ k.branches, t.arena.Plain op) :
    wlp (rebuild inner k) (fun _ u => a.KeepsChoices u.arena ∧ u.arena.Plain inner) t := by
  refine wlp_rebuild fun m f hm hf => ?_
  obtain ⟨m', hm', hnm⟩ := ht.evolves.node inner n hn
  cases hm.symm.trans hm'
  have hkm : m.kind.isChoice = true := by
    rw [← NodeKind.isChoice_skeleton, hnm.skeleton_eq, NodeKind.isChoice_skeleton, hkn]
  obtain ⟨hkeeps, hinner⟩ := Arena.keepsChoices_rebuild hm hkm
    (hk.skeleton_eq.trans hnm.skeleton_eq.symm) hf hplain
  exact ⟨ht.trans hkeeps, hinner⟩

section Discarded

variable {self : NodeId → Pass NodeId}
  (hself : ∀ x cx, cx.arena.Dressed x →
    wlp (self x) (fun r t => Undresses cx.arena x r t.arena) cx)
include hself

theorem mapM_undresses {o : Option NodeId} (h : ∀ op ∈ o, cx.arena.Dressed op) :
    wlp (o.mapM self) (fun o' t => cx.arena.KeepsChoices t.arena ∧ (o' ≠ some .error →
      (∀ op ∈ o', t.arena.Plain op) ∧ Option.Rel (fun _ _ => True) o o')) cx := by
  rw [wlp_mapM]
  cases o with
  | none => exact ⟨.refl _, fun _ => ⟨nofun, .none⟩⟩
  | some op =>
    refine (hself op cx (h op rfl)).mono ?_
    rintro r t ⟨ht, hr⟩
    refine ⟨ht, fun hne => ⟨?_, .some trivial⟩⟩
    rintro _ ⟨⟩
    exact (hr fun he => hne (he ▸ rfl)).2

theorem classifyDiscardedNode_undresses (cx : Context)
    (hinner : cx.arena.Forks cx.arena.Dressed inner) :
    wlp (classifyDiscardedNode self inner) (fun r t => cx.arena.KeepsChoices t.arena ∧
      (r ≠ .error → r = inner ∧ t.arena.Plain r)) cx := by
  obtain ⟨n, hn, hk, hop⟩ := hinner
  refine wlp_classifyDiscardedNode fun m hm => ?_
  cases hn.symm.trans hm
  refine
    { cond := fun first second third hkind => ?_
      comma := fun lhs rhs hkind => ?_
      use := fun hcond hcomma => ?_
      keep := fun hcond hcomma => ?_ }
  · rw [hkind] at hop
    refine (hself third cx (hop third (by simp [NodeKind.branches]))).mono ?_
    rintro r t ⟨ht, hr⟩
    refine (mapM_undresses hself fun op hsecond =>
      ht.dressed op (hop op (by simp [NodeKind.branches, Option.mem_def.1 hsecond]))).mono ?_
    rintro o u ⟨hu, ho⟩
    refine ⟨fun _ => ⟨ht.trans hu, fun h => absurd rfl h⟩, fun hr' ho' => ?_⟩
    obtain ⟨hplain, hrel⟩ := ho ho'
    refine (rebuild_undresses hn hk (hkind ▸ .cond hrel trivial) (ht.trans hu) fun op hop => ?_).mono
      fun _ _ hv => ⟨hv.1, fun _ => ⟨rfl, hv.2⟩⟩
    rw [NodeKind.branches, List.mem_append, Option.mem_toList, List.mem_singleton] at hop
    rcases hop with hop | rfl
    · exact hplain op hop
    · exact hu.plain _ (hr hr').2
  · rw [hkind] at hop
    refine (hself rhs cx (hop rhs (by simp [NodeKind.branches]))).mono ?_
    rintro r t ⟨ht, hr⟩
    refine ⟨fun _ => ⟨ht, fun h => absurd rfl h⟩, fun hr' => ?_⟩
    refine (rebuild_undresses hn hk (hkind ▸ .comma trivial) ht fun op hop => ?_).mono
      fun _ _ hv => ⟨hv.1, fun _ => ⟨rfl, hv.2⟩⟩
    rw [NodeKind.branches, List.mem_singleton] at hop
    exact hop ▸ (hr hr').2
  · obtain ⟨payload, hvar⟩ := NodeKind.exists_variable hk hcond hcomma
    refine (discardedRvalueUse_rests hn (Arena.rests_decl hvar)).mono ?_
    rintro r t ⟨hr, ht⟩
    refine ⟨ht.keepsChoices, fun hne => ?_⟩
    obtain rfl := hr.resolve_right hne
    obtain ⟨m, hm, hmn⟩ := ht.find? hn
    have hkind : m.kind = n.kind := (congrArg Node.kind hmn :)
    exact ⟨rfl, Arena.plain_variable hm (hkind.trans hvar)⟩
  · obtain ⟨payload, hvar⟩ := NodeKind.exists_variable hk hcond hcomma
    exact ⟨.refl _, fun _ => ⟨rfl, Arena.plain_variable hn hvar⟩⟩

end Discarded

theorem classifyDiscarded_undresses (h : cx.arena.Dressed expr) :
    wlp (classifyDiscarded expr) (fun r t => Undresses cx.arena expr r t.arena) cx := by
  refine wlp_recursively_of (P := fun cx expr => cx.arena.Dressed expr)
    (Q := fun cx expr r t => Undresses cx.arena expr r t.arena) (fun self hself expr cx h => ?_) h
  obtain ⟨inner, hs, hinner⟩ := h.forks
  unfold classifyDiscardedStep
  rw [wlp_bind, wlp_query, hs]
  rintro _ ⟨⟩
  rw [wlp_bind, wlp_query]
  intro span _
  refine (wlp_nested (Q := fun r b => cx.arena.KeepsChoices b ∧ (r ≠ .error → r = inner ∧ b.Plain r))
    (fun level => classifyDiscardedNode_undresses hself { cx with nesting := level } hinner)
    ⟨.refl _, fun h => absurd rfl h⟩).mono ?_
  rintro r t ⟨ht, hr⟩
  refine ⟨ht, fun hne => ?_⟩
  obtain ⟨rfl, hplain⟩ := hr hne
  exact ⟨hs, hplain⟩

/-! ### Reports -/

/-- A report of a variable of volatile incomplete type has its primary span at `loc`. -/
def VariablesAt (loc : Span) (d : Diagnostic) : Prop :=
  d.code = .incompleteVariable → d.primarySpan? = some loc

/-- Nothing but a variable is reported as one. -/
theorem reportsOf_choice {r : NodeId} {n : Node} {loc loc' : Span} (hk : n.kind.isChoice = true)
    (hvariable : ∀ payload, n.kind = .decl .var payload → loc' = loc) :
    ReportsOf (VariablesAt loc) r n loc' cx where
  deref pointer type site hd := by
    rw [hd] at hk
    cases hk
  var payload type site hv := by
    obtain rfl := hvariable payload hv
    have hown : ∀ message, VariablesAt loc' (warning .incompleteVariable loc' message) :=
      fun _ _ => rfl
    exact fun _ => logs_warnVariable hown cx

/-- A choice between variables without location wrappers, under an input location. -/
def PlainAt (loc : Span) (cx : Context) (expr : NodeId) : Prop :=
  cx.arena.Plain expr ∧ cx.inputLocation = loc

theorem persists_of_keepsChoices {loc : Span} {t : Context} (h : cx.arena.KeepsChoices t.arena)
    (hinput : t.inputLocation = cx.inputLocation) : Persists (PlainAt loc) cx t :=
  fun x hx => ⟨h.plain x hx.1, hinput.trans hx.2⟩

/-- The discarded use of a choice, whose location is the input location if it is a variable. -/
theorem discards_choice {loc loc' : Span} (h : cx.arena.Dressed expr) (hinput : cx.inputLocation = loc)
    (hvariable : ∀ inner n payload, cx.arena.stripWrapper expr = .ok inner →
      cx.arena.find? inner = some n → n.kind = .decl .var payload → loc' = loc) :
    wlp (classifyDiscarded expr) (Discards (VariablesAt loc) (PlainAt loc) cx loc') cx := by
  refine ((classifyDiscarded_undresses h).and
    (keepsInputLocation_twins.classifyDiscarded expr cx)).mono ?_
  rintro r t ⟨⟨hkeeps, hr⟩, hinput'⟩
  refine ⟨persists_of_keepsChoices hkeeps hinput', fun hne => ⟨(hr hne).2, hinput'.trans hinput⟩,
    fun hne u n hu hmark _ hn => ?_⟩
  obtain ⟨m, hm, hk, -⟩ := hu.1.forks
  cases hn.symm.trans hm
  refine reportsOf_choice hk fun payload hvar => ?_
  -- what is a variable in the end was one before
  obtain ⟨inner, hs, m, hm, -⟩ := h.forks
  cases hs.symm.trans (hr hne).1
  obtain ⟨n', hn', hmn⟩ := (hkeeps.evolves.trans hmark.evolves).node r m hm
  cases hn.symm.trans hn'
  have hkind : n.kind = m.kind := by
    rw [hvar]
    exact (NodeKind.eq_of_skeleton (hmn.skeleton_eq.symm.trans (by rw [hvar])) (by rfl)).symm
  exact hvariable r m payload hs hm (hkind ▸ hvar)

theorem guards_plain (loc : Span) : Guards (VariablesAt loc) (PlainAt loc) where
  deep _ _ := nofun
  ignored _ _ := logs_warnIgnored fun d hd hcode => by cases hd.symm.trans hcode
  discard {cx expr loc'} hexpr hloc := by
    refine discards_choice hexpr.1.dressed hexpr.2 fun inner n payload hs hn hk => ?_
    cases hexpr.1.forks.stripWrapper.symm.trans hs
    -- the span of a declaration is not where it is used
    rw [Arena.locationOf, Arena.map_node_of_find? hn, hk, hexpr.2] at hloc
    exact (Except.ok.inj hloc).symm
  branches {cx expr n} hexpr hn op hop := by
    obtain ⟨m, hm, -, hbranches⟩ := hexpr.1.forks
    cases hn.symm.trans hm
    exact ⟨hbranches op hop, hexpr.2⟩
  marked hmark hinput := persists_of_keepsChoices hmark.keepsChoices hinput
  build other _ span hk _ := by
    rw [wlp_edit]
    refine Arena.wlp_buildLike fun m hm => Arena.wlp_build fun flags _ => ?_
    have hev := Arena.evolves_append (m := ⟨_, m.type, flags, span⟩) hk
      fun _ ht => .inr ⟨other, m, hm, ht⟩
    exact persists_of_keepsChoices (Arena.keepsChoices_append hev) rfl

/-- A variable in a location wrapper is reported at the location of the wrapper. -/
theorem logsAt_wrapped {inner : NodeId} {n : Node} {payload : Decl} {loc : Span}
    (hs : cx.arena.stripWrapper expr = .ok inner) (hn : cx.arena.find? inner = some n)
    (hk : n.kind = .decl .var payload) (hloc : cx.arena.locationOf expr cx.inputLocation = .ok loc) :
    LogsAt (VariablesAt loc) (toVoid expr site) cx := by
  refine logsAt_toVoid_rests (fun _ _ => nofun)
    (fun _ _ => logs_warnIgnored fun d hd hcode => by cases hd.symm.trans hcode) hs hn
    (Arena.rests_decl hk) hloc fun u m _ _ hmn => ?_
  have hkind : m.kind = .decl .var payload := (congrArg Node.kind hmn :).trans hk
  exact reportsOf_choice (by rw [hkind]; rfl) fun _ _ => rfl

/-- A variable of volatile incomplete type in its location wrapper is reported at the span of the
wrapper.  Below conditionals and commas, nested to any depth, it is reported at the input location. -/
theorem incompleteVariable_reports (cx : Context) {expr : NodeId} {n : Node}
    (h : cx.arena.VolatileChoice expr) (hn : cx.arena.find? expr = some n) (site : DiscardSite) :
    ∀ d ∈ (toVoid expr site).added cx, d.code = .incompleteVariable →
      d.primarySpan? = some (if n.isWrapper then n.span else cx.inputLocation) := by
  suffices hlogs : LogsAt (VariablesAt (if n.isWrapper then n.span else cx.inputLocation))
      (toVoid expr site) cx from fun d hd hcode => hlogs.added d hd hcode
  -- the branches of a conditional or a comma have lost their wrappers when they are reduced
  have hbare : n.kind.isChoice = true → (∀ payload, n.kind ≠ .decl .var payload) →
      LogsAt (VariablesAt (if n.isWrapper then n.span else cx.inputLocation)) (toVoid expr site) cx := by
    intro hk hvariable
    rw [Node.isWrapper, Node.wrapped?_of_isChoice hk]
    refine (guards_plain cx.inputLocation).logsAt_toVoid_of fun loc level _ => ?_
    have hdiscards : wlp (classifyDiscarded expr)
        (Discards (VariablesAt cx.inputLocation) (PlainAt cx.inputLocation)
          { cx with nesting := level } loc) { cx with nesting := level } := by
      refine discards_choice h.dressed rfl fun inner m payload hs hm hvar => ?_
      rw [Arena.stripWrapper, Arena.map_node_of_find? hn, Node.wrapped?_of_isChoice hk] at hs
      cases hs
      cases hn.symm.trans hm
      exact absurd hvar (hvariable payload)
    exact hdiscards.mono fun r t hr => ⟨hr.persists, hr.left, hr.reports⟩
  cases h with
  | use hw hwrap hspan hvar hk =>
    cases hn.symm.trans hw
    have hs : cx.arena.stripWrapper expr = .ok (n.wrapped?.getD expr) := Arena.map_node_of_find? hn
    rw [hwrap] at hs
    refine logsAt_wrapped hs hvar hk ?_
    rw [Arena.locationOf, Arena.map_node_of_find? hn, Node.isWrapper, hwrap]
    obtain ⟨-, hkind⟩ := Node.wrapped?_eq_some_iff.1 hwrap
    have hexpr : n.kind.isExpression = true := by
      rcases hkind with hkind | hkind <;> rw [hkind] <;> rfl
    rw [if_pos hexpr, Span.orElse_of_ne hspan]
    rfl
  | cond hm hk =>
    cases hn.symm.trans hm
    exact hbare (by rw [hk]; rfl) fun _ hvar => by cases hk.symm.trans hvar
  | comma hm hk =>
    cases hn.symm.trans hm
    exact hbare (by rw [hk]; rfl) fun _ hvar => by cases hk.symm.trans hvar

end Pass

/-- The arena of `c ? v : v`, its last node, where `v` is a variable of volatile incomplete type in
a location wrapper, the node before `c`. -/
def Arena.wrappedVariables : Arena :=
  { Arena.initial with
    nodes := Arena.initial.nodes ++ #[⟨.recordType none none none, none, .single .volatile, .unknown⟩,
      ⟨.decl .var (.named ⟨1⟩), some ⟨6⟩, .empty, ⟨1, 2⟩⟩,
      ⟨.unary .viewConvert ⟨7⟩, some ⟨6⟩, .single .locationWrapper, ⟨14, 15⟩⟩,
      ⟨.decl .var (.named ⟨2⟩), some .boolType, .empty, ⟨3, 4⟩⟩,
      ⟨.cond ⟨9⟩ (some ⟨8⟩) ⟨8⟩, some ⟨6⟩, .empty, ⟨10, 19⟩⟩] }

namespace Arena

theorem volatileChoice_wrapped : wrappedVariables.VolatileChoice ⟨8⟩ :=
  .use rfl (show _ = some ⟨7⟩ by decide +kernel) (by decide) rfl rfl rfl (by decide +kernel)
    (by decide +kernel)

theorem volatileChoice_cond : wrappedVariables.VolatileChoice ⟨10⟩ := by
  refine .cond rfl rfl ?_ volatileChoice_wrapped
  rintro _ ⟨⟩
  exact volatileChoice_wrapped

end Arena

namespace Pass

open ExprTree.Action HasContext

/-- The variable alone is reported at its wrapper, and both branches of the conditional are reported
at the input location. -/
theorem incompleteVariable_reports_branches :
    let cx := { Context.ofArena .wrappedVariables .standard with inputLocation := ⟨30, 31⟩ }
    (∀ d ∈ (toVoid ⟨8⟩ .statement).added cx, d.code = .incompleteVariable →
        d.primarySpan? = some ⟨14, 15⟩) ∧
      (∀ d ∈ (toVoid ⟨10⟩ .statement).added cx, d.code = .incompleteVariable →
        d.primarySpan? = some ⟨30, 31⟩) := by
  intro cx
  have hwrapped := incompleteVariable_reports cx Arena.volatileChoice_wrapped rfl .statement
  have hcond := incompleteVariable_reports cx Arena.volatileChoice_cond rfl .statement
  exact ⟨fun d hd hcode => (hwrapped d hd hcode).trans (by decide +kernel),
    fun d hd hcode => (hcond d hd hcode).trans (by decide +kernel)⟩

/-- Both branches are reported, and neither at its wrapper. -/
theorem not_incompleteVariable_at_use :
    let cx := { Context.ofArena .wrappedVariables .standard with inputLocation := ⟨30, 31⟩ }
    cx.arena.VolatileChoice ⟨10⟩ ∧ cx.arena.spanOf ⟨8⟩ = .ok ⟨14, 15⟩ ∧
      ((toVoid ⟨10⟩ .statement).added cx).map Diagnostic.key =
        [(.incompleteVariable, some ⟨30, 31⟩), (.incompleteVariable, some ⟨30, 31⟩)] := by
  intro cx
  exact ⟨Arena.volatileChoice_cond, by decide +kernel, by decide +kernel⟩

end Pass

end ExprTree
