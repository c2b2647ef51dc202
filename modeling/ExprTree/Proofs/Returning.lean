import ExprTree.Proofs.Balance
import ExprTree.Proofs.Closedness
import ExprTree.Proofs.Intact
import ExprTree.Proofs.Questions

/-!
# Uses return

In an arena in which no handle dangles and every text ends, no use of a node ends in a fault.  What
runs satisfy if they return is known from readings and from balance; so it is left to show that a
level of recursion returns where its calls do: every question about a node has an answer, and what
is built is built from nodes that are there.

* `Pass.faultless_recursively` — the rule for recursion.
* `Pass.Proceeds`, `Pass.Arrives`, `Pass.Calls` — contexts in the course of a pass, and calls.
* `Pass.faultless_rebuild`, `Arena.faultless_build` — changes of the arena.
* `Pass.faultless_recordRead`, `Pass.faultless_dereference` — reads.
* `Pass.faultless_classifyUse`, `Pass.faultless_classifyDiscarded` — uses.
-/

namespace ExprTree

/-! ### Changes of an arena -/

namespace Arena

open ExprTree.Action

variable {a : Arena} {id : NodeId} {n : Node} {kind : NodeKind} {type : Option NodeId}

theorem returns_update {f : Node → Node} {Q : Unit → Arena → Prop} (hn : a.find? id = some n)
    (hQ : Q () (a.change id f)) : Returns (update id f) Q a :=
  ⟨(), a.change id f, if_pos (isSome_find?_iff.1 (Option.isSome_of_mem hn)), hQ⟩

theorem faultless_deriveFlags {f : NodeFlags} (hn : a.find? id = some n)
    (hf : a.derivedFlags n = .ok f) : Faultless (deriveFlags id) a := by
  exact returns_ask (bind_eq_ok_iff.2 ⟨n, node_eq_ok_iff.2 hn, hf⟩) (returns_update hn trivial)

/-- A node can be built from nodes that are there. -/
theorem faultless_build {span : Span} (hholds : a.Holds kind)
    (htype : ∀ t, type = some t → (a.find? t).isSome = true) :
    Faultless (build kind type span) a := by
  have hsome : ∀ id, (a.find? id).isSome = true →
      ((a.append ⟨kind, type, .empty, span⟩).find? id).isSome = true :=
    fun _ => find?_isSome_append
  obtain ⟨f, hf⟩ := derivedFlags_isOk (n := ⟨kind, type, .empty, span⟩)
    (hholds.mono hsome rfl).inRange fun t ht => hsome t (htype t ht)
  refine returns_bind ⟨_, _, rfl, returns_bind ?_⟩
  exact (faultless_deriveFlags (find?_append_new _ _) hf).mono fun _ _ _ => returns_pure trivial

theorem faultless_buildLike {other : NodeId} {span : Span} (h : a.Closed) (hholds : a.Holds kind)
    (hother : (a.find? other).isSome = true) : Faultless (buildLike other kind span) a := by
  obtain ⟨m, hm⟩ := Option.isSome_iff_exists.1 hother
  exact returns_ask (map_node_of_find? hm) (faultless_build hholds (h.type other m hm))

/-- Where no handle dangles, all nodes are intact. -/
theorem Closed.intact (h : a.Closed) (hid : (a.find? id).isSome = true) : a.Intact id :=
  enclosed_of_reads (S := fun id => (a.find? id).isSome = true)
    (fun id _ n hn op hop => (h.holds id n hn).nodes op (Node.mem_nodes_of_readOperands hop)) hid

end Arena

namespace Pass

open ExprTree.Action

variable {α β : Type} {I J : Arena → Prop} {cx t u : Context} {expr r : NodeId} {n : Node}
  {kind : NodeKind}

/-! ### Rules -/

/-- A question about a field of a node. -/
theorem returns_field {g : Node → α} {f : α → Pass β} {Q : β → Context → Prop}
    (hn : cx.arena.find? expr = some n) (h : Returns (f (g n)) Q cx) :
    Returns (query (fun a => (a.node expr).map g) >>= f) Q cx :=
  returns_bind (returns_query (Arena.map_node_of_find? hn) h)

theorem returns_location {f : Span → Pass β} {Q : β → Context → Prop}
    (hexpr : (cx.arena.find? expr).isSome = true) (h : ∀ loc, Returns (f loc) Q cx) :
    Returns (location expr >>= f) Q cx := by
  obtain ⟨n, hn⟩ := Option.isSome_iff_exists.1 hexpr
  exact returns_ask (Arena.map_node_of_find? hn) (h _)

theorem faultless_nested {span : Span} {overflow : α} {body : Pass α} (hbody : Balanced body)
    (h : ∀ inner, cx.nesting.enter = .ok inner → Faultless body { cx with nesting := inner }) :
    Faultless (nested span overflow body) cx :=
  returns_nested (fun inner hinner => ((h inner hinner).of_wlp (hbody.restores _)).mono
    fun _ _ ht => ⟨ht.nesting_eq, trivial⟩) fun _ => trivial

/-- A recursive pass returns when each of its levels does, whose calls are made a level deeper.  A
call that returns satisfies what is known of all runs that do. -/
theorem faultless_recursively {step : (α → Pass β) → α → Pass β} {P : Context → α → Prop}
    {Q : Context → α → β → Context → Prop}
    (hbalanced : ∀ self, (∀ x, Balanced (self x)) → ∀ x, Balanced (step self x))
    (hwlp : ∀ self, (∀ x cx, wlp (self x) (Q cx x) cx) → ∀ x cx, wlp (step self x) (Q cx x) cx)
    (h : ∀ self, (∀ x, Balanced (self x)) → (∀ x cx, wlp (self x) (Q cx x) cx) → ∀ cx x, P cx x →
      (∀ inner, cx.nesting.enter = .ok inner → ∀ y t, t.nesting = inner → P t y →
        Returns (self y) (fun r u => u.nesting = t.nesting ∧ Q t y r u) t) →
      Faultless (step self x) cx)
    {x : α} (hP : P cx x) : Faultless (recursively step x) cx := by
  have level : ∀ room, (∀ x, Balanced (unroll step room x)) ∧
      (∀ x cx, wlp (unroll step room x) (Q cx x) cx) ∧
      ∀ cx x, cx.nesting.room ≤ room → P cx x → Faultless (unroll step room x) cx := by
    intro room
    induction room with
    | zero =>
      have hthrow : Balanced (throw .endless : Pass β) := balanced_ask fun _ => .error .endless
      refine ⟨hbalanced _ fun _ => hthrow, hwlp _ fun _ _ => wlp_throw, fun cx x hroom hP => ?_⟩
      refine h _ (fun _ => hthrow) (fun _ _ => wlp_throw) cx x hP fun inner hinner => ?_
      have := Nesting.room_of_enter hinner
      omega
    | succ room ih =>
      obtain ⟨hbal, hpart, htotal⟩ := ih
      refine ⟨hbalanced _ hbal, hwlp _ hpart, fun cx x hroom hP => ?_⟩
      refine h _ hbal hpart cx x hP fun inner hinner y t ht hPt => ?_
      have hreturns : Faultless (unroll step room y) t := htotal t y (by
        have := Nesting.room_of_enter hinner
        rw [ht]
        omega) hPt
      exact (hreturns.of_wlp (((hbal y).restores t).and (hpart y t))).mono
        fun _ _ hu => ⟨hu.1.nesting_eq, hu.2⟩
  exact (level cx.nesting.room).2.2 cx x (Nat.le_refl _) hP

/-! ### Calls -/

/-- In the course of a pass the arena has evolved and has a property again, and the level of
recursion is the same. -/
structure Proceeds (I : Arena → Prop) (cx t : Context) : Prop where
  evolves : cx.arena.Evolves t.arena
  keeps : I t.arena
  nesting_eq : t.nesting = cx.nesting

/-- The answer is the error node, or a node that is there. -/
def Arrives (I : Arena → Prop) (cx : Context) (r : NodeId) (t : Context) : Prop :=
  Proceeds I cx t ∧ (r ≠ .error → (t.arena.find? r).isSome = true)

/-- Calls from a level return, for every node of an arena with a property. -/
def Calls (I : Arena → Prop) (level : Nesting) (p : NodeId → Pass NodeId) : Prop :=
  ∀ op t, t.nesting = level → I t.arena → (t.arena.find? op).isSome = true →
    Returns (p op) (Arrives I t) t

namespace Proceeds

protected theorem refl (h : I cx.arena) : Proceeds I cx cx := ⟨.refl _, h, rfl⟩

theorem trans (h : Proceeds I cx t) (h' : Proceeds I t u) : Proceeds I cx u :=
  ⟨h.evolves.trans h'.evolves, h'.keeps, h'.nesting_eq.trans h.nesting_eq⟩

/-- Operands are exchanged for others that are there. -/
theorem holds (ht : Proceeds I cx t) (hcx : cx.arena.Closed) (hn : cx.arena.find? expr = some n)
    (hk : n.kind.Rewritten (fun _ r => (t.arena.find? r).isSome = true) kind) :
    t.arena.Holds kind :=
  ((hcx.holds expr n hn).mono (fun _ => ht.evolves.isSome) ht.evolves.lists_eq).rewritten
    hk fun _ _ _ h => h

end Proceeds

/-- An answer where an annotation was right, and is right again. -/
theorem arrives_of_reaches {X : Type} {R : Reading X} {x : X} (hnesting : t.nesting = cx.nesting)
    (hexpr : (cx.arena.find? expr).isSome = true)
    (h : R.Reaches cx.arena x t.arena fun _ => r ≠ .error → t.arena.Present expr r) :
    Arrives (fun a => ∃ x, R.Sound a x) cx r t := by
  obtain ⟨y, hy, hl, hr⟩ := h
  exact ⟨⟨hl.1, ⟨y, hy⟩, hnesting⟩, fun hne => (hr hne).isSome (hl.1.isSome hexpr)⟩

theorem Arrives.imp (h : Arrives I cx r t) (hIJ : ∀ a, I a → J a) : Arrives J cx r t :=
  ⟨⟨h.1.evolves, hIJ _ h.1.keeps, h.1.nesting_eq⟩, h.2⟩

namespace Calls

variable {p : NodeId → Pass NodeId} (hp : Calls I cx.nesting p)
include hp

/-- A call in the course of a pass. -/
theorem after {op : NodeId} (ht : Proceeds I cx t) (hop : (cx.arena.find? op).isSome = true) :
    Returns (p op) (Arrives I t) t :=
  hp op t ht.nesting_eq ht.keeps (ht.evolves.isSome hop)

/-- A call for an operand that may be missing. -/
theorem mapM {o : Option NodeId} (ht : Proceeds I cx t)
    (ho : ∀ op, o = some op → (cx.arena.find? op).isSome = true) :
    Returns (o.mapM p) (fun o' u => Proceeds I t u ∧ (o' ≠ some .error →
      Option.Rel (fun _ r => (u.arena.find? r).isSome = true) o o')) t := by
  refine returns_mapM (fun hnone => ⟨.refl ht.keeps, fun _ => ?_⟩) fun op hsome => ?_
  · rw [hnone]
    exact .none
  · refine (hp.after ht (ho op hsome)).mono ?_
    rintro r u ⟨hu, hr⟩
    refine ⟨hu, fun hne => ?_⟩
    rw [hsome]
    exact .some (hr (by simpa using hne))

end Calls

/-- The same nodes are there in an arena that has evolved. -/
theorem rel_isSome {a b : Arena} {o o' : Option NodeId} (hab : a.Evolves b)
    (h : Option.Rel (fun _ r => (a.find? r).isSome = true) o o') :
    Option.Rel (fun _ r => (b.find? r).isSome = true) o o' :=
  Reading.rel_mono (fun _ _ => hab.isSome) h

/-! ### Changes -/

/-- A node can be given every kind whose operands are there. -/
theorem faultless_rebuild (h : cx.arena.Closed) (hexpr : (cx.arena.find? expr).isSome = true)
    (hholds : cx.arena.Holds kind) : Faultless (rebuild expr kind) cx := by
  obtain ⟨n, hn⟩ := Option.isSome_iff_exists.1 hexpr
  have hfind := Arena.find?_change_self (f := fun n => { n with kind }) hn
  have hsome : ∀ id, (cx.arena.find? id).isSome = true →
      ((cx.arena.change expr fun n => { n with kind }).find? id).isSome = true :=
    fun _ => Arena.find?_isSome_change
  obtain ⟨f, hf⟩ := Arena.derivedFlags_isOk (n := { n with kind }) (hholds.mono hsome rfl).inRange
    fun type htype => hsome type (h.type expr n hn type htype)
  exact returns_bind (returns_edit (Arena.returns_update hn
    (returns_edit ((Arena.faultless_deriveFlags hfind hf).mono fun _ _ _ => trivial))))

theorem faultless_replaceKind (h : cx.arena.Closed) (hexpr : (cx.arena.find? expr).isSome = true)
    (hholds : cx.arena.Holds kind) : Faultless (replaceKind expr kind) cx := by
  obtain ⟨n, hn⟩ := Option.isSome_iff_exists.1 hexpr
  refine returns_field hn ?_
  split
  · exact returns_bind ((faultless_rebuild h hexpr hholds).mono fun _ _ _ => returns_pure trivial)
  · exact returns_pure trivial

/-! ### Reads -/

theorem faultless_recordReadStep {self : NodeId → Pass Unit}
    (hself : ∀ x, Balanced (self x)) (h : cx.arena.Intact expr)
    (hcalls : ∀ inner, cx.nesting.enter = .ok inner → ∀ op t, t.nesting = inner →
      t.arena.Intact op →
        Returns (self op) (fun _ u => u.nesting = t.nesting ∧ t.arena.Marked u.arena) t) :
    Faultless (recordReadStep self expr) cx := by
  obtain ⟨n, hn⟩ := Option.isSome_iff_exists.1 h.mem
  refine returns_field hn (faultless_nested ?_ fun inner hinner => ?_)
  · refine (balanced_ask _).bind fun n => ?_
    split
    · exact balanced_edit _
    · exact balanced_law.forM hself _
  refine returns_bind (returns_query (Arena.node_eq_ok_iff.2 hn) ?_)
  split
  · exact returns_edit (Arena.returns_update hn trivial)
  refine (returns_forM (I := fun t => t.nesting = inner ∧ cx.arena.Marked t.arena)
    (fun op hop t ⟨ht, hmarked⟩ => ?_) ⟨rfl, .refl⟩).mono fun _ _ _ => trivial
  refine (hcalls inner hinner op t ht (hmarked.intact (h.operand hn hop))).mono
    fun _ u ⟨hu, hmarked'⟩ => ?_
  exact ⟨hu.trans ht, hmarked.trans hmarked'⟩

/-- A read returns where no handle dangles that is read along. -/
theorem faultless_recordRead (h : cx.arena.Intact expr) : Faultless (recordRead expr) cx :=
  faultless_recursively (Q := fun cx _ _ t => cx.arena.Marked t.arena)
    (P := fun cx expr => cx.arena.Intact expr) (fun _ => balanced_law.recordReadStep)
    (fun _ => recordReadStep_marks)
    (fun _ hself _ _ _ => faultless_recordReadStep hself) h

/-- A read in the course of a pass. -/
theorem returns_read {asked : Bool} (hI : ∀ {a b : Arena}, I a → a.Marked b → I b)
    (hclosed : cx.arena.Closed) (h : I cx.arena) (hexpr : (cx.arena.find? expr).isSome = true) :
    Returns (when asked (recordRead expr)) (fun _ t => Proceeds I cx t) cx := by
  refine returns_when (((faultless_recordRead (hclosed.intact hexpr)).of_wlp (recordRead_marks.and
    ((balanced_law.recordRead expr).restores cx))).mono ?_) (.refl h)
  rintro _ t ⟨hmarked, hdepth⟩
  exact ⟨(Reading.keeps_of_marked Reading.closed_lawful hmarked () hclosed).2.1, hI h hmarked,
    hdepth.nesting_eq⟩

/-- A value of reference type is dereferenced by a new node, any other is the answer. -/
theorem faultless_dereference {value : NodeId} (h : cx.arena.Closed)
    (hvalue : (cx.arena.find? value).isSome = true) : Faultless (dereference value) cx := by
  obtain ⟨n, hn⟩ := Option.isSome_iff_exists.1 hvalue
  refine returns_field hn ?_
  cases ht : n.type with
  | none => exact returns_pure trivial
  | some type =>
    obtain ⟨m, hm⟩ := Option.isSome_iff_exists.1 (h.type value n hn type ht)
    refine returns_field hm ?_
    cases hk : m.kind with
    | referenceType target =>
      have htarget : (cx.arena.find? target).isSome = true :=
        (h.holds type m hm).nodes target (by rw [hk]; exact List.mem_singleton_self _)
      refine returns_bind (((faultless_recordRead (h.intact hvalue)).of_wlp recordRead_marks).mono
        fun _ t ht => ?_)
      have hev := (Reading.keeps_of_marked Reading.closed_lawful ht () h).2.1
      obtain ⟨n', hn', -⟩ := hev.node value n hn
      have hholds : t.arena.Holds (.unary .deref value) := by
        refine ⟨fun x hx => ?_, nofun⟩
        cases List.mem_singleton.1 hx
        exact Option.isSome_of_mem hn'
      refine returns_field hn' (returns_edit ((Arena.faultless_build hholds ?_).mono
        fun _ _ _ => trivial))
      rintro _ ⟨⟩
      exact hev.isSome htarget
    | _ => exact returns_pure trivial

/-! ### Uses -/

theorem calls_of_places {level : Nesting} {p : NodeId → Pass NodeId}
    (hp : ∀ op t, t.nesting = level → t.arena.Spellable → (t.arena.find? op).isSome = true →
      Returns (p op) (fun r u => u.nesting = t.nesting ∧
        ∀ text, Reading.spelled.Sound t.arena text → Reading.spelled.Places t text op r u) t) :
    Calls Arena.Spellable level p := by
  intro op t ht h hop
  obtain ⟨text, htext⟩ := h.exists_spelled
  refine (hp op t ht h hop).mono fun r u ⟨hu, hr⟩ => ?_
  exact (arrives_of_reaches hu hop (hr text htext)).imp fun _ ⟨_, h⟩ =>
    Reading.spellable_of_spelled h

section Uses

variable {self : NodeId × UseMode → Pass NodeId} {mode : UseMode}

/-- The use of an expression whose operand in the place of its value is used first. -/
theorem faultless_exchanged {op : NodeId} {f : NodeId → NodeKind} {p : NodeId → Pass NodeId}
    (hp : Calls Arena.Spellable cx.nesting p) (hcx : cx.arena.Closed)
    (hn : cx.arena.find? expr = some n) (ht : Proceeds Arena.Spellable cx t)
    (hop : (cx.arena.find? op).isSome = true)
    (hk : ∀ (r : NodeId) (u : Context), t.arena.Evolves u.arena →
      (u.arena.find? r).isSome = true →
        n.kind.Rewritten (fun _ r => (u.arena.find? r).isSome = true) (f r)) :
    Faultless (do
      let r ← p op
      if r = .error then return .error
      replaceKind expr (f r)) t := by
  refine returns_bind ((hp.after ht hop).mono ?_)
  rintro r u ⟨hu, hr⟩
  split
  · exact returns_pure trivial
  · rename_i hne
    have hrun := ht.trans hu
    exact faultless_replaceKind hrun.keeps.closed
      (hrun.evolves.isSome (Option.isSome_of_mem hn))
      (hrun.holds hcx hn (hk r u hu.evolves (hr hne)))

theorem faultless_classifyWrapper
    (hself : ∀ mode, Calls Arena.Spellable cx.nesting fun op => self (op, mode))
    (hcx : cx.arena.Spellable) (hn : cx.arena.find? expr = some n) {operand : NodeId}
    (hk : n.kind = .unary .viewConvert operand) :
    Faultless (classifyWrapper self expr operand mode) cx := by
  have hoperand := (hcx.closed.holds expr n hn).nodes operand
    (by rw [hk]; exact List.mem_singleton_self _)
  refine returns_field hn (returns_bind (((hself _).after (.refl hcx) hoperand).mono ?_))
  rintro r t ⟨ht, hr⟩
  split
  · exact returns_pure trivial
  rename_i hne
  obtain ⟨m, hm⟩ := Option.isSome_iff_exists.1 (hr hne)
  refine returns_field hm ?_
  split
  · have hholds : t.arena.Holds (.unary (if mode.rvalue then .nonLvalue else .viewConvert) r) :=
      ht.holds hcx.closed hn (hk ▸ .wrapper (hr hne) mode.rvalue)
    exact returns_bind ((faultless_rebuild ht.keeps.closed
      (ht.evolves.isSome (Option.isSome_of_mem hn)) hholds).mono fun _ _ _ => returns_pure trivial)
  · exact returns_bind (returns_when (returns_edit (Arena.returns_update hm (returns_pure trivial)))
      (returns_pure trivial))

theorem faultless_classifyReference
    (hself : ∀ mode, Calls Arena.Spellable cx.nesting fun op => self (op, mode))
    (hcx : cx.arena.Spellable) {reference : NodeId}
    (hreference : (cx.arena.find? reference).isSome = true) :
    Faultless (classifyReference self expr reference mode) cx := by
  refine returns_bind (((hself _).after (.refl hcx) hreference).mono ?_)
  rintro r t ⟨ht, hr⟩
  split
  · exact returns_pure trivial
  rename_i hne
  split
  · exact returns_pure trivial
  · exact faultless_dereference ht.keeps.closed (hr hne)

theorem faultless_classifyNode (cx : Context)
    (hself : ∀ mode, Calls Arena.Spellable cx.nesting fun op => self (op, mode))
    (hcx : cx.arena.Spellable) (hexpr : (cx.arena.find? expr).isSome = true) :
    Faultless (classifyNode self expr mode) cx := by
  obtain ⟨n, hn⟩ := Option.isSome_iff_exists.1 hexpr
  have hreads : ∀ op ∈ n.readOperands, (cx.arena.find? op).isSome = true := fun op hop =>
    (hcx.closed.holds expr n hn).nodes op (Node.mem_nodes_of_readOperands hop)
  refine returns_bind (returns_query (Arena.node_eq_ok_iff.2 hn) ?_)
  split
  · rename_i object field hk
    exact faultless_exchanged (hself mode) hcx.closed hn (.refl hcx)
      (hreads _ (Node.mem_readOperands_component hk)) fun r u _ hr => hk ▸ .component hr
  · rename_i lhs rhs hk
    exact returns_field hn (faultless_exchanged (hself _) hcx.closed hn (.refl hcx)
      (hreads _ (Node.mem_readOperands_comma hk)) fun r u _ hr => hk ▸ .comma hr)
  · rename_i first second third hk
    refine returns_bind (((hself mode).mapM (.refl hcx) fun op ho =>
      hreads op (Node.mem_readOperands_second hk ho)).mono ?_)
    rintro o t ⟨ht, ho⟩
    split
    · exact returns_pure trivial
    rename_i hne
    exact faultless_exchanged (hself mode) hcx.closed hn ht
      (hreads _ (Node.mem_readOperands_third hk)) fun r u hu hr =>
        hk ▸ .cond (rel_isSome hu (ho hne)) hr
  · rename_i reference hk
    have hreference := hreads reference (Node.mem_readOperands_unary hk rfl)
    obtain ⟨isReference, href⟩ := hcx.closed.isReference hreference
    refine returns_bind (returns_query href ?_)
    split
    · exact faultless_classifyReference hself hcx hreference
    · exact returns_pure trivial
  · rename_i op operand _ hk
    split
    · rename_i hw
      obtain ⟨rfl, -⟩ := hw
      exact faultless_classifyWrapper hself hcx hn hk
    · split
      · rename_i hop
        have hread : operand ∈ n.readOperands :=
          Node.mem_readOperands_unary hk (UnaryOp.readsOperand_of_isTransparent hop)
        exact faultless_exchanged (hself mode) hcx.closed hn (.refl hcx) (hreads _ hread)
          fun r u _ hr => hk ▸ .transparent hop hr
      · exact returns_pure trivial
  · exact returns_pure trivial

theorem faultless_rejectBuiltin {loc : Span} (h : cx.arena.Spellable)
    (hexpr : (cx.arena.find? expr).isSome = true) : Faultless (rejectBuiltin expr loc) cx := by
  obtain ⟨target, htarget, hsome⟩ := h.closed.stripWrapper hexpr
  obtain ⟨name, hname⟩ := h.spellDecl hsome
  refine returns_bind (returns_query htarget (returns_bind (returns_query hname
    (returns_location hexpr fun used => ?_))))
  exact returns_bind ⟨(), _, rfl, returns_pure trivial⟩

theorem faultless_classifyUseStep (hbalanced : ∀ p, Balanced (self p))
    (hself : ∀ inner, cx.nesting.enter = .ok inner →
      ∀ mode, Calls Arena.Spellable inner fun op => self (op, mode))
    (h : cx.arena.Spellable) (hexpr : (cx.arena.find? expr).isSome = true) :
    Faultless (classifyUseStep self (expr, mode)) cx := by
  obtain ⟨erroneous, herroneous⟩ := Arena.isErroneous_isOk (.inr hexpr)
  refine returns_bind (returns_query herroneous ?_)
  split
  · exact returns_pure trivial
  obtain ⟨rejected, hrejected⟩ := h.closed.isRejected hexpr mode
  refine returns_bind (returns_query hrejected ?_)
  split
  · exact faultless_rejectBuiltin h hexpr
  refine returns_bind ((returns_read Arena.Spellable.marked h.closed h hexpr).mono
    fun _ t ht => ?_)
  have hexpr' := ht.evolves.isSome hexpr
  obtain ⟨n, hn⟩ := Option.isSome_iff_exists.1 hexpr'
  refine returns_field hn (faultless_nested (balanced_law.classifyNode hbalanced expr mode)
    fun inner hinner => ?_)
  exact faultless_classifyNode { t with nesting := inner } (hself inner (ht.nesting_eq ▸ hinner))
    ht.keeps hexpr'

end Uses

/-- The use of a node returns. -/
theorem faultless_classifyUse {mode : UseMode} (h : cx.arena.Spellable)
    (hexpr : (cx.arena.find? expr).isSome = true) : Faultless (classifyUse expr mode) cx :=
  faultless_recursively
    (P := fun cx (p : NodeId × UseMode) => cx.arena.Spellable ∧ (cx.arena.find? p.1).isSome = true)
    (Q := fun cx p r t => ∀ text, Reading.spelled.Sound cx.arena text →
      Reading.spelled.Places cx text p.1 r t)
    (fun _ => balanced_law.classifyUseStep)
    (fun _ hself _ cx => wlp_forall.2 fun _ hx => Reading.classifyUseStep_places
      Reading.spelled_lawful cx (fun p t y hy => wlp_forall.1 (hself p t) y hy.sound) ⟨hx, trivial⟩)
    (fun _ hself _ _ _ hp hcalls => faultless_classifyUseStep hself
      (fun inner hinner mode => calls_of_places fun op t ht h hop =>
        hcalls inner hinner (op, mode) t ht ⟨h, hop⟩) hp.1 hp.2) ⟨h, hexpr⟩

/-! ### Discarded uses -/

theorem faultless_discardedRvalueUse (h : cx.arena.Spellable)
    (hexpr : (cx.arena.find? expr).isSome = true) : Faultless (discardedRvalueUse expr) cx :=
  returns_bind ⟨cx, cx, rfl, faultless_classifyUse h hexpr⟩

theorem faultless_classifyDiscardedNode {self : NodeId → Pass NodeId} (cx : Context)
    (hself : Calls Arena.Spellable cx.nesting self) (hcx : cx.arena.Spellable)
    (hexpr : (cx.arena.find? expr).isSome = true) :
    Faultless (classifyDiscardedNode self expr) cx := by
  obtain ⟨n, hn⟩ := Option.isSome_iff_exists.1 hexpr
  have hreads : ∀ op ∈ n.readOperands, (cx.arena.find? op).isSome = true := fun op hop =>
    (hcx.closed.holds expr n hn).nodes op (Node.mem_nodes_of_readOperands hop)
  refine returns_field hn ?_
  split
  · -- a conditional, the third operand first
    rename_i first second third hk
    refine returns_bind ((hself.after (.refl hcx)
      (hreads third (Node.mem_readOperands_third hk))).mono ?_)
    rintro r t ⟨ht, hr⟩
    refine returns_bind ((hself.mapM ht fun op ho =>
      hreads op (Node.mem_readOperands_second hk ho)).mono ?_)
    rintro o u ⟨hu, ho⟩
    split
    · exact returns_pure trivial
    rename_i hne
    rw [not_or] at hne
    have hrun := ht.trans hu
    have hholds : u.arena.Holds (.cond first o r) :=
      hrun.holds hcx.closed hn (hk ▸ .cond (ho hne.2) (hu.evolves.isSome (hr hne.1)))
    exact returns_bind ((faultless_rebuild hrun.keeps.closed (hrun.evolves.isSome hexpr)
      hholds).mono fun _ _ _ => returns_pure trivial)
  · rename_i lhs rhs hk
    refine returns_bind ((hself.after (.refl hcx)
      (hreads rhs (Node.mem_readOperands_comma hk))).mono ?_)
    rintro r t ⟨ht, hr⟩
    split
    · exact returns_pure trivial
    rename_i hne
    have hholds : t.arena.Holds (.comma lhs r) :=
      ht.holds hcx.closed hn (hk ▸ .comma (hr hne))
    exact returns_bind ((faultless_rebuild ht.keeps.closed (ht.evolves.isSome hexpr)
      hholds).mono fun _ _ _ => returns_pure trivial)
  case h_3 | h_4 | h_5 | h_6 => exact faultless_discardedRvalueUse hcx hexpr
  split
  · exact faultless_discardedRvalueUse hcx hexpr
  · exact returns_pure trivial

/-- The use of a node whose value is discarded returns. -/
theorem faultless_classifyDiscarded (h : cx.arena.Spellable)
    (hexpr : (cx.arena.find? expr).isSome = true) : Faultless (classifyDiscarded expr) cx := by
  refine faultless_recursively
    (P := fun cx expr => cx.arena.Spellable ∧ (cx.arena.find? expr).isSome = true)
    (Q := fun cx expr r t => ∀ text, Reading.spelled.Sound cx.arena text →
      Reading.spelled.Places cx text expr r t)
    (fun _ => balanced_law.classifyDiscardedStep)
    (fun _ hself expr cx => wlp_forall.2 fun _ hx => Reading.classifyDiscardedStep_places
      Reading.spelled_lawful cx (fun op t y hy => wlp_forall.1 (hself op t) y hy.sound)
      ⟨hx, trivial⟩)
    (fun self hself _ cx expr ⟨h, hexpr⟩ hcalls => ?_) ⟨h, hexpr⟩
  obtain ⟨operand, hoperand, hsome⟩ := h.closed.stripWrapper hexpr
  obtain ⟨n, hn⟩ := Option.isSome_iff_exists.1 hsome
  refine returns_bind (returns_query hoperand (returns_field hn (faultless_nested
    (balanced_law.classifyDiscardedNode hself operand) fun inner hinner => ?_)))
  exact faultless_classifyDiscardedNode { cx with nesting := inner }
    (calls_of_places fun op t ht h hop => hcalls inner hinner op t ht ⟨h, hop⟩) h hsome

end Pass

end ExprTree
