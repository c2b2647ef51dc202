import ExprTree.Proofs.Confinement
import ExprTree.Proofs.QueueHistory
import ExprTree.Proofs.TwinLaws

/-!
# Uses report their errors

Where all errors are kept, the use of an expression answers with the error node only after it has
reported an error, unless the error node itself is read along with the expression.  A refused
builtin and a refused level of recursion are reported, and every other use hands on what the use of
an operand answered.

* `Context.Counts` — contexts between which no error is lost.
* `keepsErrors_law` — passes lose none.
* `Pass.Audible` — an answer that is the error node only after a report.
* `Pass.audible_classifyUse`, `Pass.audible_classifyDiscarded` — uses.
-/

namespace ExprTree

namespace Queue

variable (q : Queue) (d : Diagnostic)

theorem offerWarning_counts : (q.offerWarning d).2.config = q.config ∧
    (q.offerWarning d).2.errorCount = q.errorCount := by
  unfold offerWarning
  split <;> exact ⟨rfl, rfl⟩

theorem offerError_counts : (q.offerError d).2.config = q.config ∧
    q.errorCount ≤ (q.offerError d).2.errorCount := by
  unfold offerError
  split
  · exact ⟨rfl, Nat.le_succ _⟩
  · exact ⟨rfl, Nat.le_refl _⟩

/-- Without limits every error is kept. -/
theorem errorCount_lt_offerError {q : Queue} (h : q.config = .unlimited) (d : Diagnostic) :
    q.errorCount < (q.offerError d).2.errorCount := by
  have hkeeps : q.keepsError d = true := by
    simp [keepsError, limitReached, h, QueueConfig.unlimited]
  rw [offerError, if_pos hkeeps]
  exact Nat.lt_succ_self _

end Queue

/-- The queue keeps what it kept before, and no error has been lost. -/
structure Context.Counts (cx t : Context) : Prop where
  config_eq : t.queue.config = cx.queue.config
  errorCount_le : cx.queue.errorCount ≤ t.queue.errorCount

namespace Context.Counts

variable {cx t u : Context}

protected theorem refl (cx : Context) : cx.Counts cx := ⟨rfl, Nat.le_refl _⟩

theorem trans (h : cx.Counts t) (h' : t.Counts u) : cx.Counts u :=
  ⟨h'.config_eq.trans h.config_eq, Nat.le_trans h.errorCount_le h'.errorCount_le⟩

end Context.Counts

/-- An arena that has nodes has the error node. -/
theorem Arena.isSome_error {a : Arena} {id : NodeId} (h : (a.find? id).isSome = true) :
    (a.find? .error).isSome = true :=
  isSome_find?_iff.2 (Nat.lt_of_le_of_lt (Nat.zero_le _) (isSome_find?_iff.1 h))

/-- Nothing has changed yet in the nodes that are read along with an expression. -/
theorem Arena.within_readAlong (a : Arena) (expr : NodeId) :
    a.Within (fun x => a.ReadAlong expr x ∨ a.find? x = none) a where
  node _ n hn := ⟨n, hn, .refl n, .inl rfl⟩
  reads id n hn hid op hop := by
    rcases hid with hid | hid
    · exact .inl (hid.tail ⟨n, hn, hop⟩)
    · cases hid.symm.trans hn
  fresh _ hid := .inr hid
  lists_eq := rfl
  names_eq := rfl
  attributes_eq := rfl

namespace Pass

open ExprTree.Action

variable {α β : Type} {cx t : Context} {expr r : NodeId}

/-! ### No error is lost -/

/-- A pass that loses no error. -/
def KeepsErrors (p : Pass α) : Prop := ∀ cx, wlp p (fun _ t => cx.Counts t) cx

theorem KeepsErrors.bind {p : Pass α} {f : α → Pass β} (hp : KeepsErrors p)
    (hf : ∀ r, KeepsErrors (f r)) : KeepsErrors (p >>= f) := by
  intro cx
  rw [wlp_bind]
  exact (hp cx).mono fun r t ht => (hf r t).mono fun _ _ hu => ht.trans hu

theorem keepsErrors_ask (question : Context → Except Fault α) : KeepsErrors (ask question) :=
  fun cx => wlp_ask.2 fun _ _ => .refl cx

theorem keepsErrors_nested {span : Span} {overflow : α} {body : Pass α} (hbody : KeepsErrors body) :
    KeepsErrors (nested span overflow body) := by
  have henter : KeepsErrors (enter span) := fun cx => by
    rw [wlp_enter]
    exact ⟨fun _ _ => ⟨rfl, Nat.le_refl _⟩, fun _ _ =>
      ⟨(cx.queue.offerError_counts _).1, (cx.queue.offerError_counts _).2⟩⟩
  have hleave : KeepsErrors leave := fun cx => wlp_leave.2 fun _ _ => ⟨rfl, Nat.le_refl _⟩
  rw [nested_eq]
  refine henter.bind fun entered => ?_
  split
  · exact hbody.bind fun r => hleave.bind fun _ => keepsErrors_ask fun _ => .ok r
  · exact keepsErrors_ask fun _ => .ok overflow

theorem keepsErrors_explains :
    Explains (fun _ => True) fun {α} (p _ : Pass α) => KeepsErrors p where
  ask _ := keepsErrors_ask _
  bind := KeepsErrors.bind
  warn {code} _ span message _ := by
    rintro cx _ _ ⟨⟩
    obtain ⟨hconfig, hcount⟩ := cx.queue.offerWarning_counts
      (((Diagnostic.warning code).withMessage message).withLabel span "")
    exact ⟨hconfig, Nat.le_of_eq hcount.symm⟩
  note span message := by
    rintro cx _ _ ⟨⟩
    obtain ⟨-, hagrees, -⟩ := cx.queue.offerNote_keeps span message
    exact ⟨hagrees.config_eq, Nat.le_of_eq hagrees.errorCount_eq.symm⟩

/-- No pass loses an error. -/
theorem keepsErrors_law : Law fun {α} (p : Pass α) => KeepsErrors p where
  toWarns := keepsErrors_explains.toWarns
  edit _ _ := wlp_edit.2 fun _ _ _ => ⟨rfl, Nat.le_refl _⟩
  error _ _ _ := wlp_modify.2 ⟨(Queue.offerError_counts ..).1, (Queue.offerError_counts ..).2⟩
  warnIgnored expr site := keepsErrors_explains.warnIgnored trivial (Iff.refl (site = .cast)) expr
  nested := keepsErrors_nested

/-! ### Uses -/

/-- Where all errors are kept, the answer is the error node only after another error. -/
def Audible (cx : Context) (r : NodeId) (t : Context) : Prop :=
  cx.queue.config = .unlimited → r = .error → cx.queue.errorCount < t.queue.errorCount

theorem audible_of_ne (h : r ≠ .error) : Audible cx r t := fun _ hr => absurd hr h

theorem Audible.after {u : Context} (h : Audible t r u) (ht : cx.Counts t) : Audible cx r u :=
  fun hconfig hr => Nat.lt_of_le_of_lt ht.errorCount_le (h (ht.config_eq.trans hconfig) hr)

/-- An error that has been reported is heard. -/
theorem audible_report (d : Diagnostic) : Audible cx r (cx.reportError d) :=
  fun hconfig _ => Queue.errorCount_lt_offerError hconfig d

theorem audible_nested {span : Span} {body : Pass NodeId}
    (hbody : ∀ inner,
      wlp body (Audible { cx with nesting := inner }) { cx with nesting := inner }) :
    wlp (nested span .error body) (Audible cx) cx :=
  wlp_level (fun inner _ => (hbody inner).mono fun _ _ hr _ _ => hr) fun _ _ => audible_report _

theorem audible_rejectBuiltin {loc : Span} : wlp (rejectBuiltin expr loc) (Audible cx) cx := by
  unfold rejectBuiltin Pass.error
  simp only [wlp_bind, wlp_query, wlp_location, wlp_modify, wlp_pure]
  exact fun _ _ _ _ _ _ => audible_report _

/-- Calls from nodes of a set stay in it, lose no error and answer with none silently. -/
def Hears (a : Arena) (S : NodeId → Prop) (p : NodeId → Pass NodeId) : Prop :=
  ∀ op cx, a.Within S cx.arena ∧ S op →
    wlp (p op) (fun r t => cx.Counts t ∧ Answers a S r t ∧ Audible cx r t) cx

theorem Hears.confines {a : Arena} {S : NodeId → Prop} {p : NodeId → Pass NodeId}
    (h : Hears a S p) : Confines a S p :=
  fun op cx hop => (h op cx hop).mono fun _ _ hr => hr.2.1

section Uses

variable {a : Arena} {S : NodeId → Prop} {mode : UseMode} {n : Node} {kind : NodeKind}
  (hS : ¬ S .error)
include hS

theorem ne_error_of_mem (hexpr : S expr) : expr ≠ .error := fun he => hS (he ▸ hexpr)

theorem audible_replaceKind (hexpr : S expr) : wlp (replaceKind expr kind) (Audible cx) t :=
  wlp_replaceKind (fun _ => audible_of_ne (ne_error_of_mem hS hexpr))
    fun _ _ _ _ => audible_of_ne (ne_error_of_mem hS hexpr)

/-- A new dereference is not the error node, since it is in the set. -/
theorem audible_dereference {value : NodeId} (h : a.Within S t.arena) (hvalue : S value) :
    wlp (dereference value) (Audible cx) t := by
  refine wlp_dereference (fun _ => audible_of_ne (ne_error_of_mem hS hvalue)) fun target _ => ?_
  refine (recordRead_within h hvalue).mono fun _ u hu span _ => ?_
  exact Arena.wlp_build fun _ _ => audible_of_ne (ne_error_of_mem hS hu.mem_size)

section Node

variable {self : NodeId × UseMode → Pass NodeId}
  (hself : ∀ mode, Hears a S fun op => self (op, mode))
include hself

theorem audible_exchanged {op : NodeId} {f : NodeId → NodeKind} (hexpr : S expr)
    (ht : a.Within S t.arena) (hop : S op) :
    wlp (self (op, mode)) (OrError (fun r => replaceKind expr (f r)) (Audible t)) t :=
  (hself mode op t ⟨ht, hop⟩).mono fun _ _ ⟨_, _, hr⟩ =>
    ⟨fun he => he ▸ hr, fun _ => audible_replaceKind hS hexpr⟩

theorem audible_classifyNode (cx : Context) (h : a.Within S cx.arena) (hexpr : S expr) :
    wlp (classifyNode self expr mode) (Audible cx) cx := by
  refine wlp_classifyNode fun n hn => ?_
  have hreads : ∀ op ∈ n.readOperands, S op := h.reads expr n hn hexpr
  refine
    { component := fun object field hk =>
        audible_exchanged hS hself hexpr h (hreads _ (Node.mem_readOperands_component hk))
      comma := fun lhs rhs loc hk =>
        audible_exchanged hS hself hexpr h (hreads _ (Node.mem_readOperands_comma hk))
      cond := fun first second third hk => ?_
      reference := fun pointer hk _ => ?_
      wrapper := fun operand hk _ => ?_
      transparent := fun op operand hk hop _ => ?_
      keep := fun _ _ => audible_of_ne (ne_error_of_mem hS hexpr) }
  · have hthird : S third := hreads _ (Node.mem_readOperands_third hk)
    rw [wlp_mapM]
    cases second with
    | none => exact ⟨by simp, fun _ => audible_exchanged hS hself hexpr h hthird⟩
    | some op =>
      refine (hself mode op cx ⟨h, hreads _ (Node.mem_readOperands_second hk rfl)⟩).mono ?_
      rintro r t ⟨hcounts, ⟨ht, -⟩, hr⟩
      refine ⟨fun he => Option.some.inj he ▸ hr, fun _ => ?_⟩
      exact (audible_exchanged hS hself hexpr ht hthird).mono fun r u hu =>
        ⟨fun he => (hu.error he).after hcounts, fun hne => (hu.next hne).mono
          fun _ _ hv => hv.after hcounts⟩
  · have hpointer : S pointer := hreads _ (Node.mem_readOperands_unary hk rfl)
    refine wlp_classifyReference ((hself _ pointer cx ⟨h, hpointer⟩).mono ?_)
    rintro r t ⟨-, ⟨ht, hmem⟩, hr⟩
    exact ⟨fun he => he ▸ hr, fun _ _ => audible_of_ne (ne_error_of_mem hS hexpr),
      fun hne _ => audible_dereference hS ht (hmem hne)⟩
  · have hoperand : S operand := hreads _ (Node.mem_readOperands_unary hk rfl)
    refine wlp_classifyWrapper fun loc _ => (hself _ operand cx ⟨h, hoperand⟩).mono ?_
    rintro r t ⟨-, ⟨ht, hmem⟩, hr⟩
    exact ⟨fun he => he ▸ hr, fun hne _ _ =>
      ⟨fun _ _ _ _ => audible_of_ne (ne_error_of_mem hS hexpr), fun _ _ _ _ => audible_of_ne hne⟩⟩
  · exact audible_exchanged hS hself hexpr h (hreads _ (Node.mem_readOperands_unary hk
      (UnaryOp.readsOperand_of_isTransparent hop)))

theorem audible_classifyUseStep (h : a.Within S cx.arena) (hexpr : S expr) :
    wlp (classifyUseStep self (expr, mode)) (Audible cx) cx := by
  refine wlp_classifyUseStep_cases (fun _ => audible_of_ne (ne_error_of_mem hS hexpr))
    (fun _ _ => audible_rejectBuiltin) fun _ _ => ?_
  have hread : KeepsErrors (when mode.read (recordRead expr)) :=
    @Composes.when _ keepsErrors_law.toComposes _ (recordRead expr)
      (keepsErrors_law.recordRead expr) mode.read
  exact ((read_within h hexpr).and (hread cx)).mono fun _ t ⟨ht, hcounts⟩ span =>
    (audible_nested fun inner => audible_classifyNode hS hself { t with nesting := inner } ht hexpr).mono
      fun _ _ hu => hu.after hcounts

end Node

theorem hears_classifyUse (mode : UseMode) : Hears a S fun expr => classifyUse expr mode :=
  fun _ _ h => wlp_recursively_keeping
    (P := fun cx (p : NodeId × UseMode) => a.Within S cx.arena ∧ S p.1)
    (Q := fun cx _ r t => Answers a S r t ∧ Audible cx r t)
    (fun _ => keepsErrors_law.classifyUseStep) (fun self hself _ _ hp => by
      have hcalls : ∀ mode, Hears a S fun op => self (op, mode) := fun mode op => hself (op, mode)
      exact (classifyUseStep_within (fun mode => (hcalls mode).confines) hp.1 hp.2).and
        (audible_classifyUseStep hS hcalls hp.1 hp.2)) h

/-! ### Discarded uses -/

theorem audible_discardedRvalueUse (h : a.Within S cx.arena) (hexpr : S expr) :
    wlp (discardedRvalueUse expr) (Audible cx) cx := by
  unfold discardedRvalueUse
  rw [wlp_bind, wlp_get]
  exact (hears_classifyUse hS _ expr cx ⟨h, hexpr⟩).mono fun _ _ hr => hr.2.2

theorem audible_classifyDiscardedNode {self : NodeId → Pass NodeId} (hself : Hears a S self)
    (cx : Context) (h : a.Within S cx.arena) (hexpr : S expr) :
    wlp (classifyDiscardedNode self expr) (Audible cx) cx := by
  refine wlp_classifyDiscardedNode fun n hn => ?_
  have hreads : ∀ op ∈ n.readOperands, S op := h.reads expr n hn hexpr
  refine
    { cond := fun first second third hk => ?_
      comma := fun lhs rhs hk => ?_
      use := fun _ _ => audible_discardedRvalueUse hS h hexpr
      keep := fun _ _ => audible_of_ne (ne_error_of_mem hS hexpr) }
  · refine (hself third cx ⟨h, hreads _ (Node.mem_readOperands_third hk)⟩).mono ?_
    rintro r t ⟨hcounts, ⟨ht, -⟩, hr⟩
    rw [wlp_mapM]
    cases second with
    | none =>
      refine ⟨?_, fun _ _ _ _ _ => audible_of_ne (ne_error_of_mem hS hexpr)⟩
      rintro (he | ⟨⟨⟩⟩)
      exact he ▸ hr
    | some op =>
      refine (hself op t ⟨ht, hreads _ (Node.mem_readOperands_second hk rfl)⟩).mono ?_
      rintro o u ⟨hcounts', -, ho⟩
      refine ⟨?_, fun _ _ _ _ _ => audible_of_ne (ne_error_of_mem hS hexpr)⟩
      -- the report of the one branch is not lost while the other is used
      rintro (he | he)
      · exact fun hconfig _ => Nat.lt_of_lt_of_le (hr hconfig he) hcounts'.errorCount_le
      · exact (Option.some.inj he ▸ ho).after hcounts
  · refine (hself rhs cx ⟨h, hreads _ (Node.mem_readOperands_comma hk)⟩).mono ?_
    rintro r t ⟨-, -, hr⟩
    exact ⟨fun he => he ▸ hr, fun _ _ _ _ => audible_of_ne (ne_error_of_mem hS hexpr)⟩

theorem audible_classifyDiscardedStep {self : NodeId → Pass NodeId} (hself : Hears a S self)
    (h : a.Within S cx.arena) (hexpr : S expr) :
    wlp (classifyDiscardedStep self expr) (Audible cx) cx := by
  unfold classifyDiscardedStep
  simp only [wlp_bind, wlp_query]
  intro inner hinner span _
  exact audible_nested fun level => audible_classifyDiscardedNode hS hself
    { cx with nesting := level } h (h.stripped hexpr hinner)

theorem hears_classifyDiscarded : Hears a S classifyDiscarded :=
  fun _ _ => wlp_recursively_keeping (P := fun cx op => a.Within S cx.arena ∧ S op)
    (Q := fun cx _ r t => Answers a S r t ∧ Audible cx r t)
    (fun _ => keepsErrors_law.classifyDiscardedStep) fun _ hself _ _ hop =>
      (classifyDiscardedStep_within (Hears.confines hself) hop.1 hop.2).and
        (audible_classifyDiscardedStep hS hself hop.1 hop.2)

end Uses

/-! ### Expressions with which the error node is not read -/

section Unread

variable (hexpr : (cx.arena.find? expr).isSome = true) (h : ¬ cx.arena.ReadAlong expr .error)
include hexpr h

/-- The error node is there, since the expression is, and it is not read along. -/
theorem error_unread : ¬ (cx.arena.ReadAlong expr .error ∨ cx.arena.find? .error = none) := by
  rintro (hread | hnone)
  · exact h hread
  · have hsome := Arena.isSome_error hexpr
    rw [hnone] at hsome
    cases hsome

theorem audible_classifyUse {mode : UseMode} : wlp (classifyUse expr mode) (Audible cx) cx :=
  (hears_classifyUse (error_unread hexpr h) mode expr cx
    ⟨cx.arena.within_readAlong expr, .inl .refl⟩).mono fun _ _ hr => hr.2.2

theorem audible_classifyDiscarded : wlp (classifyDiscarded expr) (Audible cx) cx :=
  (hears_classifyDiscarded (error_unread hexpr h) expr cx
    ⟨cx.arena.within_readAlong expr, .inl .refl⟩).mono fun _ _ hr => hr.2.2

end Unread

end Pass

end ExprTree
