import ExprTree.Proofs.Footprint
import ExprTree.Proofs.Uses

/-!
# What is read along stays

A node is intact if no handle that is read along with it dangles.  Uses exchange operands for
others that are there, so they leave intact nodes intact, and answer an intact expression with an
intact node.

* `Arena.Intact` — everything read along with a node is there.
* `Arena.Complete` — a set of nodes that are there and lead to one another.
* `Reading.complete` — the reading by such sets, kept by the elementary rewrites.
* `Pass.intact_classifyDiscarded` — a discarded use.
-/

namespace ExprTree

namespace Arena

variable {a : Arena} {S : NodeId → Prop} {id op : NodeId} {n m : Node}

/-- Everything that is read along with the node is there. -/
def Intact (a : Arena) (id : NodeId) : Prop := a.Enclosed (fun x => (a.find? x).isSome = true) id

/-- The nodes of a set are there, and what is read along with them is in it. -/
def Complete (a : Arena) (S : NodeId → Prop) : Prop :=
  ∀ id, S id → ∃ n, a.find? id = some n ∧ ∀ op ∈ n.readOperands, S op

theorem intact_of_operands (hn : a.find? id = some n) (h : ∀ op ∈ n.readOperands, a.Intact op) :
    a.Intact id := by
  intro x hx
  rcases Relation.ReflTransGen.cases_head hx with rfl | ⟨op, ⟨m, hm, hop⟩, hx⟩
  · exact Option.isSome_of_mem hn
  · cases hn.symm.trans hm
    exact h op hop x hx

/-- Nothing is read along with what is no expression. -/
theorem intact_of_not_isExpression (hn : a.find? id = some n) (h : n.kind.isExpression = false) :
    a.Intact id :=
  intact_of_operands hn fun op hop => by
    rw [Node.readOperands_of_not_isExpression h] at hop
    cases hop

/-- The intact nodes are the greatest complete set. -/
theorem complete_intact (a : Arena) : a.Complete a.Intact := by
  intro id hid
  obtain ⟨n, hn⟩ := Option.isSome_iff_exists.1 hid.mem
  exact ⟨n, hn, fun _ hop => hid.operand hn hop⟩

theorem Complete.isSome (h : a.Complete S) (hid : S id) : (a.find? id).isSome = true := by
  obtain ⟨n, hn, -⟩ := h id hid
  exact Option.isSome_of_mem hn

theorem Complete.reads (h : a.Complete S) (hid : S id) (hn : a.find? id = some n) :
    ∀ op ∈ n.readOperands, S op := by
  obtain ⟨m, hm, hreads⟩ := h id hid
  cases hn.symm.trans hm
  exact hreads

theorem Complete.intact (h : a.Complete S) (hid : S id) : a.Intact id := fun x hx =>
  h.isSome (enclosed_of_reads (fun _ hid _ hn => h.reads hid hn) hid x hx)

theorem Complete.change {f : Node → Node} (h : a.Complete S) (hn : a.find? id = some n)
    (hf : S id → ∀ op ∈ (f n).readOperands, S op) : (a.change id f).Complete S := by
  intro other hother
  by_cases ho : other = id
  · subst ho
    exact ⟨f n, find?_change_self hn, hf hother⟩
  · obtain ⟨m, hm, hreads⟩ := h other hother
    exact ⟨m, by rw [find?_change, if_neg ho, hm], hreads⟩

/-- A new node joins a set that has what is read along with it. -/
theorem Complete.append (h : a.Complete S) {T : NodeId → Prop} (hT : ∀ id, S id → T id)
    (hm : ∀ id, T id → S id ∨ id = ⟨a.size⟩ ∧ ∀ op ∈ m.readOperands, S op) :
    (a.append m).Complete T := by
  intro id hid
  rcases hm id hid with hold | ⟨rfl, hreads⟩
  · obtain ⟨n, hn, hreads⟩ := h id hold
    exact ⟨n, find?_append_of_some hn, fun op hop => hT op (hreads op hop)⟩
  · exact ⟨m, find?_append_new a m, fun op hop => hT op (hreads op hop)⟩

/-- Nodes stay, and only new ones join a set. -/
structure Grows (a : Arena) (S : NodeId → Prop) (b : Arena) (T : NodeId → Prop) : Prop where
  mem : ∀ id, S id → T id
  isSome : ∀ id, (a.find? id).isSome = true → (b.find? id).isSome = true
  old : ∀ id, (a.find? id).isSome = true → T id → S id

theorem Grows.trans {a b c : Arena} {S T U : NodeId → Prop} (h : a.Grows S b T)
    (h' : b.Grows T c U) : a.Grows S c U where
  mem id hid := h'.mem id (h.mem id hid)
  isSome id hid := h'.isSome id (h.isSome id hid)
  old id hid hU := h.old id hid (h'.old id (h.isSome id hid) hU)

theorem grows_change {f : Node → Node} : a.Grows S (a.change id f) S :=
  ⟨fun _ h => h, fun _ => find?_isSome_change, fun _ _ h => h⟩

theorem grows_append {T : NodeId → Prop} (hT : ∀ id, S id → T id)
    (hm : ∀ id, T id → S id ∨ id = ⟨a.size⟩) : a.Grows S (a.append m) T where
  mem := hT
  isSome _ := find?_isSome_append
  old id hid h := by
    rcases hm id h with hold | rfl
    · exact hold
    · exact absurd rfl (ne_size_of_isSome hid)

end Arena

namespace Reading

/-- The reading by complete sets, which only new nodes join. -/
def complete : Reading (NodeId → Prop) where
  Sound a S := a.Complete S
  Fits a S id k := ∃ n, a.find? id = some n ∧
    (S id → ∀ op ∈ ({ n with kind := k } : Node).readOperands, S op)
  Stands a S s r := s = r ∨ (a.find? s).isSome = true ∧ (S s → S r)
  Same _ _ _ _ := True
  Extends a S b T := a.Grows S b T

variable {a b : Arena} {S T : NodeId → Prop} {expr pointer value target r : NodeId} {n : Node}
  {k k' : NodeKind} {flags : NodeFlags} {span : Span}

theorem complete_stand (h : complete.Stands a S expr r) (hexpr : S expr) : S r := by
  rcases h with rfl | ⟨-, h⟩
  · exact hexpr
  · exact h hexpr

theorem complete_fits_mono (h : complete.Leads a S b T) (hfit : complete.Fits a S expr k) :
    complete.Fits b T expr k := by
  obtain ⟨hev, hgrows⟩ := h
  obtain ⟨n, hn, hreads⟩ := hfit
  obtain ⟨m, hm, hnm⟩ := hev.node expr n hn
  refine ⟨m, hm, fun hexpr op hop => hgrows.mem op (hreads ?_ op ?_)⟩
  · exact hgrows.old expr (Option.isSome_of_mem hn) hexpr
  · rwa [← Node.readOperands_congr (n := { n with kind := k }) (m := { m with kind := k }) rfl
      hnm.locationWrapper_eq]

theorem complete_stands_mono (h : complete.Leads a S b T) (hs : complete.Stands a S expr r) :
    complete.Stands b T expr r := by
  rcases hs with rfl | ⟨hsome, hs⟩
  · exact .inl rfl
  · exact .inr ⟨h.2.isSome _ hsome, fun hT => h.2.mem _ (hs (h.2.old _ hsome hT))⟩

theorem complete_stands_trans {t : NodeId} (h : complete.Stands a S expr r)
    (h' : complete.Stands a S r t) : complete.Stands a S expr t := by
  rcases h with rfl | ⟨hsome, h⟩
  · exact h'
  · exact .inr ⟨hsome, fun hexpr => complete_stand h' (h hexpr)⟩

theorem complete_fits_rewritten (hfit : complete.Fits a S expr k)
    (hk : k.Rewritten (complete.Stands a S) k') : complete.Fits a S expr k' := by
  obtain ⟨n, hn, hreads⟩ := hfit
  refine ⟨n, hn, fun hexpr op hop => ?_⟩
  obtain ⟨s, hs, hstand⟩ :=
    Node.mem_readOperands_rewritten (n := { n with kind := k' }) hk hop
  exact complete_stand hstand (hreads hexpr s hs)

theorem complete_rebuild (h : a.Complete S) (hn : a.find? expr = some n)
    (hfit : complete.Fits a S expr k)
    (hflags : a.derivedFlags { n with kind := k } = .ok flags) :
    (a.change expr fun n => { n with kind := k, flags := n.flags.union flags }).Complete S := by
  obtain ⟨m, hm, hreads⟩ := hfit
  cases hn.symm.trans hm
  have hw : flags.has .locationWrapper = false :=
    Bool.eq_false_iff.2 fun hw => absurd (Arena.flag_of_has_derivedFlags hflags hw) (by decide)
  refine h.change hn fun hexpr op hop => hreads hexpr op ?_
  rwa [← Node.readOperands_congr (n := { n with kind := k })
    (m := { n with kind := k, flags := n.flags.union flags }) rfl (by simp [hw])]

/-- The nodes of a set, and a new node if another one is in the set. -/
def joined (a : Arena) (S : NodeId → Prop) (other id : NodeId) : Prop :=
  S id ∨ S other ∧ id = ⟨a.size⟩

/-- A node that is built in the place of another joins the set with one that leads to the same
operands. -/
theorem complete_join {m : Node} {other : NodeId} (h : a.Complete S) (hn : a.find? expr = some n)
    (hexpr : S expr → S other) (hreads : S other → ∀ op ∈ m.readOperands, S op) :
    let b := a.append m
    complete.Sound b (joined a S other) ∧ complete.Extends a S b (joined a S other) ∧
      complete.Stands b (joined a S other) expr ⟨a.size⟩ := by
  intro b
  have hnew : ∀ id, joined a S other id → S id ∨ id = ⟨a.size⟩ := fun _ => Or.imp_right And.right
  refine ⟨h.append (fun _ => .inl) ?_, Arena.grows_append (fun _ => .inl) hnew, .inr ⟨?_, ?_⟩⟩
  · rintro id (hid | ⟨hother, rfl⟩)
    · exact .inl hid
    · exact .inr ⟨rfl, hreads hother⟩
  · exact Arena.find?_isSome_append (Option.isSome_of_mem hn)
  · rintro (hid | ⟨-, rfl⟩)
    · exact .inr ⟨hexpr hid, rfl⟩
    · exact absurd rfl (Arena.ne_size_of_isSome (Option.isSome_of_mem hn))

/-- The new dereference joins the set if the old one is in it. -/
theorem complete_dereference (h : a.Complete S)
    (hfit : complete.Fits a S expr (.unary .deref pointer))
    (hs : complete.Stands a S pointer value) :
    let b := a.append ⟨.unary .deref value, some target, flags, span⟩
    complete.Sound b (joined a S expr) ∧ complete.Extends a S b (joined a S expr) ∧
      complete.Stands b (joined a S expr) expr ⟨a.size⟩ := by
  obtain ⟨n, hn, hreads⟩ := hfit
  refine complete_join h hn id fun hexpr op hop => ?_
  cases List.mem_singleton.1 hop
  exact complete_stand hs (hreads hexpr pointer (List.mem_singleton_self _))

theorem complete_lawful : complete.Lawful where
  extends_refl _ _ := ⟨fun _ h => h, fun _ h => h, fun _ _ h => h⟩
  extends_trans h h' := h.trans h'
  fits_mono := complete_fits_mono
  stands_mono := complete_stands_mono
  same_mono _ h := h
  stands_refl _ _ _ := .inl rfl
  stands_trans := complete_stands_trans
  same_of_stands _ := trivial
  same_trans _ h := h
  fits_self h hn := ⟨_, hn, fun hid => h.reads hid hn⟩
  fits_rewritten hfit hk _ := complete_fits_rewritten hfit hk
  unwrap h hn hw := .inr ⟨Option.isSome_of_mem hn,
    fun hid => h.reads hid hn _ (Node.wrapped?_mem_readOperands hw)⟩
  touch h hn hk _ hf _ _ := ⟨h.change hn fun hid => by
    rw [Node.readOperands_congr hk (hf .locationWrapper (by decide))]
    exact h.reads hid hn, Arena.grows_change⟩
  rebuild h hn hfit _ hflags := ⟨complete_rebuild h hn hfit hflags, Arena.grows_change⟩
  dereference h hfit hs _ _ _ _ := ⟨_, complete_dereference h hfit hs⟩
  reference := fun ⟨n, hn, hreads⟩ hs _ _ => .inr ⟨Option.isSome_of_mem hn, fun hexpr =>
    complete_stand hs (hreads hexpr _ (List.mem_singleton_self _))⟩
  access _ _ _ _ _ := trivial
  reduce h _ _ _ _ _ := ⟨_, h.append (fun _ h => h) fun _ => .inl,
    Arena.grows_append (fun _ h => h) fun _ => .inl, trivial⟩
  nothing _ _ := trivial

end Reading

/-- Marks of reads leave intact nodes intact. -/
theorem Arena.Marked.intact {a b : Arena} {id : NodeId} (h : a.Marked b) (hid : a.Intact id) :
    b.Intact id :=
  (Reading.keeps_of_marked Reading.complete_lawful h a.Intact a.complete_intact).1.intact hid

namespace Pass

open ExprTree.Action

variable {cx : Context} {expr : NodeId}

/-- Recording a read leaves intact nodes intact. -/
theorem intact_recordRead :
    wlp (recordRead expr) (fun _ t => ∀ id, cx.arena.Intact id → t.arena.Intact id) cx :=
  recordRead_marks.mono fun _ _ ht _ hid => ht.intact hid

/-- A discarded use leaves intact nodes intact, and answers one with another. -/
theorem intact_classifyDiscarded :
    wlp (classifyDiscarded expr) (fun r t => (∀ id, cx.arena.Intact id → t.arena.Intact id) ∧
      (r ≠ .error → cx.arena.Intact expr → t.arena.Intact r)) cx :=
  (Reading.classifyDiscarded_places Reading.complete_lawful expr cx
    ⟨cx.arena.complete_intact, trivial⟩).mono fun _ _ ⟨_, hT, ⟨_, hgrows⟩, hr⟩ =>
      ⟨fun id hid => hT.intact (hgrows.mem id hid), fun hne hexpr =>
        hT.intact (Reading.complete_stand (hr hne) (hgrows.mem expr hexpr))⟩

end Pass

end ExprTree
