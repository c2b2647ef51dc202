import ExprTree.Proofs.Reads

/-!
# Readings of trees

A reading says something about every node of an arena: which effects it has, what it does under an
oracle, how deep it is.  The passes exchange operands for others that can stand in their place, so
a reading is kept by all passes once it is kept by the few elementary rewrites of which they are
made.  A reading may be about some of the nodes only; passes are then run on these.

* `Reading` — annotations of arenas, and when one node can stand in the place of another.
* `Reading.Lawful` — the elementary rewrites keep the reading.
* `Reading.Admits` — where passes may be run.
* `Reading.Reaches`, `Reading.Keeps` — what holds of the annotations before and after a pass.
* `Reading.recordRead_keeps` — recording a read keeps all annotations.
-/

namespace ExprTree

/-- A node that is given another kind becomes a value only if it is a location wrapper. -/
def Arena.Rewraps (a : Arena) (id : NodeId) (k k' : NodeKind) : Prop :=
  ∀ operand operand', k = .unary .viewConvert operand → k' = .unary .nonLvalue operand' →
    ∃ n, a.find? id = some n ∧ n.flags.has .locationWrapper = true

theorem Arena.rewraps_of_ne {a : Arena} {id : NodeId} {k k' : NodeKind}
    (h : ∀ operand, k' ≠ .unary .nonLvalue operand) : a.Rewraps id k k' :=
  fun _ operand' _ hk => absurd hk (h operand')

/-- A reading of arenas by annotations of type `X`. -/
structure Reading (X : Type) where
  /-- The annotation is right for the arena. -/
  Sound : Arena → X → Prop
  /-- The annotation of a node would be right if the node had the given kind. -/
  Fits : Arena → X → NodeId → NodeKind → Prop
  /-- The second node can stand in the place of the first wherever that is an operand. -/
  Stands : Arena → X → NodeId → NodeId → Prop
  /-- The second node has the effects of the first. -/
  Same : Arena → X → NodeId → NodeId → Prop
  /-- An annotated arena continues another. -/
  Extends : Arena → X → Arena → X → Prop
  /-- Passes may be run on the node. -/
  Runs : Arena → X → NodeId → Prop := fun _ _ _ => True
  /-- The node may be at the span. -/
  At : Arena → X → NodeId → Span → Prop := fun _ _ _ _ => True

namespace Reading

variable {X : Type}

/-- One arena continues another, and so do the annotations. -/
def Leads (R : Reading X) (a : Arena) (x : X) (b : Arena) (y : X) : Prop :=
  a.Evolves b ∧ R.Extends a x b y

/-- The annotation is right for the arena, and passes may be run on the node. -/
structure Admits (R : Reading X) (a : Arena) (x : X) (id : NodeId) : Prop where
  sound : R.Sound a x
  runs : R.Runs a x id

/-- The elementary rewrites keep a reading.  The laws about the nodes on which passes may be run,
and about spans, hold by themselves where the reading says nothing about either. -/
structure Lawful (R : Reading X) : Prop where
  extends_refl : ∀ a x, R.Extends a x a x
  extends_trans : ∀ {a x b y c z}, R.Extends a x b y → R.Extends b y c z → R.Extends a x c z
  fits_mono : ∀ {a x b y id k}, R.Leads a x b y → R.Fits a x id k → R.Fits b y id k
  stands_mono : ∀ {a x b y s r}, R.Leads a x b y → R.Stands a x s r → R.Stands b y s r
  same_mono : ∀ {a x b y s r}, R.Leads a x b y → R.Same a x s r → R.Same b y s r
  stands_refl : ∀ a x s, R.Stands a x s s
  stands_trans : ∀ {a x s r t}, R.Stands a x s r → R.Stands a x r t → R.Stands a x s t
  same_of_stands : ∀ {a x s r}, R.Stands a x s r → R.Same a x s r
  same_trans : ∀ {a x s r t}, R.Same a x s r → R.Same a x r t → R.Same a x s t
  runs_mono : ∀ {a x b y id}, R.Leads a x b y → R.Runs a x id → R.Runs b y id := by
    intros; trivial
  at_mono : ∀ {a x b y id span}, R.Leads a x b y → R.At a x id span → R.At b y id span := by
    intros; trivial
  /-- With a node, passes are run on the operands that are read along with it, -/
  runs_operand : ∀ {a x id n op}, R.Admits a x id → a.find? id = some n → op ∈ n.readOperands →
    R.Runs a x op := by intros; trivial
  /-- and on what can stand in its place, -/
  runs_stands : ∀ {a x s r}, R.Stands a x s r → R.Runs a x s → R.Runs a x r := by
    intros; trivial
  /-- which may be wherever the node may be. -/
  at_stands : ∀ {a x s r span}, R.Stands a x s r → R.At a x s span → R.At a x r span := by
    intros; trivial
  /-- A node may be where it is. -/
  at_self : ∀ {a x id n}, R.Admits a x id → a.find? id = some n → R.At a x id n.span := by
    intros; trivial
  /-- A node fits the kind that it has. -/
  fits_self : ∀ {a x id n}, R.Sound a x → a.find? id = some n → R.Fits a x id n.kind
  /-- It still does when operands are exchanged for others that can stand in their place. -/
  fits_rewritten : ∀ {a x id k k'}, R.Fits a x id k → k.Rewritten (R.Stands a x) k' →
    a.Rewraps id k k' → R.Fits a x id k'
  /-- A location wrapper stands for its operand. -/
  unwrap : ∀ {a x w n operand}, R.Sound a x → a.find? w = some n → n.wrapped? = some operand →
    R.Stands a x w operand
  /-- Marking a read changes nothing, nor does moving a node to where it may be. -/
  touch : ∀ {a x id n f}, R.Sound a x → a.find? id = some n → (f n).kind = n.kind →
    (f n).type = n.type → (∀ g, g ≠ .read → (f n).flags.has g = n.flags.has g) →
    n.Becomes (f n) → (f n).span = n.span ∨ R.At a x id (f n).span →
    R.Sound (a.change id f) x ∧ R.Extends a x (a.change id f) x
  /-- A node can be given every kind that it fits. -/
  rebuild : ∀ {a x id n k flags}, R.Sound a x → a.find? id = some n → R.Fits a x id k →
    k.skeleton = n.kind.skeleton → a.derivedFlags { n with kind := k } = .ok flags →
    R.Sound (a.change id fun n => { n with kind := k, flags := n.flags.union flags }) x ∧
      R.Extends a x (a.change id fun n => { n with kind := k, flags := n.flags.union flags }) x
  /-- A dereference can be built again with a pointer that stands for its own, where that is. -/
  dereference : ∀ {a x expr pointer value target span flags}, R.Sound a x →
    R.Fits a x expr (.unary .deref pointer) → R.Stands a x pointer value → R.At a x value span →
    a.referent? value = some target →
    (a.append ⟨.unary .deref value, some target, .empty, span⟩).derivedFlags
      ⟨.unary .deref value, some target, .empty, span⟩ = .ok flags →
    let b := a.append ⟨.unary .deref value, some target, flags, span⟩
    a.Evolves b → ∃ y, R.Sound b y ∧ R.Extends a x b y ∧ R.Stands b y expr ⟨a.size⟩
  /-- What stands for a reference is a reference. -/
  reference : ∀ {a x expr pointer value}, R.Fits a x expr (.unary .deref pointer) →
    R.Stands a x pointer value → a.referent? pointer ≠ none → a.referent? value = none →
    R.Stands a x expr value
  /-- A dereference that is no volatile access does what its pointer does. -/
  access : ∀ {a x expr n pointer type}, R.Sound a x → a.find? expr = some n →
    n.kind = .unary .deref pointer → n.type = some type → a.isVolatile type = .ok false →
    R.Same a x expr pointer
  /-- A conditional or a comma can be built from operands that have the same effects. -/
  reduce : ∀ {a x expr k k' type span flags}, R.Sound a x → R.Fits a x expr k →
    k.Rewritten (R.Same a x) k' → k.accessesObject = false →
    (a.append ⟨k', type, .empty, span⟩).derivedFlags ⟨k', type, .empty, span⟩ = .ok flags →
    let b := a.append ⟨k', type, flags, span⟩
    a.Evolves b → ∃ y, R.Sound b y ∧ R.Extends a x b y ∧ R.Same b y expr ⟨a.size⟩
  /-- A node without an effect does nothing. -/
  nothing : ∀ {a x expr}, R.Sound a x → a.hasEffect expr = .ok false → R.Same a x expr .void

variable {R : Reading X} {x y : X} {a b : Arena} {cx : Context} {expr : NodeId}

namespace Leads

theorem trans (hR : R.Lawful) {z : X} {c : Arena} (h : R.Leads a x b y) (h' : R.Leads b y c z) :
    R.Leads a x c z :=
  ⟨h.1.trans h'.1, hR.extends_trans h.2 h'.2⟩

theorem refl (hR : R.Lawful) (a : Arena) (x : X) : R.Leads a x a x :=
  ⟨.refl a, hR.extends_refl a x⟩

end Leads

/-- From an annotated arena another one is reached, with an annotation that satisfies `P`. -/
def Reaches (R : Reading X) (a : Arena) (x : X) (b : Arena) (P : X → Prop) : Prop :=
  ∃ y, R.Sound b y ∧ R.Leads a x b y ∧ P y

theorem Reaches.trans (hR : R.Lawful) {c : Arena} {P : X → Prop} (h : R.Leads a x b y)
    (h' : R.Reaches b y c P) : R.Reaches a x c P := by
  obtain ⟨z, hz, hl, hP⟩ := h'
  exact ⟨z, hz, h.trans hR hl, hP⟩

/-- Passes may still be run on a node after others. -/
theorem Admits.mono (hR : R.Lawful) (h : R.Admits a x expr) (hl : R.Leads a x b y)
    (hy : R.Sound b y) : R.Admits b y expr := ⟨hy, hR.runs_mono hl h.runs⟩

theorem Admits.stands (hR : R.Lawful) {r : NodeId} (h : R.Admits a x expr)
    (hs : R.Stands a x expr r) : R.Admits a x r := ⟨h.sound, hR.runs_stands hs h.runs⟩

theorem Admits.operand (hR : R.Lawful) {n : Node} (h : R.Admits a x expr)
    (hn : a.find? expr = some n) {op : NodeId} (hop : op ∈ n.readOperands) : R.Admits a x op :=
  ⟨h.sound, hR.runs_operand h hn hop⟩

/-- All annotations of the first arena are right for the second. -/
def Keeps (R : Reading X) (a b : Arena) : Prop :=
  ∀ x, R.Sound a x → R.Sound b x ∧ R.Leads a x b x

theorem Keeps.refl (hR : R.Lawful) (a : Arena) : R.Keeps a a := fun x hx => ⟨hx, .refl hR a x⟩

theorem Keeps.trans (hR : R.Lawful) {c : Arena} (h : R.Keeps a b) (h' : R.Keeps b c) :
    R.Keeps a c := by
  intro x hx
  obtain ⟨hb, hab⟩ := h x hx
  obtain ⟨hc, hbc⟩ := h' x hb
  exact ⟨hc, hab.trans hR hbc⟩

/-- A recursive pass satisfies what one of its levels satisfies where it may be run. -/
theorem wlp_recursively_admits {α β : Type} {step : (α → Pass β) → α → Pass β} (node : α → NodeId)
    {P : Context → X → α → β → Context → Prop}
    (h : ∀ self, (∀ p t y, R.Admits t.arena y (node p) → Action.wlp (self p) (P t y p) t) →
      ∀ p cx x, R.Admits cx.arena x (node p) → Action.wlp (step self p) (P cx x p) cx)
    (p : α) (cx : Context) (hx : R.Admits cx.arena x (node p)) :
    Action.wlp (Pass.recursively step p) (P cx x p) cx := by
  refine Action.wlp_forall.1 (Pass.wlp_recursively
    (Q := fun cx p r t => ∀ x, R.Admits cx.arena x (node p) → P cx x p r t)
    (fun self hself p cx => Action.wlp_forall.2 fun x hx => ?_) p cx) x hx
  exact h self (fun p t y hy => Action.wlp_forall.1 (hself p t) y hy) p cx x hx

/-! ### Reads and spans -/

/-- A node may be moved to where it may be. -/
theorem wlp_setSpan (hR : R.Lawful) {span : Span} (hx : R.Sound cx.arena x)
    (hspan : R.At cx.arena x expr span) :
    Action.wlp (Pass.edit (Arena.setSpan expr span)) (fun _ t => R.Sound t.arena x ∧
      R.Leads cx.arena x t.arena x) cx := by
  rw [Pass.wlp_edit, Arena.setSpan, Arena.wlp_update]
  intro n hn
  have hb : n.Becomes { n with span } := ⟨rfl, rfl, fun _ h => h, fun _ _ _ _ => rfl⟩
  obtain ⟨hs, he⟩ :=
    hR.touch (f := fun n => { n with span }) hx hn rfl rfl (fun _ _ => rfl) hb (.inr hspan)
  exact ⟨hs, Arena.evolves_change hn hb, he⟩

/-- Marking nodes as read keeps all annotations. -/
theorem keeps_of_marked (hR : R.Lawful) (h : a.Marked b) : R.Keeps a b := by
  induction h with
  | refl => exact .refl hR a
  | mark _ hn ih =>
    refine ih.trans hR fun x hx => ?_
    obtain ⟨hs, he⟩ := hR.touch hx hn rfl rfl
      (fun g hg => by simp [Node.markRead, Ne.symm hg]) (Arena.becomes_markRead _) (.inl rfl)
    exact ⟨hs, Arena.evolves_change hn (Arena.becomes_markRead _), he⟩

theorem recordRead_keeps (hR : R.Lawful) (expr : NodeId) (cx : Context) :
    Action.wlp (Pass.recordRead expr) (fun _ t => R.Keeps cx.arena t.arena) cx :=
  Pass.recordRead_marks.mono fun _ _ h => keeps_of_marked hR h

end Reading

end ExprTree
