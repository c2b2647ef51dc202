import ExprTree.Proofs.Closed
import ExprTree.Proofs.Reduction

/-!
# Closed arenas stay closed

Passes exchange operands for others that lead to nodes, and build nodes from such operands.  So no
handle dangles after a pass where none dangled before.  Expressions are no parts of texts, so the
texts end that ended before.

* `Reading.closed` — the reading that says only that no handle dangles.
* `Reading.spelled` — the reading by numbers that go down from every text to its parts.
* `Reading.closed_lawful`, `Reading.spelled_lawful` — the elementary rewrites keep both.
* `Pass.closed_classifyDiscarded`, `Pass.closed_toVoid` — passes.
-/

namespace ExprTree

namespace Arena

/-- The second handle leads to a node, if it is not the first. -/
def Present (a : Arena) (s r : NodeId) : Prop := s = r ∨ (a.find? r).isSome = true

variable {a : Arena} {s r t : NodeId}

theorem Present.isSome (h : a.Present s r) (hs : (a.find? s).isSome = true) :
    (a.find? r).isSome = true := by
  rcases h with rfl | h
  · exact hs
  · exact h

theorem Present.trans (h : a.Present s r) (h' : a.Present r t) : a.Present s t := by
  rcases h' with rfl | h'
  · exact h
  · exact .inr h'

/-- The target of a reference is a node. -/
theorem Closed.isSome_referent (h : a.Closed) {value target : NodeId}
    (ht : a.referent? value = some target) : (a.find? target).isSome = true := by
  obtain ⟨n, type, m, -, -, hm, hk⟩ := referent?_eq_some_iff.1 ht
  exact (h.holds type m hm).nodes target (by rw [hk]; exact List.mem_singleton_self _)

/-! ### Texts -/

theorem spells_change {id x part : NodeId} {n : Node} {f : Node → Node}
    (hn : a.find? id = some n) (h : (a.change id f).Spells x part) :
    (x = id ∧ ∃ parts, a.handles (f n).kind.spelledParts = .ok parts ∧ part ∈ parts) ∨
      a.Spells x part := by
  obtain ⟨m, parts, hm, hparts, hpart⟩ := h
  rcases find?_change_cases hn hm with ⟨rfl, rfl⟩ | hold
  · exact .inl ⟨rfl, parts, hparts, hpart⟩
  · exact .inr ⟨m, parts, hold, hparts, hpart⟩

/-- An expression has no text of its own. -/
theorem spells_append {x part : NodeId} {m : Node} (hm : m.kind.isExpression = true)
    (h : (a.append m).Spells x part) : a.Spells x part := by
  obtain ⟨n, parts, hn, hparts, hpart⟩ := h
  rcases find?_append_cases hn with ⟨rfl, rfl⟩ | hold
  · rw [NodeKind.spelledParts_of_isExpression hm, handles_empty] at hparts
    cases hparts
    cases hpart
  · exact ⟨n, parts, hold, hparts, hpart⟩

end Arena

namespace Reading

/-- No handle dangles. -/
def closed : Reading Unit where
  Sound a _ := a.Closed
  Fits a _ _ k := a.Holds k
  Stands a _ s r := a.Present s r
  Same a _ s r := a.Present s r
  Extends _ _ _ _ := True

theorem closed_lawful : closed.Lawful where
  extends_refl _ _ := trivial
  extends_trans _ _ := trivial
  fits_mono hl h := h.mono (fun _ => hl.1.isSome) hl.1.lists_eq
  stands_mono hl h := h.imp_right hl.1.isSome
  same_mono hl h := h.imp_right hl.1.isSome
  stands_refl _ _ _ := .inl rfl
  stands_trans h h' := h.trans h'
  same_of_stands h := h
  same_trans h h' := h.trans h'
  fits_self h hn := h.holds _ _ hn
  fits_rewritten h hk _ := h.rewritten hk fun _ _ hs hr => hr.isSome hs
  unwrap h hn hw := .inr ((h.holds _ _ hn).nodes _
    (Node.mem_nodes_of_readOperands (Node.wrapped?_mem_readOperands hw)))
  touch h hn hk ht _ _ _ := ⟨h.change hn (hk ▸ h.holds _ _ hn) ht, trivial⟩
  rebuild h hn hfit _ _ := ⟨h.change hn hfit rfl, trivial⟩
  dereference := by
    intro a _ expr pointer value target span flags h hfit hs _ ht _ b _
    have hvalue := hs.isSome (hfit.nodes pointer (List.mem_singleton_self _))
    have hholds : a.Holds (.unary .deref value) := by
      refine ⟨fun x hx => ?_, nofun⟩
      cases List.mem_singleton.1 hx
      exact hvalue
    refine ⟨(), h.append hholds ?_, trivial, .inr ?_⟩
    · rintro _ ⟨⟩
      exact Arena.find?_isSome_append (h.isSome_referent ht)
    · exact Option.isSome_of_mem (Arena.find?_append_new _ _)
  reference hfit hs _ _ := .inr (hs.isSome (hfit.nodes _ (List.mem_singleton_self _)))
  access h hn hk _ _ := .inr ((h.holds _ _ hn).nodes _ (by
    rw [hk]
    exact List.mem_singleton_self _))
  reduce := by
    intro a _ expr k k' type span flags h hfit hk _ _ b hev
    refine ⟨(), h.append (hfit.rewritten hk fun _ _ hs hr => hr.isSome hs) fun t ht => ?_, trivial,
      .inr (Option.isSome_of_mem (Arena.find?_append_new _ _))⟩
    -- the type is there, or an old node had it
    rcases hev.fresh ⟨a.size⟩ _ t (Arena.find?_append_new _ _)
      (Arena.find?_eq_none_iff.2 (Nat.le_refl _)) ht with hnew | ⟨old, n, hn, hnt⟩
    · exact hnew
    · exact hev.isSome (h.type old n hn t hnt)
  nothing h _ := .inr h.void

/-- No handle dangles, and the numbers go down from every text to its parts. -/
def spelled : Reading (NodeId → Nat) where
  Sound a text := a.Closed ∧ ∀ id part, a.Spells id part → text part < text id
  Fits a text id k := a.Holds k ∧
    ∀ parts, a.handles k.spelledParts = .ok parts → ∀ part ∈ parts, text part < text id
  Stands a _ s r := a.Present s r
  Same a _ s r := a.Present s r
  Extends _ text _ text' := text' = text

theorem spellable_of_spelled {a : Arena} {text : NodeId → Nat} (h : spelled.Sound a text) :
    a.Spellable := ⟨h.1, Arena.not_transGen_self text h.2⟩

theorem spelled_lawful : spelled.Lawful where
  extends_refl _ _ := rfl
  extends_trans h h' := h'.trans h
  fits_mono {a _ b _ _ k} hl h := by
    obtain ⟨hl, rfl⟩ := hl
    refine ⟨h.1.mono (fun _ => hl.isSome) hl.lists_eq, fun parts hparts => h.2 parts ?_⟩
    exact Arena.handles_of_lists_eq hl.lists_eq.symm _ _ hparts
  stands_mono hl h := h.imp_right hl.1.isSome
  same_mono hl h := h.imp_right hl.1.isSome
  stands_refl _ _ _ := .inl rfl
  stands_trans h h' := h.trans h'
  same_of_stands h := h
  same_trans h h' := h.trans h'
  fits_self h hn := ⟨h.1.holds _ _ hn, fun parts hparts part hpart =>
    h.2 _ part ⟨_, parts, hn, hparts, hpart⟩⟩
  fits_rewritten h hk hw := by
    refine ⟨closed_lawful.fits_rewritten (x := ()) h.1 hk hw, fun parts hparts part hpart => ?_⟩
    rw [NodeKind.spelledParts_of_isExpression hk.isExpression_eq.2, Arena.handles_empty] at hparts
    cases hparts
    cases hpart
  unwrap h := closed_lawful.unwrap (x := ()) h.1
  touch {a text id n f} h hn hk ht hf hb hspan := by
    refine ⟨⟨(closed_lawful.touch (x := ()) h.1 hn hk ht hf hb hspan).1, fun x part hs => ?_⟩, rfl⟩
    rcases Arena.spells_change hn hs with ⟨rfl, parts, hparts, hpart⟩ | hold
    · exact h.2 x part ⟨n, parts, hn, hk ▸ hparts, hpart⟩
    · exact h.2 x part hold
  rebuild h hn hfit hk hflags := by
    refine ⟨⟨(closed_lawful.rebuild (x := ()) h.1 hn hfit.1 hk hflags).1, fun x part hs => ?_⟩, rfl⟩
    rcases Arena.spells_change hn hs with ⟨rfl, parts, hparts, hpart⟩ | hold
    · exact hfit.2 parts hparts part hpart
    · exact h.2 x part hold
  dereference := by
    intro a text expr pointer value target span flags h hfit hs hat ht hflags b hev
    obtain ⟨_, hclosed, -, hs⟩ :=
      closed_lawful.dereference (x := ()) h.1 hfit.1 hs hat ht hflags hev
    exact ⟨_, ⟨hclosed, fun x part hx => h.2 x part (Arena.spells_append rfl hx)⟩, rfl, hs⟩
  reference hfit := closed_lawful.reference (x := ()) hfit.1
  access h := closed_lawful.access (x := ()) h.1
  reduce := by
    intro a text expr k k' type span flags h hfit hk hacc hflags b hev
    obtain ⟨_, hclosed, -, hs⟩ := closed_lawful.reduce (x := ()) h.1 hfit.1 hk hacc hflags hev
    refine ⟨_, ⟨hclosed, fun x part hx => h.2 x part ?_⟩, rfl, hs⟩
    exact Arena.spells_append hk.isExpression_eq.2 hx
  nothing h := closed_lawful.nothing (x := ()) h.1

end Reading

namespace Arena

theorem Spellable.exists_spelled {a : Arena} (h : a.Spellable) :
    ∃ text, Reading.spelled.Sound a text := by
  obtain ⟨text, htext, -⟩ := h.exists_text
  exact ⟨text, h.closed, htext⟩

theorem Spellable.marked {a b : Arena} (h : a.Spellable) (hm : a.Marked b) : b.Spellable := by
  obtain ⟨text, htext⟩ := h.exists_spelled
  have hkeeps := Reading.keeps_of_marked Reading.spelled_lawful hm text htext
  exact Reading.spellable_of_spelled hkeeps.1

end Arena

namespace Pass

open ExprTree.Action

variable {cx : Context} {expr : NodeId}

/-- What a pass leaves of a closed arena: it has evolved, is closed again, and the answer is there,
if the expression was. -/
def StaysClosed (cx : Context) (expr r : NodeId) (t : Context) : Prop :=
  cx.arena.Evolves t.arena ∧ t.arena.Closed ∧ (r ≠ .error → t.arena.Present expr r)

theorem closed_recordRead (h : cx.arena.Closed) :
    wlp (recordRead expr) (fun _ t => cx.arena.Evolves t.arena ∧ t.arena.Closed) cx :=
  (Reading.recordRead_keeps Reading.closed_lawful expr cx).mono fun _ _ ht =>
    ⟨(ht () h).2.1, (ht () h).1⟩

theorem closed_classifyUse {mode : UseMode} (h : cx.arena.Closed) :
    wlp (classifyUse expr mode) (StaysClosed cx expr) cx :=
  (Reading.classifyUse_places Reading.closed_lawful expr mode cx (x := ()) ⟨h, trivial⟩).mono
    fun _ _ ⟨_, ht, hl, hr⟩ => ⟨hl.1, ht, hr⟩

theorem closed_classifyDiscarded (h : cx.arena.Closed) :
    wlp (classifyDiscarded expr) (StaysClosed cx expr) cx :=
  (Reading.classifyDiscarded_places Reading.closed_lawful expr cx (x := ()) ⟨h, trivial⟩).mono
    fun _ _ ⟨_, ht, hl, hr⟩ => ⟨hl.1, ht, hr⟩

theorem closed_toVoid {site : DiscardSite} (h : cx.arena.Closed) :
    wlp (toVoid expr site) (StaysClosed cx expr) cx :=
  (Reading.toVoid_reduces Reading.closed_lawful expr site cx (x := ()) ⟨h, trivial⟩).mono
    fun _ _ ⟨_, ht, hl, hr⟩ => ⟨hl.1, ht, hr⟩

end Pass

end ExprTree
