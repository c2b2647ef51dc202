import ExprTree.Proofs.Intact

/-!
# Where the spans of used nodes come from

Uses move spans.  What takes the place of a location wrapper goes where the wrapper was, and a
dereference that is built again is where the value of its pointer is.  Spans move along the operands
that are read, so below an intact expression each node is where some node of the first arena was
that leads to it.

* `Arena.SpanBetween` — the spans of the nodes on the paths from an expression to a node.
* `Arena.Trail`, `Arena.Sited` — nodes that are where such nodes were, unless off all paths.
* `Reading.sited` — the reading by trails, kept by the elementary rewrites.
* `Arena.StemsFrom` — the nodes that may be used below an expression.
* `Pass.stemsFrom_classifyDiscarded` — where a node is whose value is discarded.
-/

namespace ExprTree

namespace Arena

variable {a b : Arena} {Z : Span → Prop} {S : NodeId → Prop} {expr id x : NodeId} {n m : Node}

/-- A node that is read along with `expr`, and along with which `x` is read, is at the span. -/
def SpanBetween (a : Arena) (expr x : NodeId) (span : Span) : Prop :=
  ∃ y n, a.ReadAlong expr y ∧ a.ReadAlong y x ∧ a.find? y = some n ∧ n.span = span

/-- A set of nodes, and the nodes that are off the paths to some node. -/
structure Trail where
  nodes : NodeId → Prop
  off : NodeId → Prop

/-- The trail of both. -/
def Trail.union (T U : Trail) : Trail :=
  ⟨fun id => T.nodes id ∨ U.nodes id, fun id => T.off id ∨ U.off id⟩

/-- Both sets are complete, and the nodes on the paths are at spans that satisfy `Z`. -/
structure Sited (a : Arena) (Z : Span → Prop) (T : Trail) : Prop where
  nodes : a.Complete T.nodes
  off : a.Complete T.off
  span : ∀ id n, a.find? id = some n → T.nodes id → ¬ T.off id → Z n.span

theorem Complete.or {S' : NodeId → Prop} (h : a.Complete S) (h' : a.Complete S') :
    a.Complete fun id => S id ∨ S' id := by
  rintro id (hid | hid)
  · obtain ⟨n, hn, hreads⟩ := h id hid
    exact ⟨n, hn, fun op hop => .inl (hreads op hop)⟩
  · obtain ⟨n, hn, hreads⟩ := h' id hid
    exact ⟨n, hn, fun op hop => .inr (hreads op hop)⟩

theorem Sited.union {T U : Trail} (h : a.Sited Z T) (h' : a.Sited Z U) : a.Sited Z (T.union U) where
  nodes := h.nodes.or h'.nodes
  off := h.off.or h'.off
  span id n hn hid hoff := hid.elim (fun hT => h.span id n hn hT fun ho => hoff (.inl ho))
    fun hU => h'.span id n hn hU fun ho => hoff (.inr ho)

theorem Sited.change {T : Trail} {f : Node → Node} (h : a.Sited Z T) (hn : a.find? id = some n)
    (hnodes : (a.change id f).Complete T.nodes) (hoff : (a.change id f).Complete T.off)
    (hspan : (f n).span = n.span ∨ (¬ T.off id → Z (f n).span)) : (a.change id f).Sited Z T where
  nodes := hnodes
  off := hoff
  span other m hm hother haside := by
    rcases find?_change_cases hn hm with ⟨rfl, rfl⟩ | hold
    · rcases hspan with heq | hspan
      · exact heq ▸ h.span other n hn hother haside
      · exact hspan haside
    · exact h.span other m hold hother haside

/-- A node is appended, and joins the trail with another one. -/
theorem Sited.append {T U : Trail} (h : a.Sited Z T) (hnodes : (a.append m).Complete U.nodes)
    (hoff : (a.append m).Complete U.off) (hold : ∀ id, U.nodes id → T.nodes id ∨ id = ⟨a.size⟩)
    (hkeep : ∀ id, T.off id → U.off id) (hspan : U.nodes ⟨a.size⟩ → ¬ U.off ⟨a.size⟩ → Z m.span) :
    (a.append m).Sited Z U where
  nodes := hnodes
  off := hoff
  span id n hn hid haside := by
    rcases find?_append_cases hn with ⟨rfl, rfl⟩ | hfound
    · exact hspan hid haside
    · have hT : T.nodes id :=
        (hold id hid).resolve_right (ne_size_of_isSome (Option.isSome_of_mem hfound))
      exact h.span id n hfound hT fun ho => haside (hkeep id ho)

/-- A node is appended that is not on the trail. -/
theorem Sited.append_aside {T : Trail} (h : a.Sited Z T) : (a.append m).Sited Z T :=
  h.append (h.nodes.append (fun _ hid => hid) fun _ => .inl)
    (h.off.append (fun _ hid => hid) fun _ => .inl) (fun _ => .inl) (fun _ hid => hid)
    fun hid => absurd rfl (ne_size_of_isSome (h.nodes.isSome hid))

/-- What is read along with `expr`, and what of it does not lead to `x`. -/
def trail (a : Arena) (expr x : NodeId) : Trail :=
  ⟨a.ReadAlong expr, fun id => a.ReadAlong expr id ∧ ¬ a.ReadAlong id x⟩

theorem sited_trail (h : a.Intact expr) (x : NodeId) :
    a.Sited (a.SpanBetween expr x) (a.trail expr x) where
  nodes id hid := by
    obtain ⟨n, hn⟩ := Option.isSome_iff_exists.1 (h id hid)
    exact ⟨n, hn, fun op hop => hid.tail ⟨n, hn, hop⟩⟩
  off id hid := by
    obtain ⟨n, hn⟩ := Option.isSome_iff_exists.1 (h id hid.1)
    exact ⟨n, hn, fun op hop => ⟨hid.1.tail ⟨n, hn, hop⟩, fun hx => hid.2 (.head ⟨n, hn, hop⟩ hx)⟩⟩
  span id n hn hid haside := ⟨id, n, hid, not_not.1 fun hx => haside ⟨hid, hx⟩, hn, rfl⟩

end Arena

namespace Reading

open Arena

/-- The reading by trails whose nodes are at spans that satisfy `Z`.  Passes are run on these. -/
def sited (Z : Span → Prop) : Reading Trail where
  Sound a T := a.Sited Z T
  Fits a T id k := complete.Fits a T.nodes id k ∧ complete.Fits a T.off id k
  Stands a T s r := complete.Stands a T.nodes s r ∧ complete.Stands a T.off s r
  Same _ _ _ _ := True
  Extends a T b U := a.Grows T.nodes b U.nodes ∧ a.Grows T.off b U.off
  Runs _ T id := T.nodes id
  At _ T id span := ¬ T.off id → Z span

variable {a : Arena} {Z : Span → Prop} {T : Trail} {expr pointer value target : NodeId}
  {flags : NodeFlags} {span : Span}

/-- The new dereference is where the value is, and leads to the nodes to which the value leads. -/
theorem sited_dereference (h : a.Sited Z T)
    (hfit : (sited Z).Fits a T expr (.unary .deref pointer))
    (hs : (sited Z).Stands a T pointer value) (hat : (sited Z).At a T value span) :
    let b := a.append ⟨.unary .deref value, some target, flags, span⟩
    let U : Trail := ⟨joined a T.nodes value, joined a T.off value⟩
    (sited Z).Sound b U ∧ (sited Z).Extends a T b U ∧ (sited Z).Stands b U expr ⟨a.size⟩ := by
  intro b U
  have hreads : ∀ S : NodeId → Prop, S value →
      ∀ op ∈ (⟨.unary .deref value, some target, flags, span⟩ : Node).readOperands, S op := by
    intro S hvalue op hop
    cases List.mem_singleton.1 hop
    exact hvalue
  obtain ⟨⟨n, hn, hnodes⟩, m, hm, hoff⟩ := hfit
  obtain ⟨hcomplete, hgrows, hstand⟩ := complete_join h.nodes hn
    (fun he => complete_stand hs.1 (hnodes he pointer (List.mem_singleton_self _))) (hreads _)
  obtain ⟨hcomplete', hgrows', hstand'⟩ := complete_join h.off hm
    (fun he => complete_stand hs.2 (hoff he pointer (List.mem_singleton_self _))) (hreads _)
  refine ⟨h.append hcomplete hcomplete' (fun _ => Or.imp_right And.right) (fun _ => .inl)
    fun _ haside => ?_, ⟨hgrows, hgrows'⟩, hstand, hstand'⟩
  exact hat fun hvalue => haside (.inr ⟨hvalue, rfl⟩)

theorem sited_lawful (Z : Span → Prop) : (sited Z).Lawful where
  extends_refl a T := ⟨complete_lawful.extends_refl a T.nodes, complete_lawful.extends_refl a T.off⟩
  extends_trans h h' := ⟨h.1.trans h'.1, h.2.trans h'.2⟩
  fits_mono h hfit :=
    ⟨complete_fits_mono ⟨h.1, h.2.1⟩ hfit.1, complete_fits_mono ⟨h.1, h.2.2⟩ hfit.2⟩
  stands_mono h hs :=
    ⟨complete_stands_mono ⟨h.1, h.2.1⟩ hs.1, complete_stands_mono ⟨h.1, h.2.2⟩ hs.2⟩
  same_mono _ h := h
  stands_refl _ _ _ := ⟨.inl rfl, .inl rfl⟩
  stands_trans h h' := ⟨complete_stands_trans h.1 h'.1, complete_stands_trans h.2 h'.2⟩
  same_of_stands _ := trivial
  same_trans _ h := h
  runs_mono h hid := h.2.1.mem _ hid
  at_mono h hat hoff := hat fun ho => hoff (h.2.2.mem _ ho)
  runs_operand h hn hop := h.sound.nodes.reads h.runs hn _ hop
  runs_stands hs hid := complete_stand hs.1 hid
  at_stands hs hat hoff := hat fun ho => hoff (complete_stand hs.2 ho)
  at_self h hn hoff := h.sound.span _ _ hn h.runs hoff
  fits_self h hn := ⟨complete_lawful.fits_self h.nodes hn, complete_lawful.fits_self h.off hn⟩
  fits_rewritten hfit hk _ := ⟨complete_fits_rewritten hfit.1 (hk.imp fun _ _ => And.left),
    complete_fits_rewritten hfit.2 (hk.imp fun _ _ => And.right)⟩
  unwrap h hn hw := ⟨complete_lawful.unwrap h.nodes hn hw, complete_lawful.unwrap h.off hn hw⟩
  touch h hn hk ht hf hb hspan := by
    have hnodes := complete_lawful.touch h.nodes hn hk ht hf hb (.inr trivial)
    have hoff := complete_lawful.touch h.off hn hk ht hf hb (.inr trivial)
    exact ⟨h.change hn hnodes.1 hoff.1 hspan, hnodes.2, hoff.2⟩
  rebuild h hn hfit hk hflags := by
    have hnodes := complete_lawful.rebuild h.nodes hn hfit.1 hk hflags
    have hoff := complete_lawful.rebuild h.off hn hfit.2 hk hflags
    exact ⟨h.change hn hnodes.1 hoff.1 (.inl rfl), hnodes.2, hoff.2⟩
  dereference h hfit hs hat _ _ _ := ⟨_, sited_dereference h hfit hs hat⟩
  reference hfit hs hp hv := ⟨complete_lawful.reference hfit.1 hs.1 hp hv,
    complete_lawful.reference hfit.2 hs.2 hp hv⟩
  access _ _ _ _ _ := trivial
  reduce h _ _ _ _ _ := ⟨_, h.append_aside, ⟨grows_append (fun _ hid => hid) fun _ => .inl,
    grows_append (fun _ hid => hid) fun _ => .inl⟩, trivial⟩
  nothing _ _ := trivial

end Reading

namespace Arena

variable {a b c : Arena} {expr id w : NodeId} {n m : Node}

/-- In the second arena a node has come from below `expr`: for each node of the first one it is on a
trail on which the nodes are where they were on the paths to that node. -/
def StemsFrom (a : Arena) (expr : NodeId) (b : Arena) (w : NodeId) : Prop :=
  ∀ x, (a.find? x).isSome = true →
    ∃ T, b.Sited (a.SpanBetween expr x) T ∧ T.nodes w ∧ ¬ T.off x

theorem stemsFrom_self (h : a.Intact expr) : a.StemsFrom expr a expr :=
  fun x _ => ⟨a.trail expr x, sited_trail h x, .refl, fun hx => hx.2 .refl⟩

theorem StemsFrom.operand (h : a.StemsFrom expr b w) (hn : b.find? w = some n) {op : NodeId}
    (hop : op ∈ n.readOperands) : a.StemsFrom expr b op := by
  intro x hx
  obtain ⟨T, hT, hw, hoff⟩ := h x hx
  exact ⟨T, hT, hT.nodes.reads hw hn op hop, hoff⟩

theorem StemsFrom.marked (h : a.StemsFrom expr b w) (hbc : b.Marked c) : a.StemsFrom expr c w := by
  intro x hx
  obtain ⟨T, hT, hw, hoff⟩ := h x hx
  exact ⟨T, (Reading.keeps_of_marked (Reading.sited_lawful _) hbc T hT).1, hw, hoff⟩

theorem StemsFrom.append (h : a.StemsFrom expr b w) : a.StemsFrom expr (b.append m) w := by
  intro x hx
  obtain ⟨T, hT, hw, hoff⟩ := h x hx
  exact ⟨T, hT.append_aside, hw, hoff⟩

end Arena

namespace Pass

open ExprTree.Action

variable {a : Arena} {cx : Context} {expr w : NodeId}

/-- A discarded use on a trail stays on it, and nothing of the first arena is put off it. -/
theorem sited_classifyDiscarded {Z : Span → Prop} {T : Arena.Trail} (hev : a.Evolves cx.arena)
    (hT : cx.arena.Sited Z T) (hw : T.nodes w) :
    wlp (classifyDiscarded w) (fun r t => ∃ U, t.arena.Sited Z U ∧
      (∀ y, T.nodes y → U.nodes y) ∧
      (∀ x, (a.find? x).isSome = true → U.off x → T.off x) ∧
      (r ≠ .error → U.nodes r ∧ (T.off w → U.off r))) cx := by
  refine (Reading.classifyDiscarded_places (Reading.sited_lawful Z) w cx ⟨hT, hw⟩).mono ?_
  rintro r t ⟨U, hU, ⟨-, hnodes, hoff⟩, hr⟩
  refine ⟨U, hU, hnodes.mem, fun x hx => hoff.old x (hev.isSome hx), fun hne => ⟨?_, fun ho => ?_⟩⟩
  · exact Reading.complete_stand (hr hne).1 (hnodes.mem w hw)
  · exact Reading.complete_stand (hr hne).2 (hoff.mem w ho)

/-- A discarded use leaves what has come from below an expression, and answers with such a node.  If
that was in the first arena, the node whose value is discarded is where some node on the paths to it
was. -/
theorem stemsFrom_classifyDiscarded (hev : a.Evolves cx.arena) (hw : a.StemsFrom expr cx.arena w) :
    wlp (classifyDiscarded w) (fun r t =>
      (∀ y, a.StemsFrom expr cx.arena y → a.StemsFrom expr t.arena y) ∧
      (r ≠ .error → a.StemsFrom expr t.arena r ∧ ((a.find? r).isSome = true →
        ∀ n, cx.arena.find? w = some n → a.SpanBetween expr r n.span))) cx := by
  intro r t hrun
  refine ⟨fun y hy x hx => ?_, fun hne => ⟨fun x hx => ?_, fun hr n hn => ?_⟩⟩
  · -- the two trails are followed at once
    obtain ⟨T, hT, hTw, hTx⟩ := hw x hx
    obtain ⟨U, hU, hUy, hUx⟩ := hy x hx
    obtain ⟨V, hV, hnodes, hoff, -⟩ :=
      sited_classifyDiscarded hev (hT.union hU) (.inl hTw) r t hrun
    exact ⟨V, hV, hnodes y (.inr hUy), fun hx' => (hoff x hx hx').elim hTx hUx⟩
  · obtain ⟨T, hT, hTw, hTx⟩ := hw x hx
    obtain ⟨V, hV, -, hoff, hr⟩ := sited_classifyDiscarded hev hT hTw r t hrun
    exact ⟨V, hV, (hr hne).1, fun hx' => hTx (hoff x hx hx')⟩
  · obtain ⟨T, hT, hTw, hTr⟩ := hw r hr
    obtain ⟨V, -, -, hoff, hV⟩ := sited_classifyDiscarded hev hT hTw r t hrun
    exact hT.span w n hn hTw fun ho => hTr (hoff r hr ((hV hne).2 ho))

end Pass

end ExprTree
