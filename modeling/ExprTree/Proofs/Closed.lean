import Mathlib.Data.Finset.Card
import Mathlib.Logic.Relation
import ExprTree.Node.Listing
import ExprTree.Arena.Spelling
import ExprTree.Arena.Strip
import ExprTree.Proofs.Consistency
import ExprTree.Proofs.Footprint

/-!
# Closed arenas

In a closed arena no handle dangles: every handle in a field of a node, or in an operand list of
one, leads to a node, and so does its type.  Where moreover no text is a part of itself, or no chain
of conversions comes back, ranks go down along these chains, and are bounded by the number of nodes.

* `Arena.Holds` — the handles in the fields of a kind lead to nodes.
* `Arena.Closed` — all handles of an arena do.
* `Arena.Spells`, `Arena.Converts` — the chains that spelling and stripping follow.
* `Arena.Spellable`, `Arena.Strippable` — a closed arena in which every text ends, and an arena in
  which every chain of conversions does.
* `Arena.LooksThrough`, `Arena.Sound` — the same where also no conversion or dereference is behind
  itself.
* `Arena.exists_rank`, `Arena.not_transGen_self` — chains without cycles by ranks.
-/

namespace ExprTree

/-! ### Handles in fields -/

/-- The single handles in a field. -/
def Field.nodes : Field → List NodeId
  | .node id => id.toList
  | _ => []

/-- The operand lists in a field. -/
def Field.slices : Field → List NodeSlice
  | .list ids => [ids]
  | _ => []

namespace NodeKind

/-- The single handles in the fields of a kind. -/
def nodes (k : NodeKind) : List NodeId := k.fields.flatMap fun field => field.2.nodes

/-- The operand lists in the fields of a kind. -/
def slices (k : NodeKind) : List NodeSlice := k.fields.flatMap fun field => field.2.slices

/-- The operands are in the fields, one by one or in a list. -/
theorem operands_in_fields (k : NodeKind) :
    (∀ op ∈ k.operands.1, op ∈ k.nodes) ∧ (k.operands.2 = .empty ∨ k.operands.2 ∈ k.slices) := by
  cases k
  all_goals simp [operands, nodes, slices, fields, Field.nodes, Field.slices]
  all_goals tauto

/-- The nodes whose texts are parts of the text of a kind. -/
def spelledParts : NodeKind → List NodeId × NodeSlice
  | pointerType part | referenceType part | arrayType part | underlyingType part
  | typeExpansion part _ | usingDecl part _ _ => ([part], .empty)
  | functionType result params => ([result], params)
  | typenameType scope fullName => (scope.toList ++ [fullName], .empty)
  | _ => ([], .empty)

theorem spelledParts_in_fields (k : NodeKind) :
    (∀ part ∈ k.spelledParts.1, part ∈ k.nodes) ∧
      (k.spelledParts.2 = .empty ∨ k.spelledParts.2 ∈ k.slices) := by
  cases k
  all_goals simp [spelledParts, nodes, slices, fields, Field.nodes, Field.slices]

/-- An expression has no parts that are spelled. -/
theorem spelledParts_of_isExpression {k : NodeKind} (h : k.isExpression = true) :
    k.spelledParts = ([], .empty) := by
  cases k <;> first | rfl | cases h

/-- Exchanged operands are the only new handles. -/
theorem Rewritten.mem_nodes {R : NodeId → NodeId → Prop} {k k' : NodeKind} (h : k.Rewritten R k')
    {x : NodeId} (hx : x ∈ k'.nodes) : x ∈ k.nodes ∨ ∃ s ∈ k.nodes, R s x := by
  cases h with
  | component h | comma h =>
    simp only [nodes, fields, Field.nodes, List.flatMap_cons, List.flatMap_nil, List.append_nil,
      Option.toList_some, List.mem_append, List.mem_singleton] at hx ⊢
    rcases hx with rfl | rfl
    · first | exact .inr ⟨_, .inl rfl, h⟩ | exact .inl (.inl rfl)
    · first | exact .inr ⟨_, .inr rfl, h⟩ | exact .inl (.inr rfl)
  | transparent _ h | value h =>
    cases List.mem_singleton.1 hx
    exact .inr ⟨_, List.mem_singleton_self _, h⟩
  | cond hs ht =>
    simp only [nodes, fields, Field.nodes, List.flatMap_cons, List.flatMap_nil, List.append_nil,
      Option.toList_some, List.mem_append, List.mem_singleton, Option.mem_toList] at hx ⊢
    rcases hx with rfl | hx | rfl
    · exact .inl (.inl rfl)
    · cases hs with
      | none => cases hx
      | some hs =>
        cases hx
        exact .inr ⟨_, .inr (.inl rfl), hs⟩
    · exact .inr ⟨_, .inr (.inr rfl), ht⟩

theorem Rewritten.slices_eq {R : NodeId → NodeId → Prop} {k k' : NodeKind}
    (h : k.Rewritten R k') : k'.slices = [] := by
  cases h <;> rfl

end NodeKind

namespace Node

/-- What is read along with a node is in its fields. -/
theorem mem_nodes_of_readOperands {n : Node} {op : NodeId} (hop : op ∈ n.readOperands) :
    op ∈ n.kind.nodes := by
  obtain ⟨kind, type, flags, span⟩ := n
  cases kind with
  | arrayRef | componentRef | modify | comma | cond =>
    simp_all [readOperands, NodeKind.nodes, NodeKind.fields, Field.nodes]
    try tauto
  | unary op' operand =>
    have hown : (NodeKind.unary op' operand).nodes = [operand] := rfl
    rw [hown]
    cases op' with
    | nonLvalue =>
      obtain ⟨-, hk | hk⟩ := wrapped?_eq_some_iff.1 (Option.mem_toList.1 hop)
      · cases hk
      · cases hk
        exact List.mem_singleton_self _
    | declare | sizeof | alignof | noexcept => cases hop
    | _ => exact hop
  | _ => cases hop

/-- What a conversion converts, or a dereference dereferences. -/
def behind? (n : Node) : Option NodeId :=
  match n.kind with
  | .unary .deref pointer => some pointer
  | _ => n.converted?

theorem behind?_of_converted? {n : Node} {operand : NodeId} (h : n.converted? = some operand) :
    n.behind? = some operand := by
  unfold behind?
  split
  · rename_i hk
    simp [converted?, wrapped?, hk] at h
  · exact h

/-- A location wrapper is a conversion. -/
theorem behind?_of_wrapped? {n : Node} {operand : NodeId} (h : n.wrapped? = some operand) :
    n.behind? = some operand := by
  obtain ⟨-, hk | hk⟩ := wrapped?_eq_some_iff.1 h
  · simpa only [behind?, converted?, hk] using h
  · simp only [behind?, converted?, hk]

/-- What is behind a node is in its fields. -/
theorem mem_nodes_of_behind? {n : Node} {operand : NodeId} (h : n.behind? = some operand) :
    operand ∈ n.kind.nodes := by
  unfold behind? converted? at h
  split at h
  case h_2 =>
    split at h
    case h_4 => exact mem_nodes_of_readOperands (wrapped?_mem_readOperands h)
    all_goals
      rename_i hk
      cases h
      rw [hk]
      exact List.mem_singleton_self _
  rename_i hk
  cases h
  rw [hk]
  exact List.mem_singleton_self _

theorem converted?_of_wrapped? {n : Node} {operand : NodeId} (h : n.wrapped? = some operand) :
    n.converted? = some operand := by
  obtain ⟨-, hk | hk⟩ := wrapped?_eq_some_iff.1 h
  · simpa only [converted?, hk] using h
  · simp only [converted?, hk]

theorem converted?_congr {n m : Node} (hk : m.kind = n.kind)
    (hf : m.flags.has .locationWrapper = n.flags.has .locationWrapper) :
    m.converted? = n.converted? := by
  simp only [converted?, wrapped?, hk, hf]

/-- A dereference is no conversion. -/
theorem converted?_deref {n : Node} {pointer : NodeId} (hk : n.kind = .unary .deref pointer) :
    n.converted? = none := by
  simp only [converted?, wrapped?, hk]

/-- What is converted is exchanged like any other operand, where only a location wrapper becomes a
value. -/
theorem converted?_rewritten {R : NodeId → NodeId → Prop} {k k' : NodeKind} {n : Node}
    {operand' : NodeId} (h : k.Rewritten R k')
    (hw : ∀ operand operand', k = .unary .viewConvert operand → k' = .unary .nonLvalue operand' →
      n.flags.has .locationWrapper = true)
    (hc : converted? { n with kind := k' } = some operand') :
    ∃ operand, converted? { n with kind := k } = some operand ∧ R operand operand' := by
  cases h with
  | component | comma | cond => simp [converted?, wrapped?] at hc
  | @transparent op operand _ hop h =>
    cases op with
    | nop | convert =>
      cases hc
      exact ⟨operand, rfl, h⟩
    | viewConvert => exact wrapped?_rewritten (.transparent hop h) hc
    | nonDependent => simp [converted?, wrapped?] at hc
    | _ => cases hop
  | @value operand _ h =>
    cases hc
    exact ⟨operand, if_pos (hw operand operand' rfl rfl), h⟩

end Node

namespace Arena

variable {a b : Arena} {k : NodeKind} {id : NodeId}

/-- The handles in the fields of a kind lead to nodes of the arena. -/
structure Holds (a : Arena) (k : NodeKind) : Prop where
  nodes : ∀ x ∈ k.nodes, (a.find? x).isSome = true
  slices : ∀ r ∈ k.slices, ∃ ids, a.list r = .ok ids ∧ ∀ x ∈ ids, (a.find? x).isSome = true

theorem Holds.mono (h : a.Holds k) (hfind : ∀ id, (a.find? id).isSome → (b.find? id).isSome)
    (hlists : b.lists = a.lists) : b.Holds k where
  nodes x hx := hfind x (h.nodes x hx)
  slices r hr := by
    obtain ⟨ids, hids, hmem⟩ := h.slices r hr
    exact ⟨ids, by simpa only [list, hlists] using hids, fun x hx => hfind x (hmem x hx)⟩

/-- Handles in the fields of a kind, one by one or in a list. -/
theorem Holds.handles (h : a.Holds k) {parts : List NodeId × NodeSlice}
    (hparts : (∀ x ∈ parts.1, x ∈ k.nodes) ∧ (parts.2 = .empty ∨ parts.2 ∈ k.slices)) :
    ∃ ids, a.handles parts = .ok ids ∧ ∀ x ∈ ids, (a.find? x).isSome = true := by
  obtain ⟨single, r⟩ := parts
  obtain ⟨hsingle, hr⟩ := hparts
  have hmem : ∀ x ∈ single, (a.find? x).isSome = true := fun x hx => h.nodes x (hsingle x hx)
  rcases hr with rfl | hr
  · exact ⟨single, handles_empty single, hmem⟩
  · obtain ⟨ids, hids, hlisted⟩ := h.slices r hr
    refine ⟨single ++ ids, map_eq_ok_iff.2 ⟨ids, hids, rfl⟩, fun x hx => ?_⟩
    exact (List.mem_append.1 hx).elim (hmem x) (hlisted x)

theorem Holds.inRange (h : a.Holds k) : a.InRange k := h.handles k.operands_in_fields

/-- Operands that are there are exchanged for others that are there. -/
theorem Holds.rewritten {R : NodeId → NodeId → Prop} {k' : NodeKind} (h : a.Holds k)
    (hk : k.Rewritten R k')
    (hR : ∀ s r, (a.find? s).isSome = true → R s r → (a.find? r).isSome = true) :
    a.Holds k' where
  nodes x hx := (hk.mem_nodes hx).elim (h.nodes x) fun ⟨s, hmem, hs⟩ => hR s x (h.nodes s hmem) hs
  slices r hr := by
    rw [hk.slices_eq] at hr
    cases hr

/-- Every handle in a field or an operand list leads to a node, every type is a node, and the void
value is there. -/
structure Closed (a : Arena) : Prop where
  holds : ∀ id n, a.find? id = some n → a.Holds n.kind
  type : ∀ id n, a.find? id = some n → ∀ t, n.type = some t → (a.find? t).isSome = true
  void : (a.find? .void).isSome = true

/-! ### The two changes -/

/-- It is enough to look at nodes that are new or changed. -/
theorem Closed.of_find? (h : a.Closed)
    (hfind : ∀ id, (a.find? id).isSome = true → (b.find? id).isSome = true)
    (hlists : b.lists = a.lists)
    (hnode : ∀ id m, b.find? id = some m → a.find? id = some m ∨
      b.Holds m.kind ∧ ∀ t, m.type = some t → (b.find? t).isSome = true) : b.Closed where
  holds id m hm := (hnode id m hm).elim
    (fun hold => (h.holds id m hold).mono hfind hlists) fun hnew => hnew.1
  type id m hm := (hnode id m hm).elim
    (fun hold t ht => hfind t (h.type id m hold t ht)) fun hnew => hnew.2
  void := hfind _ h.void

theorem Closed.change {n : Node} {f : Node → Node} (h : a.Closed) (hn : a.find? id = some n)
    (hholds : a.Holds (f n).kind) (htype : (f n).type = n.type) : (a.change id f).Closed := by
  refine h.of_find? (fun _ => find?_isSome_change) rfl fun other m hm => ?_
  rcases find?_change_cases hn hm with ⟨rfl, rfl⟩ | hold
  · exact .inr ⟨hholds.mono (fun _ => find?_isSome_change) rfl,
      fun t ht => find?_isSome_change (h.type other n hn t (htype ▸ ht))⟩
  · exact .inl hold

theorem Closed.append {m : Node} (h : a.Closed) (hholds : a.Holds m.kind)
    (htype : ∀ t, m.type = some t → ((a.append m).find? t).isSome = true) :
    (a.append m).Closed := by
  refine h.of_find? (fun _ => find?_isSome_append) rfl fun other n hn => ?_
  rcases find?_append_cases hn with ⟨rfl, rfl⟩ | hold
  · exact .inr ⟨hholds.mono (fun _ => find?_isSome_append) rfl, htype⟩
  · exact .inl hold

/-! ### Chains -/

/-- The text of the second node is a part of the text of the first. -/
def Spells (a : Arena) (id part : NodeId) : Prop :=
  ∃ n ids, a.find? id = some n ∧ a.handles n.kind.spelledParts = .ok ids ∧ part ∈ ids

/-- The first node is a conversion that keeps the representation of the second. -/
def Converts (a : Arena) (id operand : NodeId) : Prop :=
  ∃ n, a.find? id = some n ∧ n.converted? = some operand

/-- No conversion is behind itself. -/
def Strippable (a : Arena) : Prop := ∀ id, ¬ Relation.TransGen a.Converts id id

/-- No handle dangles, and no text is a part of itself. -/
structure Spellable (a : Arena) : Prop where
  closed : a.Closed
  spelling : ∀ id, ¬ Relation.TransGen a.Spells id id

/-- The first node is a conversion that keeps the representation of the second, or dereferences
it. -/
def LooksThrough (a : Arena) (id operand : NodeId) : Prop :=
  ∃ n, a.find? id = some n ∧ n.behind? = some operand

/-- No handle dangles, no text is a part of itself, and no conversion or dereference is behind
itself. -/
structure Sound (a : Arena) : Prop where
  closed : a.Closed
  spelling : ∀ id, ¬ Relation.TransGen a.Spells id id
  looking : ∀ id, ¬ Relation.TransGen a.LooksThrough id id

theorem Sound.spellable (h : a.Sound) : a.Spellable := ⟨h.closed, h.spelling⟩

theorem Converts.looksThrough {operand : NodeId} (h : a.Converts id operand) :
    a.LooksThrough id operand := by
  obtain ⟨n, hn, hc⟩ := h
  exact ⟨n, hn, Node.behind?_of_converted? hc⟩

theorem Closed.of_spells (h : a.Closed) {part : NodeId} (hs : a.Spells id part) :
    (a.find? id).isSome = true ∧ (a.find? part).isSome = true := by
  obtain ⟨n, ids, hn, hids, hmem⟩ := hs
  obtain ⟨ids', hids', hsome⟩ := (h.holds id n hn).handles n.kind.spelledParts_in_fields
  cases hids.symm.trans hids'
  exact ⟨Option.isSome_of_mem hn, hsome part hmem⟩

theorem Closed.of_looksThrough (h : a.Closed) {operand : NodeId}
    (hc : a.LooksThrough id operand) :
    (a.find? id).isSome = true ∧ (a.find? operand).isSome = true := by
  obtain ⟨n, hn, hbehind⟩ := hc
  exact ⟨Option.isSome_of_mem hn, (h.holds id n hn).nodes _ (Node.mem_nodes_of_behind? hbehind)⟩

/-! ### Ranks -/

/-- Without cycles, the number of nodes that can be reached goes down along a relation. -/
theorem exists_rank {R : NodeId → NodeId → Prop}
    (hR : ∀ id x, R id x → (a.find? id).isSome = true ∧ (a.find? x).isSome = true)
    (hac : ∀ id, ¬ Relation.TransGen R id id) :
    ∃ rank : NodeId → Nat, (∀ id x, R id x → rank x < rank id) ∧ ∀ id, rank id ≤ a.size := by
  classical
  let below : NodeId → Finset Nat := fun id =>
    (Finset.range a.size).filter fun i => Relation.TransGen R id ⟨i⟩
  refine ⟨fun id => (below id).card, fun id x hx => ?_, fun id => ?_⟩
  · -- the second node is below the first, but not below itself
    refine Finset.card_lt_card ((Finset.ssubset_iff_of_subset fun i hi => ?_).2 ⟨x.index, ?_, ?_⟩)
    · simp only [below, Finset.mem_filter] at hi ⊢
      exact ⟨hi.1, .head hx hi.2⟩
    · simp only [below, Finset.mem_filter, Finset.mem_range]
      exact ⟨isSome_find?_iff.1 (hR id x hx).2, .single hx⟩
    · simp only [below, Finset.mem_filter, not_and]
      exact fun _ => hac x
  · exact (Finset.card_filter_le _ _).trans (Finset.card_range _).le

/-- Without cycles, numbers go down from every text to its parts. -/
theorem Spellable.exists_text (h : a.Spellable) : ∃ text : NodeId → Nat,
    (∀ id part, a.Spells id part → text part < text id) ∧ ∀ id, text id ≤ a.size :=
  exists_rank (fun _ _ => h.closed.of_spells) h.spelling

/-- Where a rank goes down along a relation, no chain of it comes back. -/
theorem not_transGen_self {R : NodeId → NodeId → Prop} (rank : NodeId → Nat)
    (h : ∀ id x, R id x → rank x < rank id) (id : NodeId) : ¬ Relation.TransGen R id id := by
  have hless : ∀ x, Relation.TransGen R id x → rank x < rank id := fun x hx => by
    induction hx with
    | single hx => exact h _ _ hx
    | tail _ hx ih => exact (h _ _ hx).trans ih
  exact fun hid => Nat.lt_irrefl _ (hless id hid)

/-! ### Decisions -/

instance (a : Arena) (r : NodeSlice) :
    Decidable (∃ ids, a.list r = .ok ids ∧ ∀ x ∈ ids, (a.find? x).isSome = true) :=
  match h : a.list r with
  | .ok ids => decidable_of_iff (∀ x ∈ ids, (a.find? x).isSome = true)
    ⟨fun hall => ⟨ids, rfl, hall⟩, fun ⟨_, h', hall⟩ => by cases h'; exact hall⟩
  | .error _ => isFalse fun ⟨_, h', _⟩ => by cases h'

instance (a : Arena) (k : NodeKind) : Decidable (a.Holds k) :=
  decidable_of_iff ((∀ x ∈ k.nodes, (a.find? x).isSome = true) ∧
      ∀ r ∈ k.slices, ∃ ids, a.list r = .ok ids ∧ ∀ x ∈ ids, (a.find? x).isSome = true)
    ⟨fun h => ⟨h.1, h.2⟩, fun h => ⟨h.nodes, h.slices⟩⟩

instance (a : Arena) : Decidable a.Closed :=
  decidable_of_iff ((∀ n ∈ a.nodes.toList,
      a.Holds n.kind ∧ ∀ t ∈ n.type, (a.find? t).isSome = true) ∧ (a.find? .void).isSome = true)
    ⟨fun h => ⟨fun id n hn => (forall_find?_iff.2 h.1 id n hn).1,
        fun id n hn => (forall_find?_iff.2 h.1 id n hn).2, h.2⟩,
      fun h => ⟨forall_find?_iff.1 fun id n hn => ⟨h.holds id n hn, h.type id n hn⟩, h.void⟩⟩

/-- All chains lead to older nodes. -/
def Descends (a : Arena) : Prop :=
  ∀ i : Fin a.size, ∀ n ∈ a.find? ⟨i⟩,
    (∀ parts ∈ (a.handles n.kind.spelledParts).toOption, ∀ part ∈ parts, part.index < i) ∧
    ∀ operand ∈ n.behind?, operand.index < i

instance (a : Arena) : Decidable a.Descends := inferInstanceAs (Decidable (∀ _ : Fin a.size, _))

theorem Closed.spellable (h : a.Closed) (hd : ∀ i : Fin a.size, ∀ n ∈ a.find? ⟨i⟩,
    ∀ parts ∈ (a.handles n.kind.spelledParts).toOption, ∀ part ∈ parts, part.index < i) :
    a.Spellable where
  closed := h
  spelling := not_transGen_self NodeId.index fun id part hs => by
    obtain ⟨n, parts, hn, hparts, hmem⟩ := hs
    obtain ⟨hi, -⟩ := Array.getElem?_eq_some_iff.1 hn
    exact hd ⟨id.index, hi⟩ n hn parts (by rw [hparts]; rfl) part hmem

/-- Chains of operands that lead to older nodes do not come back. -/
theorem not_transGen_of_older (next : Node → Option NodeId)
    (hd : ∀ i : Fin a.size, ∀ n ∈ a.find? ⟨i⟩, ∀ operand ∈ next n, operand.index < i) :
    ∀ id, ¬ Relation.TransGen
      (fun id operand => ∃ n, a.find? id = some n ∧ next n = some operand) id id :=
  not_transGen_self NodeId.index fun id operand ⟨n, hn, hnext⟩ => by
    obtain ⟨hi, -⟩ := Array.getElem?_eq_some_iff.1 hn
    exact hd ⟨id.index, hi⟩ n hn operand hnext

theorem Closed.sound (h : a.Closed) (hd : a.Descends) : a.Sound where
  closed := h
  spelling := (h.spellable fun i n hn => (hd i n hn).1).spelling
  looking := not_transGen_of_older Node.behind? fun i n hn => (hd i n hn).2

end Arena

end ExprTree
