import Mathlib.Data.ENat.Lattice
import Mathlib.Logic.Function.Basic
import Mathlib.Order.CompletePartialOrder
import ExprTree.Proofs.Intact
import ExprTree.Proofs.Recordings

/-!
# How far reads lead

The height of an expression is the number of nodes on the longest path along which a read of it
leads.  Passes exchange operands while they go down these paths.  What takes the place of an operand
is no higher, and no intact node is raised; but a handle that dangles may get a node of any height.

* `Arena.ReadPath`, `Arena.readHeight` — paths of reads, and the height of an expression.
* `Arena.Mounts` — numbers that are at least as large as heights.
* `Arena.RankedBy` — numbers that are heights.
* `Reading.heights`, `Reading.heights_lawful` — the elementary rewrites keep such numbers.
* `Arena.exists_heights` — the heights of intact expressions.
-/

namespace ExprTree

namespace Arena

variable {a b : Arena} {id op : NodeId} {n m : Node} {x y : NodeId → ℕ∞} {k : Nat} {c : ℕ∞}

/-- A path of so many nodes along which a read of an expression leads. -/
inductive ReadPath (a : Arena) : NodeId → Nat → Prop
  | single {id : NodeId} {n : Node} (hn : a.find? id = some n) : ReadPath a id 1
  | cons {id op : NodeId} {k : Nat} (hop : a.ReadOperand id op) (h : ReadPath a op k) :
    ReadPath a id (k + 1)

/-- The largest number of nodes on such a path; `⊤` where a path comes back. -/
noncomputable def readHeight (a : Arena) (id : NodeId) : ℕ∞ :=
  ⨆ (k : Nat) (_ : a.ReadPath id k), (k : ℕ∞)

theorem readHeight_le_iff : a.readHeight id ≤ c ↔ ∀ k, a.ReadPath id k → (k : ℕ∞) ≤ c :=
  iSup₂_le_iff

theorem ReadPath.le_readHeight (h : a.ReadPath id k) : (k : ℕ∞) ≤ a.readHeight id :=
  readHeight_le_iff.1 le_rfl k h

/-- An expression of more than one level has an operand of one level less. -/
theorem exists_operand_of_lt (h : ((k + 1 : Nat) : ℕ∞) < a.readHeight id) :
    ∃ op, a.ReadOperand id op ∧ (k : ℕ∞) < a.readHeight op := by
  by_contra hnone
  refine absurd (readHeight_le_iff.2 fun l hl => ?_) (not_le_of_gt h)
  cases hl with
  | single hn => exact Nat.cast_le.2 (Nat.le_add_left 1 k)
  | @cons _ op l hop hl =>
    have hlow : (l : ℕ∞) ≤ k :=
      hl.le_readHeight.trans (not_lt.1 fun hless => hnone ⟨op, hop, hless⟩)
    exact Nat.cast_le.2 (Nat.succ_le_succ (Nat.cast_le.1 hlow))

/-- Reads do not matter. -/
theorem SameButReads.readPath (h : a.SameButReads b) (hk : a.ReadPath id k) : b.ReadPath id k := by
  induction hk with
  | single hn =>
    obtain ⟨m, hm, -⟩ := h.find? hn
    exact .single hm
  | cons hop _ ih => exact .cons (h.readOperand hop) ih

theorem SameButReads.intact (h : a.SameButReads b) (hid : a.Intact id) : b.Intact id := by
  intro x hx
  obtain ⟨n, hn⟩ := Option.isSome_iff_exists.1 (hid x (h.symm.readAlong hx))
  obtain ⟨m, hm, -⟩ := h.find? hn
  exact Option.isSome_of_mem hm

theorem Marked.readHeight_eq (h : a.Marked b) (id : NodeId) :
    b.readHeight id = a.readHeight id := by
  have hle : ∀ {a b : Arena}, a.SameButReads b → a.readHeight id ≤ b.readHeight id :=
    fun hsame => readHeight_le_iff.2 fun _ hk => (hsame.readPath hk).le_readHeight
  exact le_antisymm (hle h.sameButReads.symm) (hle h.sameButReads)

/-! ### Numbers that grow along paths -/

/-- Numbers that are larger for a node than for each operand that is read along with it. -/
structure Mounts (a : Arena) (x : NodeId → ℕ∞) : Prop where
  pos : ∀ {id n}, a.find? id = some n → 1 ≤ x id
  operand : ∀ {id n}, a.find? id = some n → ∀ op ∈ n.readOperands, x op + 1 ≤ x id

theorem Mounts.readHeight_le (h : a.Mounts x) (id : NodeId) : a.readHeight id ≤ x id := by
  refine readHeight_le_iff.2 fun k hk => ?_
  induction hk with
  | single hn => exact h.pos hn
  | @cons id op k hop _ ih =>
    obtain ⟨n, hn, hop⟩ := hop
    calc ((k + 1 : Nat) : ℕ∞) = (k : ℕ∞) + 1 := Nat.cast_succ k
      _ ≤ x op + 1 := by gcongr
      _ ≤ x id := h.operand hn op hop

/-- Heights are such numbers, since a path through an operand has one node more. -/
theorem mounts_readHeight (a : Arena) : a.Mounts a.readHeight where
  pos hn := (ReadPath.single hn).le_readHeight
  operand {id n} hn op hop := by
    have hless : a.readHeight op ≤ a.readHeight id - 1 := readHeight_le_iff.2 fun k hk =>
      ENat.le_sub_of_add_le_right ENat.one_ne_top (ReadPath.cons ⟨n, hn, hop⟩ hk).le_readHeight
    calc a.readHeight op + 1 ≤ a.readHeight id - 1 + 1 := by gcongr
      _ = a.readHeight id := tsub_add_cancel_of_le (ReadPath.single hn).le_readHeight

/-! ### Numbers that are heights -/

/-- Numbers that are larger for a node than for each operand that is read along with it, and larger
by just one for some operand, unless the node is the first; nothing else has a number. -/
structure RankedBy (a : Arena) (rank : NodeId → Nat) : Prop where
  found : ∀ id, rank id ≠ 0 → ∃ n, a.find? id = some n
  lt : ∀ {id n}, a.find? id = some n → ∀ op ∈ n.readOperands, rank op < rank id
  attained : ∀ {id n}, a.find? id = some n →
    rank id = 1 ∨ ∃ op ∈ n.readOperands, rank op + 1 = rank id

namespace RankedBy

variable {rank : NodeId → Nat}

/-- Numbers that are listed for the nodes. -/
theorem of_list {ranks : List Nat} (hsize : ranks.length = a.size)
    (h : ∀ i : Fin a.size, ∀ n ∈ a.find? ⟨i⟩,
      (∀ op ∈ n.readOperands, ranks.getD op.index 0 < ranks.getD i 0) ∧ (ranks.getD i 0 = 1 ∨
        ∃ op ∈ n.readOperands, ranks.getD op.index 0 + 1 = ranks.getD i 0)) :
    a.RankedBy fun id => ranks.getD id.index 0 where
  found id hid := Option.isSome_iff_exists.1 <| isSome_find?_iff.2 <| not_le.1 fun hle =>
    hid (by rw [List.getD_eq_getElem?_getD, List.getElem?_eq_none (hsize.trans_le hle)]; rfl)
  lt {id n} hn := (h ⟨id.index, isSome_find?_iff.1 (Option.isSome_of_mem hn)⟩ n hn).1
  attained {id n} hn := (h ⟨id.index, isSome_find?_iff.1 (Option.isSome_of_mem hn)⟩ n hn).2

theorem mounts (h : a.RankedBy rank) : a.Mounts fun id => (rank id : ℕ∞) where
  pos {id n} hn := by
    have hpos : 1 ≤ rank id := by
      obtain hone | ⟨op, -, hop⟩ := h.attained hn <;> omega
    exact_mod_cast hpos
  operand hn op hop := by exact_mod_cast h.lt hn op hop

/-- A path goes on to the operand above which a node has the next number. -/
theorem readPath (h : a.RankedBy rank) (hid : rank id = k + 1) : a.ReadPath id (k + 1) := by
  obtain ⟨n, hn⟩ := h.found id (by omega)
  induction k generalizing id n with
  | zero => exact .single hn
  | succ k ih =>
    obtain hone | ⟨op, hop, hrank⟩ := h.attained hn
    · omega
    · obtain ⟨m, hm⟩ := h.found op (by omega)
      exact .cons ⟨n, hn, hop⟩ (ih (by omega) m hm)

theorem readHeight_eq (h : a.RankedBy rank) (id : NodeId) : a.readHeight id = rank id := by
  refine le_antisymm (h.mounts.readHeight_le id) ?_
  cases hid : rank id with
  | zero => exact zero_le
  | succ k => exact (h.readPath hid).le_readHeight

end RankedBy

/-! ### Heights after a change -/

theorem Mounts.change {f : Node → Node} (h : a.Mounts x) (hn : a.find? id = some n)
    (hops : ∀ op ∈ (f n).readOperands, x op + 1 ≤ x id) : (a.change id f).Mounts x where
  pos hm := by
    rcases find?_change_cases hn hm with ⟨rfl, -⟩ | hm
    · exact h.pos hn
    · exact h.pos hm
  operand hm op hop := by
    rcases find?_change_cases hn hm with ⟨rfl, rfl⟩ | hm
    · exact hops op hop
    · exact h.operand hm op hop

/-- The nodes of an arena, and everything with a finite number, have kept their numbers. -/
structure KeepsHeights (a : Arena) (x : NodeId → ℕ∞) (b : Arena) (y : NodeId → ℕ∞) : Prop where
  isSome : ∀ id, (a.find? id).isSome = true → (b.find? id).isSome = true
  old : ∀ id, (a.find? id).isSome = true → y id = x id
  finite : ∀ id, x id ≠ ⊤ → y id = x id

theorem KeepsHeights.refl (a : Arena) (x : NodeId → ℕ∞) : a.KeepsHeights x a x :=
  ⟨fun _ h => h, fun _ _ => rfl, fun _ _ => rfl⟩

theorem KeepsHeights.trans {d : Arena} {z : NodeId → ℕ∞} (h : a.KeepsHeights x b y)
    (h' : b.KeepsHeights y d z) : a.KeepsHeights x d z where
  isSome id hid := h'.isSome id (h.isSome id hid)
  old id hid := (h'.old id (h.isSome id hid)).trans (h.old id hid)
  finite id hid := (h'.finite id (by rwa [h.finite id hid])).trans (h.finite id hid)

/-- What is so much lower than a node stays so much lower. -/
theorem KeepsHeights.add_le (h : a.KeepsHeights x b y) (hid : (a.find? id).isSome = true)
    (hle : x op + c ≤ x id) : y op + c ≤ y id := by
  rw [h.old id hid]
  by_cases hop : x op = ⊤
  · have htop : x id = ⊤ := top_le_iff.1 (by rwa [hop, top_add] at hle)
    exact htop ▸ le_top
  · rwa [h.finite op hop]

end Arena

namespace Reading

open Arena

variable {a b : Arena} {x y : NodeId → ℕ∞} {expr pointer value target s r : NodeId} {n : Node}
  {k k' : NodeKind} {flags : NodeFlags} {span : Span}

/-- The reading by numbers that are at least as large as heights, and infinite for handles without
a node. -/
def heights : Reading (NodeId → ℕ∞) where
  Sound a x := a.Mounts x ∧ ∀ id, x id ≠ ⊤ → (a.find? id).isSome = true
  Fits a x id k := ∃ n, a.find? id = some n ∧
    ∀ op ∈ ({ n with kind := k } : Node).readOperands, x op + 1 ≤ x id
  Stands a x s r := s = r ∨ (a.find? s).isSome = true ∧ x r ≤ x s
  Same _ _ _ _ := True
  Extends a x b y := a.KeepsHeights x b y

theorem heights_le (h : heights.Stands a x s r) : x r ≤ x s := by
  rcases h with rfl | ⟨-, h⟩
  · exact le_rfl
  · exact h

theorem heights_fits_mono (h : heights.Leads a x b y) (hfit : heights.Fits a x expr k) :
    heights.Fits b y expr k := by
  obtain ⟨hev, hkeeps⟩ := h
  obtain ⟨n, hn, hops⟩ := hfit
  obtain ⟨m, hm, hnm⟩ := hev.node expr n hn
  refine ⟨m, hm, fun op hop => hkeeps.add_le (Option.isSome_of_mem hn) (hops op ?_)⟩
  rwa [← Node.readOperands_congr (n := { n with kind := k }) (m := { m with kind := k }) rfl
    hnm.locationWrapper_eq]

theorem heights_stands_mono (h : heights.Leads a x b y) (hs : heights.Stands a x s r) :
    heights.Stands b y s r := by
  rcases hs with rfl | ⟨hsome, hle⟩
  · exact .inl rfl
  · have hle' : y r + 0 ≤ y s := h.2.add_le hsome (by rwa [add_zero])
    exact .inr ⟨h.2.isSome _ hsome, by rwa [add_zero] at hle'⟩

theorem heights_stands_trans {t : NodeId} (h : heights.Stands a x s r)
    (h' : heights.Stands a x r t) : heights.Stands a x s t := by
  rcases h with rfl | ⟨hsome, h⟩
  · exact h'
  · exact .inr ⟨hsome, (heights_le h').trans h⟩

theorem heights_fits_rewritten (hfit : heights.Fits a x expr k)
    (hk : k.Rewritten (heights.Stands a x) k') : heights.Fits a x expr k' := by
  obtain ⟨n, hn, hops⟩ := hfit
  refine ⟨n, hn, fun op hop => ?_⟩
  obtain ⟨s, hs, hstand⟩ := Node.mem_readOperands_rewritten (n := { n with kind := k' }) hk hop
  calc x op + 1 ≤ x s + 1 := by gcongr; exact heights_le hstand
    _ ≤ x expr := hops s hs

theorem heights_rebuild (h : heights.Sound a x) (hn : a.find? expr = some n)
    (hfit : heights.Fits a x expr k)
    (hflags : a.derivedFlags { n with kind := k } = .ok flags) :
    (a.change expr fun n => { n with kind := k, flags := n.flags.union flags }).Mounts x := by
  obtain ⟨m, hm, hops⟩ := hfit
  cases hn.symm.trans hm
  have hw : flags.has .locationWrapper = false :=
    Bool.eq_false_iff.2 fun hw => absurd (flag_of_has_derivedFlags hflags hw) (by decide)
  refine h.1.change hn fun op hop => hops op ?_
  rwa [← Node.readOperands_congr (n := { n with kind := k })
    (m := { n with kind := k, flags := n.flags.union flags }) rfl (by simp [hw])]

/-- A node is changed that keeps its number. -/
theorem heights_change {f : Node → Node} (h : heights.Sound a x)
    (hmounts : (a.change expr f).Mounts x) :
    heights.Sound (a.change expr f) x ∧ heights.Extends a x (a.change expr f) x := by
  have hsome : ∀ id, (a.find? id).isSome = true → ((a.change expr f).find? id).isSome = true :=
    fun _ => find?_isSome_change
  exact ⟨⟨hmounts, fun id hid => hsome id (h.2 id hid)⟩, hsome, fun _ _ => rfl, fun _ _ => rfl⟩

/-- A new node gets any number that is large enough for its operands. -/
theorem heights_append {m : Node} {c : ℕ∞} (h : heights.Sound a x) (hpos : 1 ≤ c)
    (hops : ∀ op ∈ m.readOperands, x op + 1 ≤ c) :
    heights.Sound (a.append m) (Function.update x ⟨a.size⟩ c) ∧
      heights.Extends a x (a.append m) (Function.update x ⟨a.size⟩ c) := by
  have hold : ∀ id, (a.find? id).isSome = true → Function.update x ⟨a.size⟩ c id = x id :=
    fun id hid => Function.update_of_ne (ne_size_of_isSome hid) _ _
  have hkeeps : a.KeepsHeights x (a.append m) (Function.update x ⟨a.size⟩ c) :=
    ⟨fun _ => find?_isSome_append, hold, fun id hid => hold id (h.2 id hid)⟩
  refine ⟨⟨⟨fun hn => ?_, fun hn op hop => ?_⟩, fun id hid => ?_⟩, hkeeps⟩
  · rcases find?_append_cases hn with ⟨rfl, rfl⟩ | hn
    · rwa [Function.update_self]
    · rw [hold _ (Option.isSome_of_mem hn)]
      exact h.1.pos hn
  · rcases find?_append_cases hn with ⟨rfl, rfl⟩ | hn
    · rw [Function.update_self]
      by_cases hfinite : x op = ⊤
      · have htop : c = ⊤ := top_le_iff.1 (by simpa [hfinite] using hops op hop)
        exact htop ▸ le_top
      · rw [hkeeps.finite op hfinite]
        exact hops op hop
    · exact hkeeps.add_le (Option.isSome_of_mem hn) (h.1.operand hn op hop)
  · by_cases hnew : id = ⟨a.size⟩
    · rw [hnew, find?_append_new]
      rfl
    · rw [Function.update_of_ne hnew] at hid
      exact find?_isSome_append (h.2 id hid)

theorem heights_dereference (h : heights.Sound a x)
    (hfit : heights.Fits a x expr (.unary .deref pointer))
    (hs : heights.Stands a x pointer value) :
    let b := a.append ⟨.unary .deref value, some target, flags, span⟩
    ∃ y, heights.Sound b y ∧ heights.Extends a x b y ∧ heights.Stands b y expr ⟨a.size⟩ := by
  intro b
  obtain ⟨n, hn, hops⟩ := hfit
  have hexpr : (a.find? expr).isSome = true := Option.isSome_of_mem hn
  have hnew : heights.Sound b (Function.update x ⟨a.size⟩ (x value + 1)) ∧
      heights.Extends a x b (Function.update x ⟨a.size⟩ (x value + 1)) := by
    refine heights_append h le_add_self fun op hop => ?_
    cases List.mem_singleton.1 hop
    exact le_rfl
  refine ⟨_, hnew.1, hnew.2, .inr ⟨find?_isSome_append hexpr, ?_⟩⟩
  rw [Function.update_self, hnew.2.old expr hexpr]
  calc x value + 1 ≤ x pointer + 1 := by gcongr; exact heights_le hs
    _ ≤ x expr := hops pointer (List.mem_singleton_self _)

theorem heights_reference (hfit : heights.Fits a x expr (.unary .deref pointer))
    (hs : heights.Stands a x pointer value) : heights.Stands a x expr value := by
  obtain ⟨n, hn, hops⟩ := hfit
  refine .inr ⟨Option.isSome_of_mem hn, ?_⟩
  calc x value ≤ x pointer := heights_le hs
    _ ≤ x pointer + 1 := le_self_add
    _ ≤ x expr := hops pointer (List.mem_singleton_self _)

theorem heights_lawful : heights.Lawful where
  extends_refl := KeepsHeights.refl
  extends_trans h h' := h.trans h'
  fits_mono := heights_fits_mono
  stands_mono := heights_stands_mono
  same_mono _ h := h
  stands_refl _ _ _ := .inl rfl
  stands_trans := heights_stands_trans
  same_of_stands _ := trivial
  same_trans _ h := h
  fits_self h hn := ⟨_, hn, h.1.operand hn⟩
  fits_rewritten hfit hk _ := heights_fits_rewritten hfit hk
  unwrap h hn hw := .inr ⟨Option.isSome_of_mem hn,
    le_self_add.trans (h.1.operand hn _ (Node.wrapped?_mem_readOperands hw))⟩
  touch h hn hk _ hf _ _ := heights_change h (h.1.change hn fun op hop => by
    rw [Node.readOperands_congr hk (hf .locationWrapper (by decide))] at hop
    exact h.1.operand hn op hop)
  rebuild h hn hfit _ hflags := heights_change h (heights_rebuild h hn hfit hflags)
  dereference h hfit hs _ _ _ _ := heights_dereference h hfit hs
  reference hfit hs _ _ := heights_reference hfit hs
  access _ _ _ _ _ := trivial
  -- nothing is asked about a node that is built in the place of a conditional or a comma
  reduce h _ _ _ _ _ := by
    obtain ⟨hs, he⟩ := heights_append h le_top fun _ _ => le_top
    exact ⟨_, hs, he, trivial⟩
  nothing _ _ := trivial

end Reading

namespace Arena

variable {a : Arena} {expr : NodeId}

/-- Expressions that are not intact count as infinitely high. -/
theorem exists_heights (h : a.Intact expr) :
    ∃ x, Reading.heights.Sound a x ∧ x expr = a.readHeight expr := by
  classical
  refine ⟨fun id => if a.Intact id then a.readHeight id else ⊤, ⟨⟨fun {id n} hn => ?_,
    fun {id n} hn op hop => ?_⟩, fun id hid => ?_⟩, if_pos h⟩
  · split
    · exact a.mounts_readHeight.pos hn
    · exact le_top
  · by_cases hid : a.Intact id
    · have hbelow : a.Intact op := hid.operand hn hop
      rw [if_pos hid, if_pos hbelow]
      exact a.mounts_readHeight.operand hn op hop
    · rw [if_neg hid]
      exact le_top
  · dsimp only at hid
    split at hid
    · rename_i hintact
      exact hintact id .refl
    · exact absurd rfl hid

end Arena

end ExprTree
