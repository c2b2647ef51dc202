import ExprTree.Arena.Offset
import ExprTree.Proofs.Runs
import ExprTree.Proofs.Typing

/-!
# The address of an element

An offset is either refused, and then nothing has happened, or it is the pointer plus the index
times the size of an element, modulo `2 ^ 64`, whatever its operands stand for.  Constants are
folded on the way, so what stands for the product may be the index itself, a constant or a product,
and what stands for the sum may be the pointer.

* `Arena.Refused` — why there is no address.
* `Arena.offsetPointer_refused` — a call answers the error node exactly then, and builds nothing.
* `Arena.value` — the number that a node stands for, given those of the nodes that were there.
* `Arena.offsetPointer_denotes` — what the answer of any other call stands for.
-/

namespace ExprTree

/-- The operation of folded arithmetic, modulo `2 ^ 64`. -/
def BinaryOp.apply : BinaryOp → BitVec 64 → BitVec 64 → BitVec 64
  | plus | pointerPlus => (· + ·)
  | minus => (· - ·)
  | mult => (· * ·)

namespace Arena

open ExprTree.Action

variable {a b c : Arena} {base index type id r : NodeId} {loc : Span}

/-! ### The size of an element -/

/-- What is known about the elements behind a pointer: its type, their type, and their size. -/
structure Element (a : Arena) (base pointer element : NodeId) (size : Nat) : Prop where
  typeOf : a.typeOf base = .ok (some pointer)
  target : a.indirectTarget? pointer = .ok (some element)
  size : a.sizeInBytes element = .ok (some size)

/-- Why the size of the elements behind a pointer is no signed 64-bit number. -/
inductive Unsized (a : Arena) (base : NodeId) : Prop
  | untyped (h : a.typeOf base = .ok none)
  | erroneous (h : a.typeOf base = .ok (some .error))
  | noPointer {type : NodeId} (h : a.typeOf base = .ok (some type))
    (htarget : a.indirectTarget? type = .ok none)
  | erroneousElement {pointer : NodeId} (h : a.typeOf base = .ok (some pointer))
    (htarget : a.indirectTarget? pointer = .ok (some .error))
  | unknown {pointer element : NodeId} (h : a.typeOf base = .ok (some pointer))
    (htarget : a.indirectTarget? pointer = .ok (some element))
    (hsize : a.sizeInBytes element = .ok none)
  | tooLarge {pointer element : NodeId} {size : Nat} (h : a.Element base pointer element size)
    (hsize : maxStride < size)

/-- The size of an element is known, or there is a reason why not. -/
theorem stride?_cases {stride : Option Int64} (h : a.stride? base = .ok stride) :
    match stride with
    | none => a.Unsized base
    | some stride =>
      ∃ pointer element size, a.Element base pointer element size ∧ stride = .ofNat size := by
  unfold stride? at h
  obtain ⟨_ | pointer, htype, h⟩ := bind_eq_ok_iff.1 h
  · cases h
    exact .untyped htype
  simp only at h
  split at h
  · rename_i herror
    cases h
    exact .erroneous (herror ▸ htype)
  obtain ⟨_ | element, htarget, h⟩ := bind_eq_ok_iff.1 h
  · cases h
    exact .noPointer htype htarget
  simp only at h
  split at h
  · rename_i herror
    cases h
    exact .erroneousElement htype (herror ▸ htarget)
  obtain ⟨_ | size, hsize, h⟩ := bind_eq_ok_iff.1 h
  · cases h
    exact .unknown htype htarget hsize
  simp only at h
  split at h
  · cases h
    exact ⟨pointer, element, size, ⟨htype, htarget, hsize⟩, rfl⟩
  · rename_i hlarge
    cases h
    exact .tooLarge ⟨htype, htarget, hsize⟩ (Nat.lt_of_not_le hlarge)

theorem Unsized.stride?_eq (h : a.Unsized base) : a.stride? base = .ok none := by
  unfold stride?
  cases h with
  | untyped h | erroneous h =>
    rw [h]
    rfl
  | noPointer h htarget => simp [h, htarget, bind, Except.bind, pure, Except.pure]
  | erroneousElement h htarget => simp [h, htarget, bind, Except.bind, pure, Except.pure]
  | unknown h htarget hsize => simp [h, htarget, hsize, bind, Except.bind, pure, Except.pure]
  | tooLarge h hlarge =>
    simp [h.typeOf, h.target, h.size, Nat.not_le.2 hlarge, bind, Except.bind, pure, Except.pure]

/-! ### Arenas with nodes appended -/

/-- All nodes stay as they are, with lists, attributes and names; new nodes stand behind them. -/
structure Prolonged (a b : Arena) : Prop where
  find? : ∀ id n, a.find? id = some n → b.find? id = some n
  lists_eq : b.lists = a.lists
  attributes_eq : b.attributes = a.attributes
  names_eq : b.names = a.names

theorem Prolonged.refl (a : Arena) : a.Prolonged a := ⟨fun _ _ h => h, rfl, rfl, rfl⟩

theorem Prolonged.trans (h : a.Prolonged b) (h' : b.Prolonged c) : a.Prolonged c where
  find? id n hn := h'.find? id n (h.find? id n hn)
  lists_eq := h'.lists_eq.trans h.lists_eq
  attributes_eq := h'.attributes_eq.trans h.attributes_eq
  names_eq := h'.names_eq.trans h.names_eq

theorem Prolonged.size_le (h : a.Prolonged b) : a.size ≤ b.size := by
  refine Nat.le_of_not_lt fun hlt => ?_
  obtain ⟨n, hn⟩ := Option.isSome_iff_exists.1
    (isSome_find?_iff.2 hlt : (a.find? ⟨b.size⟩).isSome = true)
  have hnone : b.find? ⟨b.size⟩ = none := find?_eq_none_iff.2 (Nat.le_refl _)
  cases hnone.symm.trans (h.find? _ n hn)

theorem prolonged_append (a : Arena) (m : Node) : a.Prolonged (a.append m) :=
  ⟨fun _ _ => find?_append_of_some, rfl, rfl, rfl⟩

theorem Prolonged.typeOf (h : a.Prolonged b) {t : Option NodeId} (ht : a.typeOf id = .ok t) :
    b.typeOf id = .ok t := by
  obtain ⟨n, hn, rfl⟩ := map_eq_ok_iff.1 ht
  exact map_node_of_find? (h.find? id n (node_eq_ok_iff.1 hn))

theorem Prolonged.hasEffect (h : a.Prolonged b) {e : Bool} (he : a.hasEffect id = .ok e) :
    b.hasEffect id = .ok e := by
  obtain ⟨n, hn, rfl⟩ := hasEffect_eq_ok_iff.1 he
  exact hasEffect_eq_ok_iff.2 ⟨n, h.find? id n hn, rfl⟩

/-! ### What nodes stand for -/

/-- The number that a node stands for, modulo `2 ^ 64`.  A constant stands for its value, the
conversions to `size_t` and the arithmetic among the nodes from `old` on for what they compute, and
any other node for what the environment gives it. -/
def value (a : Arena) (old : Nat) (env : NodeId → BitVec 64) (id : NodeId) : BitVec 64 :=
  match a.find? id with
  | some ⟨.intConst v, _, _, _⟩ => .ofInt 64 v.toInt
  | some ⟨.unary .convert x, some type, _, _⟩ =>
    if _h : old ≤ id.index ∧ type = .sizeType ∧ x.index < id.index then a.value old env x
    else env id
  | some ⟨.binary op x y, _, _, _⟩ =>
    if _h : old ≤ id.index ∧ x.index < id.index ∧ y.index < id.index then
      op.apply (a.value old env x) (a.value old env y)
    else env id
  | _ => env id
termination_by id.index
decreasing_by all_goals omega

section Value

variable {old : Nat} {env : NodeId → BitVec 64} {n : Node}

theorem value_of_const {v : Int64} (hn : a.find? id = some n) (hk : n.kind = .intConst v) :
    a.value old env id = .ofInt 64 v.toInt := by
  obtain ⟨kind, type, flags, span⟩ := n
  cases hk
  rw [value, hn]

theorem value_of_convert {x : NodeId} (hn : a.find? id = some n) (hk : n.kind = .unary .convert x)
    (ht : n.type = some .sizeType) (hold : old ≤ id.index) (hx : x.index < id.index) :
    a.value old env id = a.value old env x := by
  obtain ⟨kind, type, flags, span⟩ := n
  cases hk
  cases ht
  rw [value, hn]
  exact dif_pos ⟨hold, rfl, hx⟩

theorem value_of_binary {op : BinaryOp} {x y : NodeId} (hn : a.find? id = some n)
    (hk : n.kind = .binary op x y) (hold : old ≤ id.index) (hx : x.index < id.index)
    (hy : y.index < id.index) :
    a.value old env id = op.apply (a.value old env x) (a.value old env y) := by
  obtain ⟨kind, type, flags, span⟩ := n
  cases hk
  rw [value, hn]
  exact dif_pos ⟨hold, hx, hy⟩

/-- Only older nodes count for what a node stands for. -/
theorem Prolonged.value_eq (h : a.Prolonged b) (hid : id.index < a.size) :
    b.value old env id = a.value old env id := by
  induction hi : id.index using Nat.strongRecOn generalizing id with
  | ind i ih =>
    subst hi
    have heq : b.find? id = a.find? id := by
      obtain ⟨n, hn⟩ := Option.isSome_iff_exists.1 (isSome_find?_iff.2 hid)
      rw [hn, h.find? id n hn]
    have hbelow : ∀ x : NodeId, x.index < id.index → b.value old env x = a.value old env x :=
      fun x hx => ih x.index hx (Nat.lt_trans hx hid) rfl
    rw [value, value, heq]
    split
    · rfl
    · split
      · rename_i hx
        exact hbelow _ hx.2.2
      · rfl
    · split
      · rename_i hx
        rw [hbelow _ hx.2.1, hbelow _ hx.2.2]
      · rfl
    · rfl

end Value

/-! ### Folding -/

theorem ofInt_toInt (v : Int64) : BitVec.ofInt 64 v.toInt = v.toBitVec := BitVec.ofInt_toInt

/-- No constant has an effect. -/
def PlainConstants (a : Arena) : Prop :=
  ∀ id n v, a.find? id = some n → n.kind = .intConst v → n.flags.has .effect = false

theorem PlainConstants.append (h : a.PlainConstants) {m : Node}
    (hm : ∀ v, m.kind = .intConst v → m.flags.has .effect = false) :
    (a.append m).PlainConstants := by
  intro id n v hn hk
  rcases find?_append_cases hn with ⟨-, rfl⟩ | hn
  · exact hm v hk
  · exact h id n v hn hk

/-- Arithmetic has an effect where an operand has one. -/
theorem has_effect_of_arithmetic {m : Node} {f : NodeFlags} {ops : List NodeId} {e : Bool}
    (hacc : m.kind.accessesObject = false) (hown : m.kind.hasOwnEffect = false)
    (hun : m.kind.isUnevaluated = false) (hops : m.kind.operands = (ops, .empty))
    (hf : a.derivedFlags m = .ok f) (he : ops.anyM a.hasEffect = .ok e) :
    f.has .effect = e := by
  obtain ⟨v, i, hv, hi, rfl⟩ := derivedFlags_eq_ok_iff.1 hf
  rw [accessesVolatile_eq_false hacc] at hv
  rw [inheritsEffect_eq hun hops, he] at hi
  cases hv
  cases hi
  rw [has_effect_effectFlags, hown]
  rfl

theorem anyM_pair {p : NodeId → Except Fault Bool} {x y : NodeId} {e e' : Bool}
    (hx : p x = .ok e) (hy : p y = .ok e') : [x, y].anyM p = .ok (e || e') := by
  rw [List.anyM, hx]
  cases e with
  | true => rfl
  | false => exact anyM_singleton.trans hy

/-- A node stands for a number, given what the nodes below `old` stand for, and has an effect or
not. -/
structure Computes (a : Arena) (old : Nat) (v : (NodeId → BitVec 64) → BitVec 64) (e : Bool)
    (r : NodeId) (b : Arena) : Prop where
  prolonged : a.Prolonged b
  mem : (b.find? r).isSome = true
  value_eq : ∀ env, b.value old env r = v env
  plain : a.PlainConstants → b.PlainConstants
  hasEffect : a.PlainConstants → b.hasEffect r = .ok e

section Folding

variable {old : Nat} {v w : (NodeId → BitVec 64) → BitVec 64} {e e' : Bool} {x y : NodeId}

theorem Computes.trans (h : a.Prolonged b) (hplain : a.PlainConstants → b.PlainConstants)
    (h' : b.Computes old v e r c) : a.Computes old v e r c where
  prolonged := h.trans h'.prolonged
  mem := h'.mem
  value_eq := h'.value_eq
  plain ha := h'.plain (hplain ha)
  hasEffect ha := h'.hasEffect (hplain ha)

/-- A node still stands for what it stood for when more nodes are there. -/
theorem Computes.prolong (h : a.Computes old v e r b) (hb : b.Prolonged c)
    (hplain : b.PlainConstants → c.PlainConstants) : a.Computes old v e r c where
  prolonged := h.prolonged.trans hb
  mem := by
    obtain ⟨n, hn⟩ := Option.isSome_iff_exists.1 h.mem
    rw [hb.find? r n hn]
    rfl
  value_eq env := by rw [hb.value_eq (isSome_find?_iff.1 h.mem), h.value_eq]
  plain ha := hplain (h.plain ha)
  hasEffect ha := hb.hasEffect (h.hasEffect ha)

/-- A node stands for itself. -/
theorem computes_self {n : Node} (hn : a.find? id = some n) :
    a.Computes old (fun env => a.value old env id) (n.flags.has .effect) id a where
  prolonged := .refl a
  mem := by rw [hn]; rfl
  value_eq _ := rfl
  plain h := h
  hasEffect _ := hasEffect_eq_ok_iff.2 ⟨n, hn, rfl⟩

theorem computes_addConst (a : Arena) (old : Nat) (value : Int64) (type : NodeId) :
    a.Computes old (fun _ => .ofInt 64 value.toInt) false (a.addConst (.intConst value) type).1
      (a.addConst (.intConst value) type).2 where
  prolonged := prolonged_append ..
  mem := by
    show ((a.append _).find? ⟨a.size⟩).isSome = true
    rw [find?_append_new]
    rfl
  value_eq _ := value_of_const (find?_append_new ..) rfl
  plain h := h.append fun _ _ => NodeFlags.has_empty _
  hasEffect _ := hasEffect_eq_ok_iff.2 ⟨_, find?_append_new .., NodeFlags.has_empty _⟩

/-- The value of a conversion is that of its operand. -/
theorem computes_convert (hold : old ≤ b.size) (hx : a.Computes old v e x b) :
    wlp (build (.unary .convert x) (some .sizeType) loc) (a.Computes old v e) b := by
  refine wlp_build fun f hf => ?_
  have hnew := find?_append_new b ⟨.unary .convert x, some .sizeType, f, loc⟩
  have hkeep := hx.prolong (prolonged_append b ⟨.unary .convert x, some .sizeType, f, loc⟩)
    fun h => h.append nofun
  refine ⟨hkeep.prolonged, by rw [hnew]; rfl, fun env => ?_, hkeep.plain, fun ha => ?_⟩
  · rw [value_of_convert hnew rfl rfl hold (isSome_find?_iff.1 hx.mem), hkeep.value_eq]
  · refine hasEffect_eq_ok_iff.2 ⟨_, hnew, ?_⟩
    refine has_effect_of_arithmetic rfl rfl rfl rfl hf (anyM_singleton.trans ?_)
    exact (prolonged_append ..).hasEffect (hx.hasEffect ha)

/-- The value of an operation is that of its operands, combined. -/
theorem computes_binary {op : BinaryOp} {t : Option NodeId} (hold : old ≤ b.size)
    (hx : a.Computes old v e x b) (hy : a.Computes old w e' y b) :
    wlp (build (.binary op x y) t loc)
      (a.Computes old (fun env => op.apply (v env) (w env)) (e || e')) b := by
  refine wlp_build fun f hf => ?_
  have hnew := find?_append_new b ⟨.binary op x y, t, f, loc⟩
  have hprolonged := prolonged_append b ⟨.binary op x y, t, f, loc⟩
  have hkeepx := hx.prolong hprolonged fun h => h.append nofun
  have hkeepy := hy.prolong hprolonged fun h => h.append nofun
  refine ⟨hkeepx.prolonged, by rw [hnew]; rfl, fun env => ?_, hkeepx.plain, fun ha => ?_⟩
  · rw [value_of_binary hnew rfl hold (isSome_find?_iff.1 hx.mem) (isSome_find?_iff.1 hy.mem),
      hkeepx.value_eq, hkeepy.value_eq]
  · refine hasEffect_eq_ok_iff.2 ⟨_, hnew, ?_⟩
    exact has_effect_of_arithmetic rfl rfl rfl rfl hf (anyM_pair
      ((prolonged_append ..).hasEffect (hx.hasEffect ha))
      ((prolonged_append ..).hasEffect (hy.hasEffect ha)))

/-- Nothing is built for a sum with a zero, which has no effect. -/
theorem Computes.add_zero (hx : a.Computes old v e x b) (hy : a.Computes old w e' y b)
    (hzero : b.kindOf y = .ok (.intConst 0)) :
    a.Computes old (fun env => v env + w env) (e || e') x b := by
  obtain ⟨n, hn, hk⟩ := kindOf_eq_ok_iff.1 hzero
  refine { hx with value_eq := fun env => ?_, hasEffect := fun ha => ?_ }
  · rw [hx.value_eq, ← hy.value_eq env, value_of_const hn hk]
    exact (BitVec.add_zero _).symm
  · obtain ⟨m, hm, he⟩ := hasEffect_eq_ok_iff.1 (hy.hasEffect ha)
    cases hn.symm.trans hm
    rw [hx.hasEffect ha, ← he, hy.plain ha y n 0 hn hk, Bool.or_false]

/-- A built node stands behind all others and has the type that it is built with. -/
theorem wlp_build_new {kind : NodeKind} {t : Option NodeId} :
    wlp (build kind t loc) (fun r b => r = ⟨a.size⟩ ∧ b.typeOf r = .ok t) a :=
  wlp_build fun _ _ => ⟨rfl, map_node_of_find? (find?_append_new ..)⟩

theorem foldConvert_computes (hold : old ≤ a.size) :
    wlp (foldConvert id .sizeType loc) (fun r b => ∃ n, a.find? id = some n ∧
      a.Computes old (fun env => a.value old env id) (n.flags.has .effect) r b) a := by
  unfold foldConvert
  rw [wlp_bind, wlp_ask]
  intro n hn
  rw [node_eq_ok_iff] at hn
  suffices h : wlp _ (a.Computes old (fun env => a.value old env id) (n.flags.has .effect)) a from
    h.mono fun _ _ h => ⟨n, hn, h⟩
  split
  · exact wlp_pure.2 (computes_self hn)
  split
  · rename_i value hk
    rw [wlp_modifyGet]
    have hconst := computes_addConst a old value .sizeType
    refine { hconst with value_eq := fun env => ?_, hasEffect := fun ha => ?_ }
    · rw [hconst.value_eq, value_of_const hn hk]
    · rw [hconst.hasEffect ha, ha id n value hn hk]
  · exact computes_convert hold (computes_self hn)

theorem foldMult_computes {factor : Int64} (hold : old ≤ b.size) (hx : a.Computes old v e x b) :
    wlp (foldMult x factor .sizeType loc)
      (a.Computes old (fun env => v env * .ofInt 64 factor.toInt) e) b := by
  unfold foldMult
  split
  · rename_i hone
    refine wlp_pure.2 { hx with value_eq := fun env => ?_ }
    rw [hx.value_eq, hone]
    exact (BitVec.mul_one _).symm
  rw [wlp_bind, wlp_ask]
  intro kind hkind
  obtain ⟨n, hn, hk⟩ := kindOf_eq_ok_iff.1 hkind
  split
  · rename_i value
    rw [wlp_modifyGet]
    have hconst := (computes_addConst b old (value * factor) .sizeType).trans hx.prolonged hx.plain
    refine { hconst with value_eq := fun env => ?_, hasEffect := fun ha => ?_ }
    · rw [hconst.value_eq, ← hx.value_eq env, value_of_const hn hk, ofInt_toInt, ofInt_toInt,
        ofInt_toInt, Int64.toBitVec_mul]
    · obtain ⟨m, hm, he⟩ := hasEffect_eq_ok_iff.1 (hx.hasEffect ha)
      cases hn.symm.trans hm
      rw [hconst.hasEffect ha, ← he, hx.plain ha x n value hn hk]
  · rw [wlp_bind, wlp_modifyGet]
    have hconst := computes_addConst b old factor .sizeType
    have hproduct : wlp (build (.binary .mult x (b.addConst (.intConst factor) .sizeType).1)
        (some .sizeType) loc)
        (a.Computes old (fun env => v env * .ofInt 64 factor.toInt) (e || false))
        (b.addConst (.intConst factor) .sizeType).2 :=
      computes_binary (Nat.le_trans hold hconst.prolonged.size_le)
        (hx.prolong hconst.prolonged hconst.plain) (hconst.trans hx.prolonged hx.plain)
    rwa [Bool.or_false] at hproduct

end Folding

/-! ### Offsets -/

/-- Why there is no address of an element.  An index that only has an erroneous type is no reason:
it is converted like any other. -/
inductive Refused (a : Arena) (base index : NodeId) : Prop
  | base (h : base = .error)
  | index (h : index = .error)
  | unsized (h : a.Unsized base)

/-- The address of an element is built, with the type of the pointer. -/
structure Addresses (a : Arena) (base index r : NodeId) (b : Arena) : Prop where
  not_refused : ¬ a.Refused base index
  ne_error : r ≠ .error
  computes : ∃ pointer element size n m, a.Element base pointer element size ∧
    a.find? base = some n ∧ a.find? index = some m ∧ b.typeOf r = .ok (some pointer) ∧
    a.Computes a.size
      (fun env => a.value a.size env base + a.value a.size env index * .ofNat 64 size)
      (n.flags.has .effect || m.flags.has .effect) r b

/-- An address is refused at once, or it is built. -/
theorem wlp_offsetPointer : wlp (offsetPointer base index loc)
    (fun r b => r = .error ∧ b = a ∧ a.Refused base index ∨ a.Addresses base index r b) a := by
  unfold offsetPointer
  split
  · rename_i h
    exact wlp_pure.2 (.inl ⟨rfl, rfl, h.elim .base .index⟩)
  rename_i herror
  rw [wlp_bind, wlp_ask]
  rintro (_ | stride) hstride
  · exact wlp_pure.2 (.inl ⟨rfl, rfl, .unsized (stride?_cases hstride)⟩)
  have hrefused : ¬ a.Refused base index := by
    rintro (h | h | h)
    · exact herror (.inl h)
    · exact herror (.inr h)
    · cases hstride.symm.trans h.stride?_eq
  obtain ⟨pointer, element, size, helement, rfl⟩ := stride?_cases hstride
  obtain ⟨n, hn, ht⟩ := map_eq_ok_iff.1 helement.typeOf
  rw [node_eq_ok_iff] at hn
  simp only
  rw [wlp_bind]
  refine (foldConvert_computes (Nat.le_refl _)).mono fun x b ⟨m, hm, hx⟩ => ?_
  rw [wlp_bind]
  refine (foldMult_computes hx.prolonged.size_le hx).mono fun y c hy => ?_
  rw [ofInt_toInt, Int64.toBitVec_ofNat'] at hy
  rw [wlp_bind, wlp_ask]
  intro kind hkind
  -- the pointer still stands for itself behind the nodes that have been built for the offset
  have hbase : a.Computes a.size (fun env => a.value a.size env base)
      (n.flags.has .effect) base c := (computes_self hn).prolong hy.prolonged hy.plain
  split
  · rename_i hzero
    exact wlp_pure.2 (.inr ⟨hrefused, fun h => herror (.inl h), pointer, element, size, n, m,
      helement, hn, hm, hbase.prolonged.typeOf helement.typeOf, hbase.add_zero hy (hzero ▸ hkind)⟩)
  · refine wlp_buildLike fun k hk => ?_
    cases (hbase.prolonged.find? base n hn).symm.trans hk
    have hsize : a.size ≤ c.size := hbase.prolonged.size_le
    refine (wlp_build_new.and (computes_binary hsize hbase hy)).mono fun r d ⟨⟨hr, htype⟩, hd⟩ => ?_
    refine .inr ⟨hrefused, fun h => ?_, pointer, element, size, n, m, helement, hn, hm, ?_, hd⟩
    · -- the error node has the first position, and the pointer is a node
      have hpos : 0 < c.size := Nat.lt_of_lt_of_le
        (Nat.lt_of_le_of_lt (Nat.zero_le _) (isSome_find?_iff.1 (by rw [hn]; rfl))) hsize
      exact Nat.ne_of_gt hpos (congrArg NodeId.index (hr.symm.trans h))
    · rw [htype, ht]

/-- A call answers the error node exactly where the address is refused, and then it has done
nothing. -/
theorem offsetPointer_refused :
    offsetPointer base index loc a = .ok .error b ↔ b = a ∧ a.Refused base index := by
  constructor
  · intro hrun
    rcases wlp_offsetPointer _ _ hrun with ⟨-, hb, h⟩ | h
    · exact ⟨hb, h⟩
    · exact absurd rfl h.ne_error
  · rintro ⟨rfl, h⟩
    unfold offsetPointer
    by_cases herror : base = .error ∨ index = .error
    · rw [if_pos herror]
      rfl
    · rw [if_neg herror]
      cases h with
      | base h => exact absurd (.inl h) herror
      | index h => exact absurd (.inr h) herror
      | unsized h =>
        have hask : ask (·.stride? base) b = .ok none b := ask_eq_ok_iff.2 ⟨h.stride?_eq, rfl⟩
        exact bind_eq_of_ok hask

/-- A pointer to an integer, an index with an erroneous type, and a call as an index. -/
def pointerAndIndices : Arena :=
  { Arena.initial with
    nodes := Arena.initial.nodes ++ #[
      ⟨.pointerType .intType, none, .empty, .unknown⟩,
      ⟨.decl .var (.named ⟨0⟩), some ⟨6⟩, .empty, .unknown⟩,
      ⟨.decl .var (.named ⟨0⟩), some .error, .empty, .unknown⟩,
      ⟨.call none .empty, some .intType, .single .effect, .unknown⟩] }

/-- An index with an erroneous type is multiplied by the size of an element all the same, and four
nodes are built for it. -/
theorem offsetPointer_erroneousIndex :
    pointerAndIndices.isErroneous ⟨8⟩ = .ok true ∧
      ∃ b, offsetPointer ⟨7⟩ ⟨8⟩ .unknown pointerAndIndices = .ok ⟨13⟩ b ∧
        b.size = pointerAndIndices.size + 4 ∧ ¬ pointerAndIndices.Refused ⟨7⟩ ⟨8⟩ := by
  refine ⟨rfl, _, rfl, rfl, ?_⟩
  rintro (h | h | h)
  · exact absurd h (by decide)
  · exact absurd h (by decide)
  · cases h.stride?_eq

/-- Whatever the nodes of the arena stand for, the answer of a call that is not refused stands for
the pointer plus the index times the size of an element.  It has the type of the pointer and the
effects of both, and the nodes of the arena are as they were. -/
theorem offsetPointer_denotes (hrun : offsetPointer base index loc a = .ok r b)
    (hr : r ≠ .error) : ∃ pointer element size,
      a.typeOf base = .ok (some pointer) ∧ a.indirectTarget? pointer = .ok (some element) ∧
      a.sizeInBytes element = .ok (some size) ∧
      (∀ env, b.value a.size env r =
        a.value a.size env base + a.value a.size env index * .ofNat 64 size) ∧
      b.typeOf r = a.typeOf base ∧ a.Prolonged b ∧
      (a.PlainConstants → (b.hasEffect r = .ok true ↔
        a.hasEffect base = .ok true ∨ a.hasEffect index = .ok true)) := by
  rcases wlp_offsetPointer _ _ hrun with ⟨rfl, -⟩ | ⟨-, -, h⟩
  · exact absurd rfl hr
  obtain ⟨pointer, element, size, n, m, helement, hn, hm, ht, hvalue⟩ := h
  refine ⟨pointer, element, size, helement.typeOf, helement.target, helement.size, hvalue.value_eq,
    ht.trans helement.typeOf.symm, hvalue.prolonged, fun ha => ?_⟩
  rw [hvalue.hasEffect ha, hasEffect_eq_ok_iff, hasEffect_eq_ok_iff]
  simp [hn, hm]

/-- The address of an element whose index is the result of a call. -/
theorem offsetPointer_denotes_call :
    ∃ b, offsetPointer ⟨7⟩ ⟨9⟩ .unknown pointerAndIndices = .ok ⟨13⟩ b ∧
      (∀ env, b.value pointerAndIndices.size env ⟨13⟩ =
        pointerAndIndices.value pointerAndIndices.size env ⟨7⟩ +
          pointerAndIndices.value pointerAndIndices.size env ⟨9⟩ * 4) ∧
      b.typeOf ⟨13⟩ = pointerAndIndices.typeOf ⟨7⟩ := by
  obtain ⟨b, hrun⟩ : ∃ b, offsetPointer ⟨7⟩ ⟨9⟩ .unknown pointerAndIndices = .ok ⟨13⟩ b := ⟨_, rfl⟩
  obtain ⟨pointer, element, size, hpointer, helement, hsize, hvalue, htype, -⟩ :=
    offsetPointer_denotes hrun (by decide)
  cases hpointer
  cases helement
  cases hsize
  exact ⟨b, hrun, hvalue, htype⟩

end Arena

end ExprTree
