import Mathlib.Data.List.Dedup
import ExprTree.Arena.Basic

/-!
# Interned names

Names and strings correspond one to one, and stay what they are: a table only grows, and only by
strings it does not have.

* `NameTable.intern_cases` — what interning a string does.
* `NameTable.Distinct` — no string has two names.
* `IndexedNames` — a table that finds the name of a string without a search, as long as names are
  32-bit numbers; `IndexedNames.intern_follows` keeps it in step with a `NameTable`.
* `NameTable.intern_stable` — names and strings over all runs of interning.
-/

namespace ExprTree

namespace NameTable

variable {t u : NameTable} {s x : String} {n : Name} {i : Nat}

/-! ### One string -/

theorem lookup_of_getElem? (h : t.strings[n.index]? = some s) : t.lookup n = s := by
  rw [lookup, Array.getD_eq_getD_getElem?, h, Option.getD_some]

theorem getElem?_lookup (h : n.index < t.size) : t.strings[n.index]? = some (t.lookup n) := by
  rw [lookup, Array.getD_eq_getD_getElem?, Array.getElem?_eq_getElem h, Option.getD_some]

/-- A string that is there has a name, and the table stays; a new one is put behind the others. -/
theorem intern_cases (t : NameTable) (s : String) :
    (t.strings[(t.intern s).1.index]? = some s ∧ (t.intern s).2 = t) ∨
      (s ∉ t.strings ∧ t.intern s = (⟨t.size⟩, ⟨t.strings.push s⟩)) := by
  cases hfound : t.strings.findIdx? (· == s) with
  | some i =>
    obtain ⟨hi, hs, -⟩ := Array.findIdx?_eq_some_iff_getElem.1 hfound
    have hintern : t.intern s = (⟨i⟩, t) := by rw [intern, hfound]
    rw [hintern]
    exact .inl ⟨by rw [Array.getElem?_eq_getElem hi, eq_of_beq hs], rfl⟩
  | none =>
    refine .inr ⟨fun hs => ?_, by rw [intern, hfound]⟩
    exact absurd (Array.findIdx?_eq_none_iff.1 hfound s hs) (by simp)

theorem getElem?_intern (t : NameTable) (s : String) :
    (t.intern s).2.strings[(t.intern s).1.index]? = some s := by
  rcases intern_cases t s with ⟨hs, hsame⟩ | ⟨-, hnew⟩
  · rw [hsame, hs]
  · rw [hnew]
    exact Array.getElem?_push_size

/-- A table has a string exactly after it was interned. -/
theorem mem_intern : x ∈ (t.intern s).2.strings ↔ x = s ∨ x ∈ t.strings := by
  rcases intern_cases t s with ⟨hs, hsame⟩ | ⟨-, hnew⟩
  · rw [hsame, iff_or_self]
    rintro rfl
    exact Array.mem_of_getElem? hs
  · rw [hnew, Array.mem_push, or_comm]

/-- Interning adds a string that is not there, and nothing else. -/
theorem size_intern (t : NameTable) (s : String) :
    (t.intern s).2.size = t.size + if s ∈ t.strings then 0 else 1 := by
  rcases intern_cases t s with ⟨hs, hsame⟩ | ⟨hs, hnew⟩
  · rw [hsame, if_pos (Array.mem_of_getElem? hs)]
    rfl
  · rw [hnew, if_neg hs]
    exact Array.size_push s

/-! ### Tables that grow -/

/-- Every name of one table stands for the same string in another. -/
def Extends (t u : NameTable) : Prop :=
  ∀ (i : Nat) (s : String), t.strings[i]? = some s → u.strings[i]? = some s

theorem Extends.lookup_eq (h : t.Extends u) (hn : n.index < t.size) : u.lookup n = t.lookup n :=
  lookup_of_getElem? (h _ _ (getElem?_lookup hn))

theorem extends_intern (t : NameTable) (s : String) : t.Extends (t.intern s).2 := by
  intro i x hx
  rcases intern_cases t s with ⟨-, hsame⟩ | ⟨-, hnew⟩
  · rw [hsame, hx]
  · have hi : i < t.strings.size := (Array.getElem?_eq_some_iff.1 hx).1
    rw [hnew, Array.getElem?_push_lt hi, ← hx, Array.getElem?_eq_getElem hi]

/-- The table after strings were interned one by one. -/
def internAll (t : NameTable) (calls : List String) : NameTable :=
  calls.foldl (fun t s => (t.intern s).2) t

theorem extends_internAll (t : NameTable) (calls : List String) :
    t.Extends (t.internAll calls) := by
  induction calls generalizing t with
  | nil => exact fun _ _ h => h
  | cons s calls ih => exact fun i x h => ih (t.intern s).2 i x (extends_intern t s i x h)

theorem size_le_internAll (t : NameTable) (calls : List String) :
    t.size ≤ (t.internAll calls).size := by
  induction calls generalizing t with
  | nil => exact Nat.le_refl _
  | cons s calls ih =>
    have hs : t.size ≤ (t.intern s).2.size := by
      rw [size_intern]
      exact Nat.le_add_right _ _
    exact Nat.le_trans hs (ih (t.intern s).2)

theorem mem_internAll {calls : List String} :
    x ∈ (t.internAll calls).strings ↔ x ∈ calls ∨ x ∈ t.strings := by
  induction calls generalizing t with
  | nil => simp [internAll]
  | cons s calls ih =>
    refine (ih (t := (t.intern s).2)).trans ?_
    rw [mem_intern, List.mem_cons, or_left_comm, or_assoc]

/-! ### One name for a string -/

/-- No string has two names, and the empty string has the first. -/
structure Distinct (t : NameTable) : Prop where
  nodup : t.strings.toList.Nodup
  empty : t.strings[0]? = some ""

theorem distinct_initial : initial.Distinct where
  nodup := by decide
  empty := rfl

theorem Distinct.intern (h : t.Distinct) (s : String) : (t.intern s).2.Distinct where
  nodup := by
    rcases intern_cases t s with ⟨-, hsame⟩ | ⟨hs, hnew⟩
    · rw [hsame]
      exact h.nodup
    · rw [hnew, Array.toList_push]
      refine h.nodup.append (List.nodup_singleton s) fun x hx hxs => hs ?_
      rw [← List.mem_singleton.1 hxs]
      exact Array.mem_toList_iff.1 hx
  empty := extends_intern t s 0 "" h.empty

theorem Distinct.internAll (h : t.Distinct) (calls : List String) :
    (t.internAll calls).Distinct := by
  induction calls generalizing t with
  | nil => exact h
  | cons s calls ih => exact ih (h.intern s)

theorem Distinct.index_inj (h : t.Distinct) {j : Nat} (hi : t.strings[i]? = some s)
    (hj : t.strings[j]? = some s) : i = j := by
  obtain ⟨hlength, -⟩ := Array.getElem?_eq_some_iff.1 hi
  rw [← Array.length_toList] at hlength
  refine (List.getElem?_inj hlength h.nodup).1 ?_
  rw [Array.getElem?_toList, Array.getElem?_toList, hi, hj]

/-- Interning the string of a name gives the name, and changes nothing. -/
theorem Distinct.intern_eq (h : t.Distinct) (hs : t.strings[n.index]? = some s) :
    t.intern s = (n, t) := by
  rcases intern_cases t s with ⟨hs', hsame⟩ | ⟨hnew, -⟩
  · refine Prod.ext ?_ hsame
    exact congrArg Name.mk (h.index_inj hs' hs)
  · exact absurd (Array.mem_of_getElem? hs) hnew

/-- Whatever was interned since, a string has the name it got. -/
theorem Distinct.intern_eq_iff (h : t.Distinct) (later : List String) :
    (((t.intern s).2.internAll later).intern x).1 = (t.intern s).1 ↔ x = s := by
  have hlater : ((t.intern s).2.internAll later).Distinct := (h.intern s).internAll later
  have hs := extends_internAll (t.intern s).2 later _ _ (getElem?_intern t s)
  constructor
  · intro hname
    have hx := getElem?_intern ((t.intern s).2.internAll later) x
    have hs' := extends_intern ((t.intern s).2.internAll later) x _ _ hs
    rw [hname, hs'] at hx
    exact (Option.some.inj hx).symm
  · rintro rfl
    rw [hlater.intern_eq hs]

theorem mem_internAll_initial {calls : List String} :
    x ∈ (initial.internAll calls).strings ↔ x ∈ "" :: calls := by
  rw [mem_internAll, List.mem_cons, or_comm]
  simp [initial]

/-- A table has as many names as there were different strings, the empty one among them. -/
theorem size_internAll_initial (calls : List String) :
    (initial.internAll calls).size = ("" :: calls).dedup.length := by
  have hperm : (initial.internAll calls).strings.toList.Perm ("" :: calls).dedup := by
    refine (List.perm_ext_iff_of_nodup (distinct_initial.internAll calls).nodup
      (List.nodup_dedup _)).2 fun x => ?_
    rw [List.mem_dedup, Array.mem_toList_iff, mem_internAll_initial]
  rw [← hperm.length_eq, Array.length_toList]
  rfl

end NameTable

/-! ### Names beside the strings -/

/-- A name table with the names beside the strings, so that a string is found without a search. -/
structure IndexedNames where
  /-- The name of every string. -/
  names : Std.HashMap String Name
  /-- All strings; a name is a position in here. -/
  strings : Array String

namespace IndexedNames

variable {x x' : IndexedNames} {t : NameTable} {s : String} {n : Name}

/-- The table that holds only the empty string. -/
def initial : IndexedNames := ⟨(∅ : Std.HashMap String Name).insert "" .empty, #[""]⟩

/-- The largest 32-bit number. -/
def maxIndex : Nat := 0xFFFFFFFF

/-- The name of a string, and the table that knows it; no string is new behind the largest name. -/
def intern (x : IndexedNames) (s : String) : Except Fault (Name × IndexedNames) :=
  match x.names[s]? with
  | some n => .ok (n, x)
  | none =>
    if x.strings.size ≤ maxIndex then
      .ok (⟨x.strings.size⟩, ⟨x.names.insert s ⟨x.strings.size⟩, x.strings.push s⟩)
    else .error .overflow

/-- The table after strings were interned one by one. -/
def internAll (x : IndexedNames) : List String → Except Fault IndexedNames
  | [] => .ok x
  | s :: calls => (x.intern s).bind fun answer => answer.2.internAll calls

/-- The strings are those of a table, and the names are their positions there. -/
structure Follows (x : IndexedNames) (t : NameTable) : Prop where
  strings : x.strings = t.strings
  names : ∀ (s : String) (n : Name), x.names[s]? = some n ↔ t.strings[n.index]? = some s

theorem follows_initial : initial.Follows .initial where
  strings := rfl
  names := by
    intro s n
    have hstrings : NameTable.initial.strings = (#[] : Array String).push "" := rfl
    rw [initial, Std.HashMap.getElem?_insert, hstrings, Array.getElem?_push]
    simp only [beq_iff_eq, Std.HashMap.getElem?_empty, Array.size_empty, Array.getElem?_empty]
    constructor
    · intro h
      split at h
      · cases h
        subst s
        rfl
      · cases h
    · intro h
      split at h
      · rename_i hn
        cases h
        rw [if_pos rfl]
        exact congrArg some (congrArg Name.mk hn.symm)
      · cases h

/-- A name that is there is found; a new one is found from then on, as long as there is room. -/
theorem intern_follows (h : x.Follows t) (ht : t.Distinct)
    (hroom : s ∈ t.strings ∨ t.size ≤ maxIndex) :
    ∃ x', x.intern s = .ok ((t.intern s).1, x') ∧ x'.Follows (t.intern s).2 := by
  unfold intern
  split
  · rename_i n hn
    rw [ht.intern_eq ((h.names s n).1 hn)]
    exact ⟨x, rfl, h⟩
  · rename_i hnone
    have hs : s ∉ t.strings := by
      intro hs
      obtain ⟨i, hi⟩ := Array.mem_iff_getElem?.1 hs
      have hfound := (h.names s ⟨i⟩).2 hi
      rw [hnone] at hfound
      cases hfound
    have hsize : x.strings.size = t.size := by rw [h.strings]; rfl
    rcases NameTable.intern_cases t s with ⟨hold, -⟩ | ⟨-, hnew⟩
    · exact absurd (Array.mem_of_getElem? hold) hs
    · rw [if_pos (Nat.le_trans (Nat.le_of_eq hsize) (hroom.resolve_left hs)), hsize, hnew]
      refine ⟨_, rfl, ⟨congrArg (Array.push · s) h.strings, fun y n => ?_⟩⟩
      rw [Std.HashMap.getElem?_insert, Array.getElem?_push]
      by_cases hy : s = y
      · -- the new string has the new name, and no other
        subst hy
        rw [if_pos (beq_self_eq_true s)]
        constructor
        · intro hn
          exact if_pos (congrArg Name.index (Option.some.inj hn)).symm
        · intro hn
          split at hn
          · rename_i hindex
            exact congrArg some (congrArg Name.mk hindex.symm)
          · exact absurd (Array.mem_of_getElem? hn) hs
      · have hne : ¬ (s == y) = true := fun heq => hy (eq_of_beq heq)
        rw [if_neg hne, h.names y n]
        split
        · rename_i hindex
          rw [hindex]
          have hend : t.strings[t.strings.size]? = none := Array.getElem?_size
          rw [hend]
          exact iff_of_false (by simp) fun heq => hy (Option.some.inj heq)
        · rfl

/-- A table without room refuses a new string. -/
theorem intern_full (h : x.Follows t) (hs : s ∉ t.strings) (hfull : maxIndex < t.size) :
    x.intern s = .error .overflow := by
  have hsize : x.strings.size = t.size := by rw [h.strings]; rfl
  unfold intern
  split
  · rename_i n hn
    exact absurd (Array.mem_of_getElem? ((h.names s n).1 hn)) hs
  · rw [if_neg (by omega)]

theorem internAll_follows {calls : List String} (h : x.Follows t) (ht : t.Distinct)
    (hroom : (t.internAll calls).size ≤ maxIndex + 1) :
    ∃ x', x.internAll calls = .ok x' ∧ x'.Follows (t.internAll calls) := by
  induction calls generalizing x t with
  | nil => exact ⟨x, rfl, h⟩
  | cons s calls ih =>
    have hrest : (t.intern s).2.size ≤ maxIndex + 1 :=
      Nat.le_trans (NameTable.size_le_internAll _ calls) hroom
    have hs : s ∈ t.strings ∨ t.size ≤ maxIndex := by
      rw [NameTable.size_intern] at hrest
      split at hrest
      · exact .inl ‹_›
      · exact .inr (by omega)
    obtain ⟨x', hx', hfollows⟩ := intern_follows h ht hs
    obtain ⟨x'', hx'', hlast⟩ := ih hfollows (ht.intern s) hroom
    refine ⟨x'', ?_, hlast⟩
    rw [internAll, hx']
    exact hx''

end IndexedNames

namespace NameTable

/-- In the table after any run of interning:

* no string stands twice;
* a string reads back from its name, and a name below the size is that of its string and of no
  other, whatever is interned later;
* the table grows by one for a string that was never interned, and only then; the empty string has
  the first name all along;
* the names are found without a search: while there are no more than 2 ^ 32 different strings, a
  table with the names beside the strings does not fail, gives every string the same name, and its
  two sides are inverse to each other. -/
theorem intern_stable (calls : List String) :
    let t := initial.internAll calls
    t.strings.toList.Nodup ∧
    (∀ s later, ((t.intern s).2.internAll later).lookup (t.intern s).1 = s) ∧
    (∀ n later, n.index < t.size → (t.internAll later).lookup n = t.lookup n ∧
      (t.internAll later).intern (t.lookup n) = (n, t.internAll later)) ∧
    (∀ s later s', (((t.intern s).2.internAll later).intern s').1 = (t.intern s).1 ↔ s' = s) ∧
    (∀ s, (t.intern s).2.size = t.size + if s ∈ "" :: calls then 0 else 1) ∧
    t.intern "" = (.empty, t) ∧
    t.size = ("" :: calls).dedup.length ∧
    (("" :: calls).dedup.length ≤ IndexedNames.maxIndex + 1 →
      ∃ x, IndexedNames.initial.internAll calls = .ok x ∧ x.Follows t ∧
        ∀ s, if s ∈ "" :: calls ∨ ("" :: calls).dedup.length ≤ IndexedNames.maxIndex then
            ∃ x', x.intern s = .ok ((t.intern s).1, x') ∧ x'.Follows (t.intern s).2
          else x.intern s = .error .overflow) := by
  intro t
  have ht : t.Distinct := distinct_initial.internAll calls
  refine ⟨ht.nodup, fun s later => ?_, fun n later hn => ?_, fun s later s' => ?_, fun s => ?_, ?_,
    size_internAll_initial calls, fun hfew => ?_⟩
  · exact lookup_of_getElem? (extends_internAll _ later _ _ (getElem?_intern t s))
  · have hkept := extends_internAll t later
    exact ⟨hkept.lookup_eq hn, (ht.internAll later).intern_eq (hkept _ _ (getElem?_lookup hn))⟩
  · exact ht.intern_eq_iff later
  · rw [size_intern]
    simp only [t, mem_internAll_initial]
  · exact ht.intern_eq ht.empty
  · rw [← size_internAll_initial] at hfew
    obtain ⟨x, hx, hfollows⟩ :=
      IndexedNames.internAll_follows IndexedNames.follows_initial distinct_initial hfew
    refine ⟨x, hx, hfollows, fun s => ?_⟩
    split
    · rename_i hroom
      rw [← mem_internAll_initial, ← size_internAll_initial] at hroom
      exact IndexedNames.intern_follows hfollows ht hroom
    · rename_i hfull
      rw [← mem_internAll_initial, ← size_internAll_initial, not_or, Nat.not_le] at hfull
      exact IndexedNames.intern_full hfollows hfull.1 hfull.2

/-- The names of a new arena come from such a run. -/
example : Arena.initial.names = initial.internAll ["int", "size_t"] := by decide +kernel

/-- Two strings, one of them interned again, and the empty string. -/
theorem intern_stable_pair :
    (initial.internAll ["x", "y", "x", ""]).lookup ⟨2⟩ = "y" ∧
      ((initial.internAll ["x", "y", "x", ""]).internAll ["z"]).lookup ⟨2⟩ = "y" := by
  have hy : (initial.internAll ["x", "y", "x", ""]).lookup ⟨2⟩ = "y" := by decide +kernel
  have hsize : 2 < (initial.internAll ["x", "y", "x", ""]).size := by decide +kernel
  exact ⟨hy, ((intern_stable ["x", "y", "x", ""]).2.2.1 ⟨2⟩ ["z"] hsize).1.trans hy⟩

end NameTable

end ExprTree
