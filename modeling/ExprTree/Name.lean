/-!
# Interned names

Identifiers are interned once per arena, so that two names are compared as numbers.

* `NameTable.intern` — the name of a string, allocated at its first use.
* `NameTable.lookup` — the string behind a name.
-/

namespace ExprTree

/-- The place of a string in a name table. -/
structure Name where
  /-- Position in the table. -/
  index : Nat
  deriving DecidableEq, Repr

namespace Name

/-- The name of the empty string, in every table. -/
def empty : Name := ⟨0⟩

/-- A name as it stands in debug output. -/
def render (n : Name) : String := s!"Name({n.index})"

end Name

/-- The strings interned so far, in the order of their first use. -/
structure NameTable where
  /-- All strings; a name is a position in here. -/
  strings : Array String
  deriving DecidableEq, Repr

namespace NameTable

/-- The table that holds only the empty string. -/
def initial : NameTable := ⟨#[""]⟩

/-- The number of interned strings, the empty one included. -/
def size (t : NameTable) : Nat := t.strings.size

/-- The name of a string, and the table that knows it: an interned string keeps its name, a new
one is appended. -/
def intern (t : NameTable) (s : String) : Name × NameTable :=
  match t.strings.findIdx? (· == s) with
  | some i => (⟨i⟩, t)
  | none => (⟨t.size⟩, ⟨t.strings.push s⟩)

/-- The string of a name; a name from another table may read as the empty string. -/
def lookup (t : NameTable) (n : Name) : String :=
  t.strings.getD n.index ""

end NameTable

end ExprTree
