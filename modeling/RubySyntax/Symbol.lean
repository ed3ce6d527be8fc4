/-
Interned names.

A symbol is the number of distinct names interned before it. The table keeps
the names in order of first interning, and apart from them the symbol of each
name, by which a name is looked up. Each of the two is the inverse of the other.

Symbols have no bound here; as 32-bit numbers they are the same for up to 2^32
names.
-/

import RubySyntax.Text.Utf8

namespace RubySyntax

structure Symbol where
  index : Nat
deriving DecidableEq, Repr, Inhabited

namespace Symbol

def describe (symbol : Symbol) : String :=
  "Symbol(" ++ toString symbol.index ++ ")"

end Symbol

theorem SymbolTable.inverse_empty (name : Bytes) (symbol : Symbol) :
    ([] : List (Bytes × Symbol)).lookup name = some symbol ↔
      (#[] : Array Bytes)[symbol.index]? = some name := by
  simp

/-- The names interned so far, in order of first interning, and the symbol of
each, the last one first. -/
structure SymbolTable where
  names : Array Bytes := #[]
  symbols : List (Bytes × Symbol) := []
  inverse : ∀ name symbol,
    symbols.lookup name = some symbol ↔ names[symbol.index]? = some name := by
      exact SymbolTable.inverse_empty
deriving DecidableEq, Repr

namespace SymbolTable

instance : Inhabited SymbolTable := ⟨{}⟩

def size (table : SymbolTable) : Nat :=
  table.names.size

def isEmpty (table : SymbolTable) : Bool :=
  table.names.isEmpty

def find? (table : SymbolTable) (name : Bytes) : Option Symbol :=
  table.symbols.lookup name

theorem inverse_add (table : SymbolTable) {added : Bytes} (new : table.find? added = none)
    (name : Bytes) (symbol : Symbol) :
    ((added, ⟨table.size⟩) :: table.symbols).lookup name = some symbol ↔
      (table.names.push added)[symbol.index]? = some name := by
  have known := table.inverse name symbol
  rw [List.lookup_cons, Array.getElem?_push]
  by_cases same : name = added
  · subst same
    have absent : table.names[symbol.index]? ≠ some name := fun present => by
      rw [find?, known.mpr present] at new
      cases new
    obtain ⟨index⟩ := symbol
    rw [beq_self_eq_true]
    by_cases last : index = table.names.size
    · subst last
      simp [size]
    · simp [last, absent, size, Ne.symm last]
  · have other : (name == added) = false := beq_eq_false_iff_ne.mpr same
    rw [other, known]
    by_cases last : symbol.index = table.names.size
    · simp [last, Ne.symm same]
    · simp [last]

def intern (table : SymbolTable) (name : Bytes) : Symbol × SymbolTable :=
  match new : table.find? name with
  | some symbol => (symbol, table)
  | none =>
      let symbol : Symbol := ⟨table.size⟩
      (symbol,
        { names := table.names.push name
          symbols := (name, symbol) :: table.symbols
          inverse := table.inverse_add new })

theorem intern_of_find?_eq_some {table : SymbolTable} {name : Bytes} {symbol : Symbol}
    (found : table.find? name = some symbol) : table.intern name = (symbol, table) := by
  unfold intern
  split
  · next other same =>
      rw [found] at same
      cases same
      rfl
  · next new =>
      rw [found] at new
      cases new

theorem intern_of_find?_eq_none {table : SymbolTable} {name : Bytes}
    (new : table.find? name = none) :
    (table.intern name).1 = ⟨table.size⟩ ∧
      (table.intern name).2.names = table.names.push name := by
  unfold intern
  split
  · next symbol found =>
      rw [new] at found
      cases found
  · exact ⟨rfl, rfl⟩

/-- The bytes of a name; empty for a symbol that the table never issued. -/
def name (table : SymbolTable) (symbol : Symbol) : Bytes :=
  (table.names[symbol.index]?).getD []

def text (table : SymbolTable) (symbol : Symbol) : String :=
  Utf8.read (table.name symbol)

end SymbolTable

end RubySyntax
