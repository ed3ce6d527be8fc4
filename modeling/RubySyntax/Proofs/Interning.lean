/-
Names and their symbols.

A name has one symbol, the only one in the table that stands for it, and keeps it while the table
grows. So different symbols of names stand for different names.
-/

import RubySyntax.Session
import RubySyntax.Proofs.Nesting.Program
import RubySyntax.Proofs.Precedence.Step

namespace RubySyntax

namespace SymbolTable

variable {table after : SymbolTable} {symbol other : Symbol} {name : Bytes} {names : List Bytes}
  {symbols : List Symbol}

/-- The symbol of a name is the one that stands for it. -/
theorem find?_eq_some_iff :
    table.find? name = some symbol ↔ symbol.index < table.size ∧ table.name symbol = name := by
  rw [find?, table.inverse, Array.getElem?_eq_some_iff, SymbolTable.name]
  constructor
  · rintro ⟨inside, same⟩
    rw [Array.getElem?_eq_getElem inside]
    exact ⟨inside, same⟩
  · rintro ⟨inside, same⟩
    rw [Array.getElem?_eq_getElem inside] at same
    exact ⟨inside, same⟩

def Extends (after table : SymbolTable) : Prop :=
  ∀ symbol : Symbol, symbol.index < table.size →
    symbol.index < after.size ∧ after.name symbol = table.name symbol

theorem Extends.find? (grows : after.Extends table) (found : table.find? name = some symbol) :
    after.find? name = some symbol := by
  obtain ⟨inside, same⟩ := find?_eq_some_iff.mp found
  obtain ⟨known, kept⟩ := grows symbol inside
  exact find?_eq_some_iff.mpr ⟨known, kept.trans same⟩

theorem intern_extends (table : SymbolTable) (name : Bytes) :
    (table.intern name).2.Extends table :=
  (table.intern_spec name).2.2

theorem find?_intern (table : SymbolTable) (name : Bytes) :
    (table.intern name).2.find? name = some (table.intern name).1 := by
  obtain ⟨known, same, -⟩ := table.intern_spec name
  exact find?_eq_some_iff.mpr ⟨known, same⟩

theorem Extends.trans {first second third : SymbolTable} (late : third.Extends second)
    (early : second.Extends first) : third.Extends first := by
  intro symbol inside
  obtain ⟨known, kept⟩ := early symbol inside
  obtain ⟨still, same⟩ := late symbol known
  exact ⟨still, same.trans kept⟩

def Issued (table : SymbolTable) (names : List Bytes) (symbols : List Symbol) : Prop :=
  names.Forall₂ (fun name symbol => table.find? name = some symbol) symbols

theorem Issued.later (issued : table.Issued names symbols) (grows : after.Extends table) :
    after.Issued names symbols :=
  List.Forall₂.imp (fun _ _ found => grows.find? found) issued

theorem Issued.append {more : List Bytes} {later : List Symbol} (issued : table.Issued names symbols)
    (found : table.Issued more later) : table.Issued (names ++ more) (symbols ++ later) :=
  List.rel_append issued found

theorem internAll_extends (table : SymbolTable) (names : List Bytes) :
    (table.internAll names).2.Extends table := by
  induction names generalizing table with
  | nil => exact fun _ known => ⟨known, rfl⟩
  | cons name names ih => exact (ih _).trans (table.intern_extends name)

theorem issued_internAll (table : SymbolTable) (names : List Bytes) :
    (table.internAll names).2.Issued names (table.internAll names).1 := by
  induction names generalizing table with
  | nil => exact .nil
  | cons name names ih =>
      exact .cons ((internAll_extends _ names).find? (table.find?_intern name)) (ih _)

theorem Issued.map_name (issued : table.Issued names symbols) : symbols.map table.name = names := by
  induction issued with
  | nil => rfl
  | cons found _ ih => rw [List.map_cons, ih, (find?_eq_some_iff.mp found).2]

theorem Issued.injective (issued : table.Issued names symbols) :
    ∀ left ∈ symbols, ∀ right ∈ symbols, table.name left = table.name right → left = right := by
  have own : ∀ symbol ∈ symbols, table.find? (table.name symbol) = some symbol := by
    induction issued with
    | nil => nofun
    | cons found _ ih =>
        rw [List.forall_mem_cons, (find?_eq_some_iff.mp found).2]
        exact ⟨found, ih⟩
  intro left inLeft right inRight same
  have found := own left inLeft
  rw [same, own right inRight] at found
  exact (Option.some.inj found).symm

end SymbolTable

end RubySyntax
