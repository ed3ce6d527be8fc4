/-
Symbols by the history of what was interned.

A name that is interned for the first time gets the next number, and any other name the one that
it has. So the names in the table are those of the history without repetition, and the symbol of
a name counts those that came before it.
-/

import RubySyntax.Proofs.Interning

namespace RubySyntax

/-- The first of equal items comes after the different items before it. -/
theorem List.getElem?_eraseDups_takeWhile {α : Type} [BEq α] [LawfulBEq α] {items : List α}
    {item : α} (member : item ∈ items) :
    items.eraseDups[(items.takeWhile (· != item)).eraseDups.length]? = some item := by
  obtain ⟨before, after, rfl, absent⟩ := List.eq_append_cons_of_mem member
  have different : ∀ other ∈ before, (other != item) = true := fun other within =>
    bne_iff_ne.mpr fun same => absent (same ▸ within)
  have first : (before ++ item :: after).takeWhile (· != item) = before := by
    rw [List.takeWhile_append_of_pos different, List.takeWhile_cons_of_neg (by simp),
      List.append_nil]
  have unseen : before.contains item = false := by
    rw [List.contains_eq_mem, decide_eq_false absent]
  rw [first, List.eraseDups_append, List.cons_removeAll, if_pos unseen, List.eraseDups_cons,
    List.getElem?_append_right (Nat.le_refl _), Nat.sub_self, List.getElem?_cons_zero]

namespace SymbolTable

variable {table : SymbolTable} {symbol : Symbol} {name : Bytes}

theorem find?_eq_none_iff : table.find? name = none ↔ name ∉ table.names := by
  constructor
  · intro new member
    obtain ⟨index, inside, same⟩ := Array.mem_iff_getElem.mp member
    have found : table.find? name = some ⟨index⟩ :=
      (table.inverse name ⟨index⟩).mpr (Array.getElem?_eq_some_iff.mpr ⟨inside, same⟩)
    rw [new] at found
    cases found
  · intro absent
    cases found : table.find? name with
    | none => rfl
    | some symbol =>
        exact absurd (Array.mem_of_getElem? ((table.inverse name symbol).mp found)) absent

theorem internAll_append (table : SymbolTable) (names later : List Bytes) :
    table.internAll (names ++ later) =
      ((table.internAll names).1 ++ ((table.internAll names).2.internAll later).1,
        ((table.internAll names).2.internAll later).2) := by
  induction names generalizing table with
  | nil => rfl
  | cons name names ih =>
      have rest := ih (table.intern name).2
      rw [List.cons_append]
      change ((table.intern name).1 :: ((table.intern name).2.internAll (names ++ later)).1,
        ((table.intern name).2.internAll (names ++ later)).2) = _
      rw [rest]
      rfl

theorem names_internAll (names : List Bytes) :
    (({} : SymbolTable).internAll names).2.names.toList = names.eraseDups := by
  induction names using List.reverseRecOn with
  | nil => rfl
  | append_singleton names name ih =>
      have held : name ∈ (({} : SymbolTable).internAll names).2.names ↔
          names.contains name = true := by
        rw [← Array.mem_toList_iff, ih, List.mem_eraseDups, List.contains_iff_mem]
      rw [internAll_append, List.eraseDups_concat]
      change (intern _ name).2.names.toList = _
      cases found : (({} : SymbolTable).internAll names).2.find? name with
      | some symbol =>
          have known : names.contains name = true := by
            by_contra unknown
            rw [find?_eq_none_iff.mpr (mt held.mp unknown)] at found
            cases found
          rw [intern_of_find?_eq_some found, if_pos known, ih]
      | none =>
          have unknown := mt held.mpr (find?_eq_none_iff.mp found)
          rw [(intern_of_find?_eq_none found).2, if_neg unknown, Array.toList_push, ih]

section

variable (names : List Bytes)

theorem mem_of_find?_internAll {name : Bytes} {symbol : Symbol}
    (found : (({} : SymbolTable).internAll names).2.find? name = some symbol) : name ∈ names := by
  have held := Array.mem_of_getElem? ((inverse _ name symbol).mp found)
  rwa [← Array.mem_toList_iff, names_internAll, List.mem_eraseDups] at held

/-- A name has a symbol if it was interned, and this is the one that was given for it. -/
theorem find?_internAll_iff (name : Bytes) (symbol : Symbol) :
    (({} : SymbolTable).internAll names).2.find? name = some symbol ↔
      (name, symbol) ∈ names.zip (({} : SymbolTable).internAll names).1 := by
  obtain ⟨counted, issued⟩ := List.forall₂_iff_zip.mp (issued_internAll {} names)
  refine ⟨fun found => ?_, fun given => issued given⟩
  obtain ⟨index, inside, rfl⟩ := List.mem_iff_getElem.mp (mem_of_find?_internAll names found)
  have within : index < (names.zip (({} : SymbolTable).internAll names).1).length := by
    rw [List.length_zip, ← counted, Nat.min_self]
    exact inside
  have given := List.getElem_mem within
  rw [List.getElem_zip] at given
  rw [issued given] at found
  exact Option.some.inj found ▸ given

/-- The symbol of a name is the number of different names before it. -/
theorem index_of_find?_internAll {name : Bytes} {symbol : Symbol}
    (found : (({} : SymbolTable).internAll names).2.find? name = some symbol) :
    symbol.index = (names.takeWhile (· != name)).eraseDups.length := by
  have place := List.getElem?_eraseDups_takeWhile (mem_of_find?_internAll names found)
  rw [← names_internAll, Array.getElem?_toList] at place
  have other : (({} : SymbolTable).internAll names).2.find? name =
      some ⟨(names.takeWhile (· != name)).eraseDups.length⟩ := (inverse _ name _).mpr place
  rw [found] at other
  exact congrArg Symbol.index (Option.some.inj other)

end

/-- Whatever names were interned, in whatever order, the same name was given the same symbol and
different names different ones. A symbol counts the different names interned before its name,
so it is less than the number of them all, and the table leads from it back to the name. The names
that are found are those that were interned, with their symbols. What is interned later leaves
all this as it is. -/
theorem symbols_of_history (names later : List Bytes) :
    let symbols := (({} : SymbolTable).internAll names).1
    let table := (({} : SymbolTable).internAll names).2
    let more := (table.internAll later).1
    let after := (table.internAll later).2
    let issued := names.zip symbols
    (symbols.length = names.length ∧ table.size = names.eraseDups.length) ∧
      (∀ first ∈ issued, ∀ second ∈ issued, first.2 = second.2 ↔ first.1 = second.1) ∧
      (∀ name symbol, (name, symbol) ∈ issued →
        symbol.index = (names.takeWhile (· != name)).eraseDups.length ∧
          symbol.index < names.eraseDups.length ∧ table.name symbol = name) ∧
      (∀ name symbol, table.find? name = some symbol ↔ (name, symbol) ∈ issued) ∧
      ({} : SymbolTable).internAll (names ++ later) = (symbols ++ more, after) ∧
      ∀ name symbol, (name, symbol) ∈ issued →
        after.find? name = some symbol ∧ after.name symbol = name ∧
          after.intern name = (symbol, after) := by
  intro symbols table more after issued
  obtain ⟨counted, -⟩ := List.forall₂_iff_zip.mp (issued_internAll {} names)
  have distinct : table.size = names.eraseDups.length := by
    rw [← names_internAll]
    rfl
  have known := find?_internAll_iff names
  refine ⟨⟨counted.symm, distinct⟩, fun first inFirst second inSecond => ?_,
    fun name symbol given => ?_, known, internAll_append {} names later, fun name symbol given => ?_⟩
  · have left := (known _ _).mpr inFirst
    have right := (known _ _).mpr inSecond
    constructor
    · intro same
      rw [← (find?_eq_some_iff.mp left).2, ← (find?_eq_some_iff.mp right).2, same]
    · intro same
      rw [same, right] at left
      exact (Option.some.inj left).symm
  · have found := (known name symbol).mpr given
    obtain ⟨inside, named⟩ := find?_eq_some_iff.mp found
    exact ⟨index_of_find?_internAll names found, distinct ▸ inside, named⟩
  · have found := (internAll_extends table later).find? ((known name symbol).mpr given)
    exact ⟨found, (find?_eq_some_iff.mp found).2, intern_of_find?_eq_some found⟩

/-- A name that comes again, before and after one that is new. -/
theorem symbols_of_history_repeated :
    let names := [ascii "b", ascii "a", ascii "b", ascii "c"]
    let table := (({} : SymbolTable).internAll names).2
    let after := (table.internAll [ascii "d", ascii "a"]).2
    (ascii "c", ⟨2⟩) ∈ names.zip (({} : SymbolTable).internAll names).1 ∧
      (names.takeWhile (· != ascii "c")).eraseDups.length = 2 ∧
      table.name ⟨2⟩ = ascii "c" ∧ table.find? (ascii "d") = none ∧
      after.find? (ascii "d") = some ⟨3⟩ ∧ after.intern (ascii "c") = (⟨2⟩, after) := by
  intro names table after
  have given : (ascii "c", ⟨2⟩) ∈ names.zip (({} : SymbolTable).internAll names).1 := by decide
  obtain ⟨-, -, numbered, -, -, kept⟩ := symbols_of_history names [ascii "d", ascii "a"]
  obtain ⟨count, -, named⟩ := numbered _ _ given
  exact ⟨given, count.symm, named, by decide, by decide, (kept _ _ given).2.2⟩

end SymbolTable

end RubySyntax
