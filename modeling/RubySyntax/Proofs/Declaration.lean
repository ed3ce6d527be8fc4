/-
Names declared in one scope.

A list of names that are declared one after the other leaves the list without its duplicates, each
name where it was declared first.
-/

import Mathlib.Data.List.Induction
import RubySyntax.Scope

namespace RubySyntax

/-! ### Names without their duplicates -/

section

variable {α β : Type} [BEq α] [LawfulBEq α] [BEq β] [LawfulBEq β]

theorem List.eraseDups_concat (items : List α) (item : α) :
    (items ++ [item]).eraseDups =
      if items.contains item then items.eraseDups else items.eraseDups ++ [item] := by
  rw [List.eraseDups_append, List.removeAll, List.filter_cons, List.filter_nil, List.elem_eq_contains]
  cases items.contains item with
  | true => exact List.append_nil _
  | false => rfl

theorem List.eraseDups_map_of_injective {f : α → β} (items : List α)
    (injective : ∀ left ∈ items, ∀ right ∈ items, f left = f right → left = right) :
    (items.map f).eraseDups = items.eraseDups.map f := by
  induction items using List.reverseRecOn with
  | nil => rfl
  | append_singleton items item ih =>
      have known : (items.map f).contains (f item) = items.contains item := by
        rw [Bool.eq_iff_iff, List.contains_iff_mem, List.contains_iff_mem]
        refine ⟨fun member => ?_, List.mem_map_of_mem⟩
        obtain ⟨other, within, same⟩ := List.mem_map.mp member
        have equal := injective other (List.mem_append_left _ within) item
          (List.mem_append_right _ List.mem_cons_self) same
        exact equal ▸ within
      have earlier := ih fun left inLeft right inRight =>
        injective left (List.mem_append_left _ inLeft) right (List.mem_append_left _ inRight)
      rw [List.map_append, List.map_singleton, List.eraseDups_concat, List.eraseDups_concat, known,
        earlier]
      split
      · rfl
      · rw [List.map_append, List.map_singleton]

end

namespace ScopeStack

theorem exists_foldl_declare (names : List Symbol) (scopes : ScopeStack) :
    ∃ locals, names.foldl declare scopes =
      { scopes with current := { scopes.current with locals } } := by
  induction names generalizing scopes with
  | nil => exact ⟨scopes.current.locals, rfl⟩
  | cons name names ih =>
      obtain ⟨locals, same⟩ := ih (scopes.declare name)
      refine ⟨locals, same.trans ?_⟩
      unfold declare
      split <;> rfl

/-- Names that are declared again stay where they were declared first. -/
theorem locals_foldl_declare (names given : List Symbol) (scopes : ScopeStack)
    (declared : scopes.locals = given.eraseDups) :
    (names.foldl declare scopes).locals = (given ++ names).eraseDups := by
  induction names using List.reverseRecOn with
  | nil => rw [List.append_nil]; exact declared
  | append_singleton names name ih =>
      have known : (names.foldl declare scopes).current.locals.contains name =
          (given ++ names).contains name := by
        rw [Bool.eq_iff_iff, List.contains_iff_mem, List.contains_iff_mem]
        change name ∈ (names.foldl declare scopes).locals ↔ _
        rw [ih, List.mem_eraseDups]
      rw [List.foldl_append, List.foldl_cons, List.foldl_nil, ← List.append_assoc,
        List.eraseDups_concat, declare, known]
      split
      · exact ih
      · rw [← ih]
        rfl

theorem current_kind_foldl_declare (names : List Symbol) (scopes : ScopeStack) :
    (names.foldl declare scopes).current.kind = scopes.current.kind := by
  obtain ⟨_, same⟩ := exists_foldl_declare names scopes
  rw [same]

theorem frames_foldl_declare (names : List Symbol) (scopes : ScopeStack)
    (empty : scopes.locals = []) :
    (names.foldl declare scopes).frames =
      ⟨scopes.current.kind, names.eraseDups⟩ :: scopes.enclosing := by
  have declared := locals_foldl_declare names [] scopes empty
  obtain ⟨locals, same⟩ := exists_foldl_declare names scopes
  rw [same] at declared ⊢
  rw [frames, ← show locals = names.eraseDups from declared]

end ScopeStack

end RubySyntax
