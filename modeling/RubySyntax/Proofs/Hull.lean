/-
Hulls of ranges.

The hull of two ranges does not say which came first, but for two dummies, of which the left one
stays. As the hull of a list starts from a dummy, this makes no difference there, and the order
of a list does not matter.
-/

import Mathlib.Data.List.Induction
import Mathlib.Data.List.Perm.Basic
import Mathlib.Order.Bounds.Basic
import RubySyntax.Proofs.Returns

namespace RubySyntax

namespace Span

variable {left right span : Span} {spans others : List Span}

theorem isDummy_eq_false_iff : span.isDummy = false ↔ span.start ≤ span.stop := by
  rw [isDummy, decide_eq_false_iff_not, Nat.not_lt]

/-! ### Two ranges -/

theorem hull_of_isDummy (nothing : right.isDummy = true) : left.hull right = left :=
  if_pos nothing

theorem hull_of_left_isDummy (place : right.isDummy = false) (nothing : left.isDummy = true) :
    left.hull right = right := by
  rw [hull, place, nothing]
  rfl

theorem hull_of_places (first : left.isDummy = false) (second : right.isDummy = false) :
    left.hull right = ⟨min left.start right.start, max left.stop right.stop⟩ := by
  rw [hull, first, second]
  rfl

theorem isDummy_hull (left right : Span) :
    (left.hull right).isDummy = (left.isDummy && right.isDummy) := by
  cases second : right.isDummy with
  | true => rw [hull_of_isDummy second, Bool.and_true]
  | false =>
      rw [Bool.and_false]
      cases first : left.isDummy with
      | true => rw [hull_of_left_isDummy second first, second]
      | false =>
          rw [hull_of_places first second]
          rw [isDummy_eq_false_iff] at first second ⊢
          dsimp only
          omega

theorem hull_assoc (first second third : Span) :
    (first.hull second).hull third = first.hull (second.hull third) := by
  cases last : third.isDummy with
  | true => rw [hull_of_isDummy last, hull_of_isDummy last]
  | false =>
      cases middle : second.isDummy with
      | true => rw [hull_of_isDummy middle, hull_of_left_isDummy last middle]
      | false =>
          have later : (second.hull third).isDummy = false := by rw [isDummy_hull, middle]; rfl
          cases start : first.isDummy with
          | true => rw [hull_of_left_isDummy middle start, hull_of_left_isDummy later start]
          | false =>
              have earlier : (first.hull second).isDummy = false := by
                rw [isDummy_hull, start]
                rfl
              rw [hull_of_places earlier last, hull_of_places start later,
                hull_of_places start middle, hull_of_places middle last, Nat.min_assoc,
                Nat.max_assoc]

/-- Only two dummies can be told apart by their order. -/
theorem hull_comm (place : left.isDummy = false ∨ right.isDummy = false) :
    left.hull right = right.hull left := by
  cases first : left.isDummy with
  | true =>
      have second := place.resolve_left (by rw [first]; nofun)
      rw [hull_of_left_isDummy second first, hull_of_isDummy first]
  | false =>
      cases second : right.isDummy with
      | true => rw [hull_of_isDummy second, hull_of_left_isDummy first second]
      | false =>
          rw [hull_of_places first second, hull_of_places second first, Nat.min_comm, Nat.max_comm]

theorem hull_right_comm (first second third : Span) :
    (first.hull second).hull third = (first.hull third).hull second := by
  rw [hull_assoc, hull_assoc]
  by_cases place : second.isDummy = false ∨ third.isDummy = false
  · rw [hull_comm place]
  · obtain ⟨middle, last⟩ := not_or.mp place
    have both (left right : Span) (nothing : left.isDummy ≠ false) (more : right.isDummy ≠ false) :
        first.hull (left.hull right) = first := by
      rw [hull_of_isDummy (eq_true_of_ne_false more), hull_of_isDummy (eq_true_of_ne_false nothing)]
    rw [both _ _ middle last, both _ _ last middle]

/-! ### Lists of ranges -/

theorem hullAll_concat (spans : List Span) (span : Span) :
    hullAll (spans ++ [span]) = (hullAll spans).hull span := by
  rw [hullAll, List.foldl_append]
  rfl

theorem hullAll_eq_dummy (nothing : ∀ span ∈ spans, span.isDummy = true) :
    hullAll spans = dummy := by
  induction spans using List.reverseRecOn with
  | nil => rfl
  | append_singleton spans span ih =>
      obtain ⟨before, last⟩ := List.forall_mem_append.mp nothing
      rw [hullAll_concat, hull_of_isDummy (last span List.mem_cons_self), ih before]

theorem hullAll_perm (same : spans.Perm others) : hullAll spans = hullAll others :=
  have : RightCommutative hull := ⟨hull_right_comm⟩
  same.foldl_eq dummy

theorem hullAll_append (spans others : List Span) :
    hullAll (spans ++ others) = (hullAll spans).hull (hullAll others) := by
  induction others using List.reverseRecOn with
  | nil => rw [List.append_nil]; exact (hull_of_isDummy rfl).symm
  | append_singleton others span ih =>
      rw [← List.append_assoc, hullAll_concat, ih, hullAll_concat, hull_assoc]

def places (spans : List Span) : Set Span :=
  {span | span ∈ spans ∧ span.isDummy = false}

theorem places_concat_of_isDummy (nothing : span.isDummy = true) :
    places (spans ++ [span]) = places spans := by
  ext other
  simp only [places, Set.mem_ofPred_eq, List.mem_append, List.mem_singleton]
  constructor
  · rintro ⟨member | rfl, place⟩
    · exact ⟨member, place⟩
    · rw [nothing] at place
      cases place
  · rintro ⟨member, place⟩
    exact ⟨.inl member, place⟩

theorem places_concat (place : span.isDummy = false) :
    places (spans ++ [span]) = insert span (places spans) := by
  ext other
  simp only [places, Set.mem_ofPred_eq, List.mem_append, List.mem_singleton, Set.mem_insert_iff]
  constructor
  · rintro ⟨member | rfl, other⟩
    · exact .inr ⟨member, other⟩
    · exact .inl rfl
  · rintro (rfl | ⟨member, other⟩)
    · exact ⟨.inr rfl, place⟩
    · exact ⟨.inl member, other⟩

/-- The hull of a list that has a place goes from the least start to the greatest end. -/
theorem hullAll_of_places (some : (places spans).Nonempty) :
    (hullAll spans).isDummy = false ∧
      IsLeast (start '' places spans) (hullAll spans).start ∧
      IsGreatest (stop '' places spans) (hullAll spans).stop := by
  induction spans using List.reverseRecOn with
  | nil =>
      obtain ⟨span, member, -⟩ := some
      cases member
  | append_singleton spans span ih =>
      rw [hullAll_concat]
      cases last : span.isDummy with
      | true =>
          rw [places_concat_of_isDummy last] at some ⊢
          rw [hull_of_isDummy last]
          exact ih some
      | false =>
          rw [places_concat last, Set.image_insert_eq, Set.image_insert_eq]
          rcases (places spans).eq_empty_or_nonempty with none | before
          · have nothing : hullAll spans = dummy := hullAll_eq_dummy fun other member => by
              by_contra place
              exact Set.eq_empty_iff_forall_notMem.mp none other
                ⟨member, eq_false_of_ne_true place⟩
            rw [nothing, hull_of_left_isDummy last rfl, none, Set.image_empty, Set.image_empty,
              insert_empty_eq, insert_empty_eq]
            exact ⟨last, isLeast_singleton, isGreatest_singleton⟩
          · obtain ⟨place, least, greatest⟩ := ih before
            have both : (hullAll spans).hull span =
                ⟨min span.start (hullAll spans).start, max span.stop (hullAll spans).stop⟩ := by
              rw [hull_comm (.inl place), hull_of_places last place]
            refine ⟨by rw [isDummy_hull, place, last]; rfl, ?_, ?_⟩
            · rw [both]
              exact least.insert _
            · rw [both]
              exact greatest.insert _

end Span

namespace Scan

variable {state : State} {items others : List NodeId} {nodes : List Node}

/-! ### The ranges of nodes -/

theorem mapM_spanOf_ran (held : items.Forall₂ (fun id node => state.arena.get? id = some node) nodes) :
    Ran (items.mapM spanOf) state (.ok (nodes.map (·.span)) state) := by
  induction held with
  | nil => exact ran_pure []
  | cons found _ ih =>
      rw [List.mapM_cons]
      exact (spanOf_ran found).bind (ih.bind (ran_pure _))

theorem mapM_spanOf_ran_empty (empty : ∃ id ∈ items, state.arena.get? id = none) :
    Ran (items.mapM spanOf) state (.error (.fault .emptySlot) state) := by
  induction items with
  | nil =>
      obtain ⟨id, member, -⟩ := empty
      cases member
  | cons first items ih =>
      rw [List.mapM_cons]
      cases found : state.arena.get? first with
      | none => exact (spanOf_ran_empty found).bind_error
      | some node =>
          refine (spanOf_ran found).bind (ih ?_).bind_error
          obtain ⟨id, member, missing⟩ := empty
          rcases List.mem_cons.mp member with rfl | later
          · rw [found] at missing
            cases missing
          · exact ⟨id, later, missing⟩

theorem spanOfAll_ran (held : items.Forall₂ (fun id node => state.arena.get? id = some node) nodes) :
    Ran (spanOfAll items) state (.ok (Span.hullAll (nodes.map (·.span))) state) :=
  (mapM_spanOf_ran held).bind (ran_pure _)

theorem spanOfAll_ran_empty (empty : ∃ id ∈ items, state.arena.get? id = none) :
    Ran (spanOfAll items) state (.error (.fault .emptySlot) state) :=
  (mapM_spanOf_ran_empty empty).bind_error

theorem spanOfAll_perm (same : items.Perm others) : spanOfAll items = spanOfAll others := by
  funext state
  by_cases empty : ∃ id ∈ items, state.arena.get? id = none
  · obtain ⟨id, member, missing⟩ := empty
    exact (spanOfAll_ran_empty ⟨id, member, missing⟩).trans
      (spanOfAll_ran_empty ⟨id, same.mem_iff.mp member, missing⟩).symm
  · have held : ∀ id ∈ items, ∃ node, state.arena.get? id = some node := fun id member =>
      Option.ne_none_iff_exists'.mp fun missing => empty ⟨id, member, missing⟩
    choose! node found using held
    have listed (ids : List NodeId) (within : ∀ id ∈ ids, id ∈ items) :
        Ran (spanOfAll ids) state (.ok (Span.hullAll ((ids.map node).map (·.span))) state) :=
      spanOfAll_ran (List.forall₂_map_right_iff.mpr
        (List.forall₂_same.mpr fun id member => found id (within id member)))
    have spans := Span.hullAll_perm ((same.map node).map (·.span))
    rw [listed items fun _ => id, listed others fun _ => same.mem_iff.mpr, spans]

end Scan

namespace Span

/-- Hulls can be taken in any grouping. A dummy on the right changes nothing, and the dummy on
the left nothing but another dummy, so the hull of a list is put together from those of its
parts. It is the dummy if nothing else is in the list, and otherwise goes from the least start to
the greatest end of what is. So the range of a list of nodes is the same in whatever order they
stand. -/
theorem hullAll_laws :
    (∀ first second third : Span,
        (first.hull second).hull third = first.hull (second.hull third)) ∧
      (∀ span : Span,
        span.hull dummy = span ∧ dummy.hull span = if span.isDummy then dummy else span) ∧
      (∀ spans others : List Span,
        hullAll (spans ++ others) = (hullAll spans).hull (hullAll others)) ∧
      (∀ spans : List Span,
        ((∀ span ∈ spans, span.isDummy = true) → hullAll spans = dummy) ∧
          ((∃ span ∈ spans, span.isDummy = false) →
            IsLeast (start '' {span | span ∈ spans ∧ span.isDummy = false})
                (hullAll spans).start ∧
              IsGreatest (stop '' {span | span ∈ spans ∧ span.isDummy = false})
                (hullAll spans).stop)) ∧
      (∀ spans others : List Span, spans.Perm others → hullAll spans = hullAll others) ∧
      (∀ (state : State) (items : List NodeId) (nodes : List Node),
        items.Forall₂ (fun id node => state.arena.get? id = some node) nodes →
          Scan.spanOfAll items state = .ok (hullAll (nodes.map (·.span))) state) ∧
      ∀ items others : List NodeId,
        items.Perm others → Scan.spanOfAll items = Scan.spanOfAll others := by
  refine ⟨hull_assoc, fun span => ⟨hull_of_isDummy rfl, ?_⟩, hullAll_append,
    fun spans => ⟨hullAll_eq_dummy, fun ⟨span, place⟩ => (hullAll_of_places ⟨span, place⟩).2⟩,
    fun _ _ => hullAll_perm, fun _ _ _ => Scan.spanOfAll_ran, fun _ _ => Scan.spanOfAll_perm⟩
  cases nothing : span.isDummy with
  | true => exact hull_of_isDummy nothing
  | false => exact hull_of_left_isDummy nothing rfl

/-- Two dummies between places, in two orders. -/
theorem hullAll_laws_dummies :
    let spans : List Span := [⟨7, 2⟩, ⟨4, 6⟩, ⟨9, 0⟩, ⟨1, 3⟩]
    let swapped : List Span := [⟨9, 0⟩, ⟨1, 3⟩, ⟨7, 2⟩, ⟨4, 6⟩]
    spans.Perm swapped ∧ (⟨4, 6⟩ ∈ spans ∧ isDummy ⟨4, 6⟩ = false) ∧
      hullAll spans = ⟨1, 6⟩ ∧ hullAll swapped = ⟨1, 6⟩ ∧
      (⟨7, 2⟩ : Span).hull ⟨9, 0⟩ ≠ (⟨9, 0⟩ : Span).hull ⟨7, 2⟩ := by
  intro spans swapped
  have order : spans.Perm swapped := by decide
  obtain ⟨-, -, -, -, same, -⟩ := hullAll_laws
  have whole : hullAll spans = ⟨1, 6⟩ := by decide
  exact ⟨order, by decide, whole, (same spans swapped order).symm.trans whole, by decide⟩

end Span

end RubySyntax
