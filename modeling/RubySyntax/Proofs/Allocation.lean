/-
The slots of the store, whatever was asked of it before.

Nodes are stored and given back in any order, and the slots that are given back may be any:
in use, empty already, or never handed out. What one request keeps is said of all requests,
and the number of slots is followed along with the most nodes that were alive at one time.
-/

import Mathlib.Data.List.Induction
import Mathlib.Order.Bounds.Basic
import RubySyntax.Proofs.Store

namespace RubySyntax

inductive ArenaRequest where
  | alloc (node : Node)
  | recycle (id : NodeId)
deriving DecidableEq, Repr, Inhabited

namespace Arena

variable {arena after : Arena} {id : NodeId} {node : Node}

def serve (arena : Arena) : ArenaRequest → Arena
  | .alloc node => ((arena.alloc node).map Prod.snd).getD arena
  | .recycle id => arena.recycle id

def serveAll (arena : Arena) (requests : List ArenaRequest) : Arena :=
  requests.foldl serve arena

/-- Each slot is counted once, as that of a node or as an empty one. -/
structure Accounted (arena : Arena) : Prop where
  live : arena.live = arena.slots.countP Option.isSome
  limited : arena.live ≤ arena.limit
  distinct : arena.free.Nodup
  listed : ∀ id, id ∈ arena.free ↔ arena.slots[id.slot]? = some none
  total : arena.live + arena.free.length = arena.slotCount

/-! ### One slot -/

theorem countP_isSome_setIfInBounds {slots : Array (Option Node)} {slot : Nat}
    {before : Option Node} (held : slots[slot]? = some before) (content : Option Node) :
    (slots.setIfInBounds slot content).countP Option.isSome + before.toList.length =
      slots.countP Option.isSome + content.toList.length := by
  obtain ⟨inside, held⟩ := Array.getElem?_eq_some_iff.mp held
  rw [Array.setIfInBounds, dif_pos inside, Array.countP_set inside, held]
  cases before with
  | none => cases content <;> simp
  | some node =>
      have positive : 0 < slots.countP Option.isSome :=
        Array.countP_pos_iff.mpr ⟨some node, held ▸ Array.getElem_mem inside, rfl⟩
      cases content <;> simp <;> omega

/-- A node takes one slot, and all others are as before. -/
theorem alloc_slots (taken : arena.alloc node = some (id, after)) :
    ∀ slot ≠ id.slot, after.slots[slot]? = arena.slots[slot]? := by
  intro slot other
  obtain ⟨-, -, ⟨-, rfl, -, slots⟩ | ⟨-, slots⟩⟩ := alloc_eq_some taken
  · rw [slots, Array.getElem?_push, if_neg other]
  · rw [slots, Array.getElem?_setIfInBounds_ne other.symm]

/-- Taking back the slot of a node empties it, and all others are as before. -/
theorem recycle_slots (found : arena.get? id = some node) :
    (arena.recycle id).slots = arena.slots.setIfInBounds id.slot none := by
  unfold recycle
  rw [found]

theorem recycle_of_get?_eq_none (empty : arena.get? id = none) : arena.recycle id = arena := by
  unfold recycle
  rw [empty]

/-! ### One request -/

theorem serve_alloc_of_none (refused : arena.alloc node = none) :
    arena.serve (.alloc node) = arena := by
  simp [serve, refused]

theorem serve_alloc_of_some (taken : arena.alloc node = some (id, after)) :
    arena.serve (.alloc node) = after := by
  simp [serve, taken]

theorem limit_serve (arena : Arena) (request : ArenaRequest) :
    (arena.serve request).limit = arena.limit := by
  cases request with
  | alloc node =>
      cases taken : arena.alloc node with
      | none => rw [serve_alloc_of_none taken]
      | some answer =>
          rw [serve_alloc_of_some taken]
          exact (alloc_eq_some taken).2.1
  | recycle id => exact limit_recycle arena id

namespace Accounted

theorem freeSound (accounted : arena.Accounted) : arena.FreeSound :=
  ⟨accounted.distinct, fun id => (accounted.listed id).mp⟩

theorem withLimit (limit : Nat) : (Arena.withLimit limit).Accounted where
  live := rfl
  limited := Nat.zero_le limit
  distinct := List.nodup_nil
  listed id := by simp [Arena.withLimit]
  total := rfl

/-- A store is full exactly when as many nodes are alive as it may hold. -/
theorem alloc_eq_none_iff (accounted : arena.Accounted) :
    arena.alloc node = none ↔ arena.live = arena.limit :=
  alloc_eq_none.trans accounted.limited.ge_iff_eq

theorem alloc (accounted : arena.Accounted) (taken : arena.alloc node = some (id, after)) :
    after.Accounted := by
  have room : arena.live < arena.limit := by
    by_contra full
    rw [alloc_eq_none.mpr (Nat.le_of_not_lt full)] at taken
    cases taken
  obtain ⟨live, limit, ⟨none, rfl, free, slots⟩ | ⟨first, slots⟩⟩ := alloc_eq_some taken
  · have total := accounted.total
    rw [none, slotCount] at total
    refine ⟨?_, by omega, free ▸ List.nodup_nil, fun other => ?_, ?_⟩
    · rw [live, slots, Array.countP_push, accounted.live]
      rfl
    · have before := accounted.listed other
      rw [none] at before
      rw [free, slots, Array.getElem?_push, before]
      split
      · next last =>
          rw [last, Array.getElem?_eq_none (Nat.le_refl _)]
          simp
      · rfl
    · rw [live, free, slotCount, slots, Array.size_push]
      exact congrArg Nat.succ total
  · have empty := (accounted.listed id).mp (first ▸ List.mem_cons_self)
    have distinct := accounted.distinct
    have total := accounted.total
    rw [first] at distinct total
    refine ⟨?_, by omega, (List.nodup_cons.mp distinct).2, fun other => ?_, ?_⟩
    · have counted := countP_isSome_setIfInBounds empty (some node)
      rw [live, slots, accounted.live]
      exact counted.symm
    · by_cases same : other = id
      · subst same
        have used : after.slots[other.slot]? = some (some node) := by
          rw [slots]
          exact Array.getElem?_setIfInBounds_self_of_lt (Array.getElem?_eq_some_iff.mp empty).1
        rw [used]
        exact iff_of_false (List.nodup_cons.mp distinct).1 (by simp)
      · rw [alloc_slots taken _ (slot_ne same), ← accounted.listed, first, List.mem_cons,
          or_iff_right same]
    · rw [slotCount, slots, Array.size_setIfInBounds]
      rw [List.length_cons, slotCount] at total
      omega

theorem recycle (accounted : arena.Accounted) (id : NodeId) : (arena.recycle id).Accounted := by
  cases found : arena.get? id with
  | none => exact (recycle_of_get?_eq_none found).symm ▸ accounted
  | some node =>
      have held : arena.slots[id.slot]? = some (some node) := Option.join_eq_some_iff.mp found
      have counted : (arena.slots.setIfInBounds id.slot none).countP Option.isSome + 1 =
          arena.live := (countP_isSome_setIfInBounds held none).trans accounted.live.symm
      have used : id ∉ arena.free := by
        rw [accounted.listed, held]
        simp
      have limited := accounted.limited
      have total := accounted.total
      unfold Arena.recycle
      rw [found]
      refine ⟨Nat.sub_eq_of_eq_add counted.symm, Nat.le_trans (Nat.sub_le _ _) limited,
        List.nodup_cons.mpr ⟨used, accounted.distinct⟩, fun other => ?_, ?_⟩
      · rw [List.mem_cons, Array.getElem?_setIfInBounds, accounted.listed]
        by_cases same : other = id
        · subst same
          simp [(Array.getElem?_eq_some_iff.mp held).1]
        · rw [if_neg (slot_ne same).symm, or_iff_right same]
      · rw [slotCount] at total ⊢
        rw [Array.size_setIfInBounds, List.length_cons]
        dsimp only
        omega

theorem serve (accounted : arena.Accounted) (request : ArenaRequest) :
    (arena.serve request).Accounted := by
  cases request with
  | alloc node =>
      cases taken : arena.alloc node with
      | none => exact (serve_alloc_of_none taken).symm ▸ accounted
      | some answer => exact (serve_alloc_of_some taken).symm ▸ accounted.alloc taken
  | recycle id => exact accounted.recycle id

/-- There is a new slot only where as many nodes are alive as there are slots. -/
theorem slotCount_serve (accounted : arena.Accounted) (request : ArenaRequest) :
    (arena.serve request).slotCount = max arena.slotCount (arena.serve request).live := by
  have total := accounted.total
  cases request with
  | alloc node =>
      cases taken : arena.alloc node with
      | none =>
          rw [serve_alloc_of_none taken]
          omega
      | some answer =>
          rw [serve_alloc_of_some taken]
          obtain ⟨live, -, ⟨none, -, -, slots⟩ | ⟨first, slots⟩⟩ := alloc_eq_some taken
          · rw [none, List.length_nil] at total
            have more : answer.2.slotCount = arena.slotCount + 1 := by
              rw [slotCount, slots, Array.size_push]
              rfl
            omega
          · rw [first, List.length_cons] at total
            have same : answer.2.slotCount = arena.slotCount := by
              rw [slotCount, slots, Array.size_setIfInBounds]
              rfl
            omega
  | recycle id =>
      have after := (accounted.recycle id).total
      have kept := (arena.slots_kept id).1
      change (arena.recycle id).slotCount = max arena.slotCount (arena.recycle id).live
      omega

end Accounted

/-! ### All requests -/

theorem serveAll_append_singleton (arena : Arena) (requests : List ArenaRequest)
    (request : ArenaRequest) :
    arena.serveAll (requests ++ [request]) = (arena.serveAll requests).serve request := by
  simp [serveAll]

theorem Accounted.serveAll (accounted : arena.Accounted) (requests : List ArenaRequest) :
    (arena.serveAll requests).Accounted := by
  induction requests using List.reverseRecOn with
  | nil => exact accounted
  | append_singleton requests request ih =>
      rw [serveAll_append_singleton]
      exact ih.serve request

theorem limit_serveAll (arena : Arena) (requests : List ArenaRequest) :
    (arena.serveAll requests).limit = arena.limit := by
  induction requests using List.reverseRecOn with
  | nil => rfl
  | append_singleton requests request ih =>
      rw [serveAll_append_singleton, limit_serve, ih]

/-- From an empty store on, there are as many slots as nodes were ever alive together. -/
theorem slotCount_serveAll (limit : Nat) (requests : List ArenaRequest) :
    IsGreatest {live | ∃ past, past <+: requests ∧ ((withLimit limit).serveAll past).live = live}
      ((withLimit limit).serveAll requests).slotCount := by
  induction requests using List.reverseRecOn with
  | nil =>
      refine ⟨⟨[], List.prefix_rfl, rfl⟩, ?_⟩
      rintro _ ⟨past, before, rfl⟩
      rw [List.prefix_nil.mp before]
      exact Nat.le_refl 0
  | append_singleton requests request ih =>
      obtain ⟨⟨most, before, reached⟩, bound⟩ := ih
      have grown := ((Accounted.withLimit limit).serveAll requests).slotCount_serve request
      rw [← serveAll_append_singleton] at grown
      rw [grown]
      constructor
      · rcases Nat.le_total ((withLimit limit).serveAll (requests ++ [request])).live
          ((withLimit limit).serveAll requests).slotCount with fewer | more
        · rw [Nat.max_eq_left fewer]
          exact ⟨most, before.trans (List.prefix_append requests [request]), reached⟩
        · rw [Nat.max_eq_right more]
          exact ⟨requests ++ [request], List.prefix_rfl, rfl⟩
      · rintro live ⟨past, before, rfl⟩
        rcases List.prefix_concat_iff.mp before with rfl | before
        · exact Nat.le_max_right _ _
        · exact Nat.le_trans (bound ⟨past, before, rfl⟩) (Nat.le_max_left _ _)

/-- Whatever was stored and given back, the count of nodes is that of the slots in use and
within the limit, and the empty slots are listed once each. There are as many slots as nodes
were ever alive together. A node is refused exactly when the limit is reached, and then nothing
changes; it is given a slot that was not in use. No other slot changes, and taking back what
is not in use changes none. -/
theorem slots_accounted (limit : Nat) (requests : List ArenaRequest) :
    let arena := (withLimit limit).serveAll requests
    (arena.live = arena.slots.countP Option.isSome ∧ arena.live ≤ limit) ∧
      (arena.free.Nodup ∧ ∀ id, id ∈ arena.free ↔ arena.slots[id.slot]? = some none) ∧
      IsGreatest {live | ∃ past, past <+: requests ∧
        ((withLimit limit).serveAll past).live = live} arena.slotCount ∧
      (∀ node, (arena.alloc node = none ↔ arena.live = limit) ∧
        (arena.live = limit → arena.serve (.alloc node) = arena) ∧
        ∀ id after, arena.alloc node = some (id, after) →
          arena.get? id = none ∧ after.get? id = some node ∧
            ∀ slot ≠ id.slot, after.slots[slot]? = arena.slots[slot]?) ∧
      ∀ id, (arena.get? id = none → arena.recycle id = arena) ∧
        (arena.recycle id).get? id = none ∧
          ∀ slot ≠ id.slot, (arena.recycle id).slots[slot]? = arena.slots[slot]? := by
  intro arena
  have accounted : arena.Accounted := (Accounted.withLimit limit).serveAll requests
  have limited : arena.limit = limit := limit_serveAll _ requests
  refine ⟨⟨accounted.live, limited ▸ accounted.limited⟩, ⟨accounted.distinct, accounted.listed⟩,
    slotCount_serveAll limit requests, fun node => ⟨?_, fun full => ?_, ?_⟩,
    fun id => ⟨recycle_of_get?_eq_none, ?_, fun slot other => ?_⟩⟩
  · rw [accounted.alloc_eq_none_iff, limited]
  · rw [← limited] at full
    exact serve_alloc_of_none (accounted.alloc_eq_none_iff.mpr full)
  · intro id after taken
    obtain ⟨empty, -, puts⟩ := alloc_spec accounted.freeSound taken
    exact ⟨empty, puts.at_slot, alloc_slots taken⟩
  · exact (recycle_spec accounted.freeSound id).2.at_slot
  · cases found : arena.get? id with
    | none => rw [recycle_of_get?_eq_none found]
    | some node => rw [recycle_slots found, Array.getElem?_setIfInBounds_ne other.symm]

/-- A slot that is taken back twice, after the limit was reached, is given to one node only. -/
theorem slots_accounted_taken_back_twice :
    let node : Node := ⟨.leaf .nilValue, .point 0, 1, 0⟩
    let arena := (withLimit 2).serveAll
      [.alloc node, .alloc node, .alloc node, .recycle ⟨0⟩, .recycle ⟨0⟩, .recycle ⟨5⟩]
    let after : Arena := { slots := #[some node, some node], live := 2, limit := 2 }
    arena.live = 1 ∧ arena.free = [⟨0⟩] ∧ arena.slotCount = 2 ∧
      arena.alloc node = some (⟨0⟩, after) ∧ after.alloc node = none ∧
      arena.get? ⟨0⟩ = none ∧ after.get? ⟨0⟩ = some node ∧
        ∀ slot ≠ 0, after.slots[slot]? = arena.slots[slot]? := by
  intro node arena after
  have counted : arena.live = 1 ∧ arena.free = [⟨0⟩] ∧ arena.slotCount = 2 := by
    decide +kernel
  have taken : arena.alloc node = some (⟨0⟩, after) := by
    decide +kernel
  obtain ⟨-, -, -, allocs, -⟩ := slots_accounted 2
    [.alloc node, .alloc node, .alloc node, .recycle ⟨0⟩, .recycle ⟨0⟩, .recycle ⟨5⟩]
  obtain ⟨empty, held, others⟩ := (allocs node).2.2 ⟨0⟩ after taken
  exact ⟨counted.1, counted.2.1, counted.2.2, taken, rfl, empty, held, others⟩

end Arena

end RubySyntax
