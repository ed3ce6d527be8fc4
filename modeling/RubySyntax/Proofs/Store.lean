/-
The store of nodes as a graph.

What a slot holds after each operation is said once, here. The rest of the
theory speaks of the nodes that are alive, of the children of a node, and of
paths from a node downwards.
-/

import Mathlib.Logic.Relation
import Mathlib.Data.List.Nodup
import Mathlib.Data.List.Perm.Subperm
import RubySyntax.Tree.Dump

namespace RubySyntax

open Relation (TransGen ReflTransGen)

theorem NodeId.slot_injective : Function.Injective NodeId.slot := by
  rintro ⟨left⟩ ⟨right⟩ same
  exact congrArg NodeId.mk same

/-! ### Relations without cycles -/

def Acyclic (relation : NodeId → NodeId → Prop) : Prop :=
  ∀ id, ¬TransGen relation id id

/-- Every path that starts at a node has at most a number of nodes. -/
def Bounded (relation : NodeId → NodeId → Prop) : Nat → NodeId → Prop
  | 0, _ => False
  | length + 1, id => ∀ child, relation id child → Bounded relation length child

namespace Acyclic

variable {relation changed : NodeId → NodeId → Prop}

theorem mono (acyclic : Acyclic relation)
    (fewer : ∀ parent child, changed parent child → relation parent child) :
    Acyclic changed :=
  fun id cycle => acyclic id (TransGen.mono fewer id id cycle)

/-- A path to a node whose own children alone have changed was there before. -/
theorem reaches_of_changed {node : NodeId}
    (others : ∀ parent child, changed parent child → parent = node ∨ relation parent child)
    {id : NodeId} (path : ReflTransGen changed id node) : ReflTransGen relation id node := by
  induction path using ReflTransGen.head_induction_on with
  | refl => exact .refl
  | head step _ ih =>
      rcases others _ _ step with rfl | kept
      · exact .refl
      · exact .head kept ih

/-- A path in the changed relation avoids the changed node, or it leaves that
node for the last time through one of its new children. -/
theorem reach_of_changed {node : NodeId}
    (others : ∀ parent child, changed parent child → parent = node ∨ relation parent child)
    {first last : NodeId} (path : ReflTransGen changed first last) :
    ReflTransGen relation first last ∨
      (ReflTransGen relation first node ∧
        ∃ child, changed node child ∧ ReflTransGen relation child last) := by
  induction path with
  | refl => exact .inl .refl
  | tail before step ih =>
      rcases others _ _ step with rfl | kept
      · exact .inr ⟨reaches_of_changed others before, _, step, .refl⟩
      · exact ih.imp (fun path => path.tail kept) fun ⟨first, child, new, path⟩ =>
          ⟨first, child, new, path.tail kept⟩

/-- A path in the changed relation avoids the changed node or passes it. -/
theorem path_of_changed {node : NodeId}
    (others : ∀ parent child, changed parent child → parent = node ∨ relation parent child)
    {first last : NodeId} (path : TransGen changed first last) :
    TransGen relation first last ∨
      (ReflTransGen changed first node ∧ TransGen changed node last) := by
  induction path using TransGen.head_induction_on with
  | single step =>
      rcases others _ _ step with rfl | kept
      · exact .inr ⟨.refl, .single step⟩
      · exact .inl (.single kept)
  | head step rest ih =>
      rcases others _ _ step with rfl | kept
      · exact .inr ⟨.refl, .head step rest⟩
      · rcases ih with avoided | ⟨before, after⟩
        · exact .inl (.head kept avoided)
        · exact .inr ⟨.head step before, after⟩

/-- Giving a node new children closes no cycle if none of them reaches it. -/
theorem change (acyclic : Acyclic relation) {node : NodeId}
    (others : ∀ parent child, changed parent child → parent = node ∨ relation parent child)
    (apart : ∀ child, changed node child → ¬ReflTransGen relation child node) :
    Acyclic changed := by
  have noneAtNode : ¬TransGen changed node node := by
    intro cycle
    obtain ⟨child, step, rest⟩ := TransGen.head'_iff.mp cycle
    exact apart child step (reaches_of_changed others rest)
  intro id cycle
  rcases path_of_changed others cycle with kept | ⟨before, after⟩
  · exact acyclic id kept
  · exact noneAtNode (after.trans_left before)

/-- Without cycles a path visits each of finitely many slots at most once. -/
theorem within_of_visited (acyclic : Acyclic relation) {slots : Nat}
    (bounded : ∀ parent child, relation parent child → parent.slot < slots) :
    ∀ (length : Nat) (id : NodeId) (visited : List NodeId), visited.Nodup →
      (∀ earlier ∈ visited, earlier.slot < slots ∧ TransGen relation earlier id) →
      slots < length + visited.length → Bounded relation length id
  | 0, id, visited, distinct, earlier, long => by
      have slotsDistinct : (visited.map NodeId.slot).Nodup :=
        List.Nodup.map NodeId.slot_injective distinct
      have inRange : visited.map NodeId.slot ⊆ List.range slots := by
        intro slot found
        obtain ⟨node, member, rfl⟩ := List.mem_map.mp found
        exact List.mem_range.mpr (earlier node member).1
      have short := (List.subperm_of_subset slotsDistinct inRange).length_le
      rw [List.length_map, List.length_range] at short
      omega
  | length + 1, id, visited, distinct, earlier, long => by
      intro child step
      refine within_of_visited acyclic bounded length child (id :: visited) ?_ ?_ ?_
      · refine List.nodup_cons.mpr ⟨fun member => ?_, distinct⟩
        exact acyclic id (earlier id member).2
      · intro node member
        rcases List.mem_cons.mp member with rfl | member
        · exact ⟨bounded _ child step, .single step⟩
        · exact ⟨(earlier node member).1, (earlier node member).2.tail step⟩
      · rw [List.length_cons]
        omega

theorem within (acyclic : Acyclic relation) {slots : Nat}
    (bounded : ∀ parent child, relation parent child → parent.slot < slots)
    (id : NodeId) : Bounded relation (slots + 1) id :=
  within_of_visited acyclic bounded (slots + 1) id [] List.nodup_nil
    (fun _ member => absurd member List.not_mem_nil) (by simp)

end Acyclic

namespace Shape

def joined {α : Type} : Shape α → List α
  | .binary .and left right => [left, right]
  | .binary .or left right => [left, right]
  | _ => []

theorem children_of_joined {α : Type} {shape : Shape α} {child : α}
    (member : child ∈ shape.joined) : child ∈ shape.children := by
  unfold joined at member
  split at member
  · exact member
  · exact member
  · cases member

end Shape

namespace Arena

def Live (arena : Arena) (id : NodeId) : Prop :=
  ∃ node, arena.get? id = some node

def Links (parts : Shape NodeId → List NodeId) (arena : Arena) (parent child : NodeId) :
    Prop :=
  ∃ node, arena.get? parent = some node ∧ child ∈ parts node.shape

abbrev Child (arena : Arena) : NodeId → NodeId → Prop :=
  arena.Links Shape.children

/-- One node is looked through on the way from another, when that is made a
condition. -/
abbrev Joins (arena : Arena) : NodeId → NodeId → Prop :=
  arena.Links Shape.joined

structure FreeSound (arena : Arena) : Prop where
  distinct : arena.free.Nodup
  empty : ∀ id ∈ arena.free, arena.slots[id.slot]? = some none

theorem Joins.child {arena : Arena} {parent child : NodeId}
    (joins : arena.Joins parent child) : arena.Child parent child :=
  ⟨joins.choose, joins.choose_spec.1, Shape.children_of_joined joins.choose_spec.2⟩

theorem Links.live {parts : Shape NodeId → List NodeId} {arena : Arena}
    {parent child : NodeId} (link : arena.Links parts parent child) : arena.Live parent :=
  ⟨link.choose, link.choose_spec.1⟩

theorem slot_lt_of_get? {arena : Arena} {id : NodeId} {node : Node}
    (found : arena.get? id = some node) : id.slot < arena.slotCount := by
  unfold get? at found
  unfold slotCount
  by_contra outside
  rw [Array.getElem?_eq_none (by omega)] at found
  cases found

theorem Links.slot_lt {parts : Shape NodeId → List NodeId} {arena : Arena}
    {parent child : NodeId} (link : arena.Links parts parent child) :
    parent.slot < arena.slotCount :=
  slot_lt_of_get? link.choose_spec.1

theorem slot_ne {left right : NodeId} (different : left ≠ right) :
    left.slot ≠ right.slot :=
  fun same => different (NodeId.slot_injective same)

theorem alloc_eq_some {arena after : Arena} {id : NodeId} {node : Node}
    (taken : arena.alloc node = some (id, after)) :
    after.live = arena.live + 1 ∧ after.limit = arena.limit ∧
      ((arena.free = [] ∧ id = ⟨arena.slots.size⟩ ∧ after.free = [] ∧
        after.slots = arena.slots.push (some node)) ∨
      (arena.free = id :: after.free ∧
        after.slots = arena.slots.setIfInBounds id.slot (some node))) := by
  unfold alloc at taken
  split at taken
  · cases taken
  · split at taken
    · next listed =>
        obtain ⟨rfl, rfl⟩ := Prod.mk.inj (Option.some.inj taken)
        exact ⟨rfl, rfl, .inr ⟨listed, rfl⟩⟩
    · next listed =>
        obtain ⟨rfl, rfl⟩ := Prod.mk.inj (Option.some.inj taken)
        exact ⟨rfl, rfl, .inl ⟨listed, rfl, listed, rfl⟩⟩

/-- There is no room for a node when the limit is reached, and only then. -/
theorem alloc_eq_none {arena : Arena} {node : Node} :
    arena.alloc node = none ↔ arena.limit ≤ arena.live := by
  unfold alloc
  constructor
  · intro none
    split at none
    · next full => exact full
    · split at none
      · cases none
      · cases none
  · intro full
    rw [if_pos full]

theorem slots_kept (arena : Arena) (id : NodeId) :
    (arena.recycle id).slotCount = arena.slotCount ∧
      (∀ f, (arena.modify id f).slotCount = arena.slotCount) ∧
      ∀ node given after, arena.alloc node = some (given, after) →
        arena.slotCount ≤ after.slotCount := by
  refine ⟨?_, fun f => ?_, fun node given after taken => ?_⟩
  · unfold Arena.recycle
    split
    · rfl
    · exact Array.size_setIfInBounds
  · unfold Arena.modify
    split
    · rfl
    · exact Array.size_setIfInBounds
  · obtain ⟨-, -, ⟨-, -, -, slots⟩ | ⟨-, slots⟩⟩ := alloc_eq_some taken
    · rw [slotCount, slotCount, slots, Array.size_push]
      exact Nat.le_succ _
    · apply Nat.le_of_eq
      rw [slotCount, slotCount, slots, Array.size_setIfInBounds]

theorem limit_recycle (arena : Arena) (id : NodeId) : (arena.recycle id).limit = arena.limit := by
  unfold Arena.recycle
  split <;> rfl

theorem limit_modify (arena : Arena) (id : NodeId) (f : Node → Node) :
    (arena.modify id f).limit = arena.limit := by
  unfold Arena.modify
  split <;> rfl

theorem live_modify (arena : Arena) (id : NodeId) (f : Node → Node) :
    (arena.modify id f).live = arena.live := by
  unfold Arena.modify
  split <;> rfl

theorem modify_self {arena : Arena} {id : NodeId} {node : Node} {f : Node → Node}
    (found : arena.get? id = some node) (same : f node = node) : arena.modify id f = arena := by
  unfold modify
  rw [found]
  dsimp only
  rw [same]
  have inside : id.slot < arena.slots.size := slot_lt_of_get? found
  have held : arena.slots[id.slot]? = some (some node) := Option.join_eq_some_iff.mp found
  have kept : arena.slots.setIfInBounds id.slot (some node) = arena.slots := by
    apply Array.ext_getElem?
    intro slot
    rw [Array.getElem?_setIfInBounds]
    by_cases same : id.slot = slot
    · subst same
      rw [if_pos rfl, if_pos inside, held]
    · rw [if_neg same]
  rw [kept]

private theorem join_setIfInBounds (slots : Array (Option Node)) (id other : NodeId)
    (value : Option Node) (inside : id.slot < slots.size) :
    ((slots.setIfInBounds id.slot value)[other.slot]?).join =
      if other = id then value else (slots[other.slot]?).join := by
  rw [Array.getElem?_setIfInBounds]
  by_cases same : other = id
  · subst same
    simp [inside]
  · simp [same, (slot_ne same).symm]

def Puts (arena : Arena) (id : NodeId) (content : Option Node) (after : Arena) : Prop :=
  ∀ other, after.get? other = if other = id then content else arena.get? other

theorem alloc_spec {arena after : Arena} {node : Node} {id : NodeId}
    (sound : arena.FreeSound) (stored : arena.alloc node = some (id, after)) :
    arena.get? id = none ∧ after.FreeSound ∧ arena.Puts id (some node) after := by
  unfold alloc at stored
  split at stored
  · cases stored
  · split at stored
    · next first rest listed =>
        obtain ⟨rfl, rfl⟩ := Prod.mk.inj (Option.some.inj stored)
        have firstEmpty := sound.empty first (by rw [listed]; exact List.mem_cons_self)
        have inside : first.slot < arena.slots.size := by
          by_contra outside
          rw [Array.getElem?_eq_none (by omega)] at firstEmpty
          cases firstEmpty
        have distinct := sound.distinct
        rw [listed] at distinct
        refine ⟨by unfold get?; rw [firstEmpty]; rfl,
          ⟨(List.nodup_cons.mp distinct).2, ?_⟩, ?_⟩
        · intro other member
          have different : first ≠ other := by
            rintro rfl
            exact (List.nodup_cons.mp distinct).1 member
          rw [Array.getElem?_setIfInBounds, if_neg (slot_ne different)]
          exact sound.empty other (by rw [listed]; exact List.mem_cons_of_mem _ member)
        · intro other
          exact join_setIfInBounds arena.slots first other (some node) inside
    · next listed =>
        obtain ⟨rfl, rfl⟩ := Prod.mk.inj (Option.some.inj stored)
        refine ⟨by simp [get?], ⟨by simp [listed], by simp [listed]⟩, ?_⟩
        intro other
        unfold get?
        by_cases same : other = ⟨arena.slots.size⟩
        · subst same
          simp
        · have different : other.slot ≠ arena.slots.size := slot_ne same
          rw [if_neg same, Array.getElem?_push, if_neg different]

theorem recycle_spec {arena : Arena} (sound : arena.FreeSound) (id : NodeId) :
    (arena.recycle id).FreeSound ∧ arena.Puts id none (arena.recycle id) := by
  unfold recycle
  split
  · next empty =>
      refine ⟨sound, fun other => ?_⟩
      by_cases same : other = id
      · rw [if_pos same, same, empty]
      · rw [if_neg same]
  · next node found =>
      have inside := slot_lt_of_get? found
      refine ⟨⟨List.nodup_cons.mpr ⟨fun member => ?_, sound.distinct⟩, ?_⟩, fun other => ?_⟩
      · have empty := sound.empty id member
        unfold get? at found
        rw [empty] at found
        cases found
      · intro other member
        rw [Array.getElem?_setIfInBounds]
        by_cases same : id = other
        · subst same
          rw [if_pos rfl, if_pos (by simpa [slotCount] using inside)]
        · rw [if_neg (slot_ne same)]
          refine sound.empty other ?_
          rcases List.mem_cons.mp member with rfl | member
          · exact absurd rfl same
          · exact member
      · exact join_setIfInBounds arena.slots id other none inside

theorem modify_spec {arena : Arena} {id : NodeId} {node : Node}
    (found : arena.get? id = some node) (f : Node → Node) :
    arena.Puts id (some (f node)) (arena.modify id f) := by
  intro other
  unfold modify
  rw [found]
  exact join_setIfInBounds arena.slots id other (some (f node)) (slot_lt_of_get? found)

theorem FreeSound.modify {arena : Arena} (sound : arena.FreeSound) (id : NodeId)
    (f : Node → Node) : (arena.modify id f).FreeSound := by
  unfold Arena.modify
  split
  · exact sound
  · next node found =>
      refine ⟨sound.distinct, fun other member => ?_⟩
      have different : id ≠ other := by
        rintro rfl
        have empty := sound.empty id member
        unfold get? at found
        rw [empty] at found
        cases found
      rw [Array.getElem?_setIfInBounds, if_neg (slot_ne different)]
      exact sound.empty other member

namespace Puts

variable {arena after : Arena} {id : NodeId} {content : Option Node}

theorem at_slot (puts : arena.Puts id content after) : after.get? id = content := by
  rw [puts id, if_pos rfl]

theorem apart (puts : arena.Puts id content after) {other : NodeId} (different : other ≠ id) :
    after.get? other = arena.get? other := by
  rw [puts other, if_neg different]

/-- A link after the change comes from the new content, or was there before. -/
theorem link (puts : arena.Puts id content after) {parts : Shape NodeId → List NodeId}
    {parent child : NodeId} (linked : after.Links parts parent child) :
    (parent = id ∧ ∃ node, content = some node ∧ child ∈ parts node.shape) ∨
      (parent ≠ id ∧ arena.Links parts parent child) := by
  obtain ⟨node, found, member⟩ := linked
  by_cases same : parent = id
  · subst same
    exact .inl ⟨rfl, node, puts.at_slot.symm.trans found, member⟩
  · exact .inr ⟨same, node, (puts.apart same).symm.trans found, member⟩

theorem keeps (puts : arena.Puts id content after) {parts : Shape NodeId → List NodeId}
    {parent child : NodeId} (different : parent ≠ id)
    (linked : arena.Links parts parent child) : after.Links parts parent child := by
  obtain ⟨node, found, member⟩ := linked
  exact ⟨node, (puts.apart different).trans found, member⟩

theorem live {node : Node} (puts : arena.Puts id (some node) after) {other : NodeId}
    (alive : arena.Live other) : after.Live other := by
  by_cases same : other = id
  · subst same
    exact ⟨node, puts.at_slot⟩
  · exact ⟨alive.choose, (puts.apart same).trans alive.choose_spec⟩

/-- No cycle is closed if the new children do not reach the node. -/
theorem acyclic {node : Node} (puts : arena.Puts id (some node) after)
    {parts : Shape NodeId → List NodeId} (before : Acyclic (arena.Links parts))
    (apart : ∀ child ∈ parts node.shape, ¬ReflTransGen (arena.Links parts) child id) :
    Acyclic (after.Links parts) := by
  have others : ∀ parent child, after.Links parts parent child →
      parent = id ∨ arena.Links parts parent child :=
    fun parent child linked => (puts.link linked).imp And.left And.right
  refine before.change others fun child linked => ?_
  rcases puts.link linked with ⟨-, stored, same, member⟩ | ⟨different, -⟩
  · cases same
    exact apart child member
  · exact absurd rfl different

end Puts

/-! ### The invariant of the store -/

/-- Every child is alive, and following `and` and `or` comes to an end. Where
`strict` holds, so does following children. -/
structure Sound (strict : Prop) (arena : Arena) : Prop where
  free : arena.FreeSound
  closed : ∀ parent child, arena.Child parent child → arena.Live child
  joins : Acyclic arena.Joins
  acyclic : strict → Acyclic arena.Child

theorem not_reaches_of_no_parent {relation : NodeId → NodeId → Prop} {first last : NodeId}
    (noParent : ∀ parent, ¬relation parent last) (different : first ≠ last) :
    ¬ReflTransGen relation first last := by
  intro path
  rcases ReflTransGen.cases_tail path with same | ⟨parent, -, step⟩
  · exact different same.symm
  · exact noParent parent step

namespace Sound

variable {strict : Prop} {arena after : Arena} {id : NodeId} {node : Node}

theorem no_parent (sound : arena.Sound strict) (empty : arena.get? id = none)
    (parent : NodeId) : ¬arena.Child parent id := by
  intro child
  obtain ⟨found, holds⟩ := sound.closed parent id child
  rw [empty] at holds
  cases holds

theorem put (sound : arena.Sound strict) (puts : arena.Puts id (some node) after)
    (free : after.FreeSound) (closed : ∀ child ∈ node.shape.children, arena.Live child)
    (joins : ∀ child ∈ node.shape.joined, ¬ReflTransGen arena.Joins child id)
    (acyclic : strict → ∀ child ∈ node.shape.children,
      ¬ReflTransGen arena.Child child id) :
    after.Sound strict where
  free
  closed parent child linked := by
    refine puts.live ?_
    rcases puts.link linked with ⟨-, stored, same, member⟩ | ⟨-, kept⟩
    · cases same
      exact closed child member
    · exact sound.closed parent child kept
  joins := puts.acyclic sound.joins joins
  acyclic wanted := puts.acyclic (sound.acyclic wanted) (acyclic wanted)

theorem put_root (sound : arena.Sound strict) (puts : arena.Puts id (some node) after)
    (free : after.FreeSound) (closed : ∀ child ∈ node.shape.children, arena.Live child)
    (noParent : ∀ parent, ¬arena.Child parent id)
    (different : ∀ child ∈ node.shape.children, child ≠ id) :
    after.Sound strict := by
  refine sound.put puts free closed (fun child member => ?_) fun _ child member => ?_
  · exact not_reaches_of_no_parent (fun parent joins => noParent parent joins.child)
      (different child (Shape.children_of_joined member))
  · exact not_reaches_of_no_parent noParent (different child member)

theorem recycle (sound : arena.Sound strict) (noParent : ∀ parent, ¬arena.Child parent id) :
    (arena.recycle id).Sound strict := by
  obtain ⟨free, puts⟩ := recycle_spec sound.free id
  have kept {parts : Shape NodeId → List NodeId} {parent child : NodeId}
      (linked : (arena.recycle id).Links parts parent child) :
      arena.Links parts parent child := by
    rcases puts.link linked with ⟨-, _, gone, -⟩ | ⟨-, kept⟩
    · cases gone
    · exact kept
  refine ⟨free, fun parent child linked => ?_, ?_, fun wanted => ?_⟩
  · have different : child ≠ id := by
      rintro rfl
      exact noParent parent (kept linked)
    obtain ⟨found, holds⟩ := sound.closed parent child (kept linked)
    exact ⟨found, (puts.apart different).trans holds⟩
  · exact sound.joins.mono fun _ _ => kept
  · exact (sound.acyclic wanted).mono fun _ _ => kept

end Sound

/-! ### Dumps -/

theorem dump_congr {first second : Arena} (count : second.slotCount = first.slotCount)
    (shapes : ∀ id, (second.get? id).map Node.shape = (first.get? id).map Node.shape)
    (symbols : SymbolTable) (id : NodeId) : second.dump symbols id = first.dump symbols id := by
  have within (depth : Nat) : second.dumpWithin symbols.text depth =
      first.dumpWithin symbols.text depth := by
    induction depth with
    | zero => rfl
    | succ depth ih =>
        funext id
        have shape := shapes id
        unfold dumpWithin
        rw [ih]
        cases found : first.get? id with
        | none =>
            rw [found] at shape
            rw [Option.map_eq_none_iff.mp shape]
        | some node =>
            rw [found] at shape
            obtain ⟨other, there, same⟩ := Option.map_eq_some_iff.mp shape
            rw [there]
            dsimp only
            rw [same]
  unfold dump
  rw [count, within]

end Arena

end RubySyntax
