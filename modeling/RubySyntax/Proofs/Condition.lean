/-
What becomes of a condition.

A condition is looked for through the operands of `and` and `or`, down to the first nodes that
are neither. Where these nodes form a tree, the visit of one part of it leaves the other parts
alone, so what becomes of the whole is put together from what becomes of the parts. At the ends
of the tree a range literal is changed where it stands, and a regexp literal gets a new node
above it.
-/

import RubySyntax.Proofs.Lexer.Basic
import RubySyntax.Proofs.Returns
import RubySyntax.Proofs.Store

namespace RubySyntax

variable {α β : Type}

namespace Shape

def flipped : Shape α → Shape α
  | .binary .range left right => .binary .flipFlop left right
  | .binary .openRange left right => .binary .openFlipFlop left right
  | shape => shape

def isRegexp : Shape α → Bool
  | .regexp .. => true
  | .dynamicRegexp .. => true
  | _ => false

def joining (left right : α) : Shape α → Shape α
  | .binary form _ _ => .binary form left right
  | shape => shape

theorem joined_eq_pair {shape : Shape α} {left right : α} (joins : shape.joined = [left, right]) :
    shape = .binary .and left right ∨ shape = .binary .or left right := by
  unfold joined at joins
  split at joins
  · cases joins
    exact .inl rfl
  · cases joins
    exact .inr rfl
  · cases joins

theorem joined_joining {shape : Shape α} {left right : α} (joins : shape.joined = [left, right])
    (first second : α) : (shape.joining first second).joined = [first, second] := by
  rcases joined_eq_pair joins with rfl | rfl
  · rfl
  · rfl

theorem joining_self {shape : Shape α} {left right : α} (joins : shape.joined = [left, right]) :
    shape.joining left right = shape := by
  rcases joined_eq_pair joins with rfl | rfl
  · rfl
  · rfl

theorem flipped_flipped (shape : Shape α) : shape.flipped.flipped = shape.flipped := by
  cases shape with
  | binary form left right => cases form <;> rfl
  | _ => rfl

theorem isRegexp_flipped (shape : Shape α) : shape.flipped.isRegexp = shape.isRegexp := by
  unfold flipped
  split <;> rfl

theorem joined_flipped {shape : Shape α} (ends : shape.joined = []) : shape.flipped.joined = [] := by
  unfold flipped
  split
  · rfl
  · rfl
  · exact ends

end Shape

/-! ### Skeletons -/

inductive Skeleton where
  | leaf (id : NodeId)
  | joint (id : NodeId) (left right : Skeleton)
deriving DecidableEq, Repr

namespace Skeleton

def root : Skeleton → NodeId
  | .leaf id => id
  | .joint id _ _ => id

def ids : Skeleton → List NodeId
  | .leaf id => [id]
  | .joint id left right => id :: (left.ids ++ right.ids)

def joints : Skeleton → List NodeId
  | .leaf _ => []
  | .joint id left right => id :: (left.joints ++ right.joints)

theorem joints_sublist (skeleton : Skeleton) : skeleton.joints.Sublist skeleton.ids := by
  induction skeleton with
  | leaf id => exact List.nil_sublist _
  | joint id left right first second => exact (first.append second).cons_cons id

/-- In a tree the parts under a node have no node in common, and it stands in neither. -/
theorem nodup_joint {id : NodeId} {left right : Skeleton}
    (tree : (Skeleton.joint id left right).ids.Nodup) :
    (id ∉ left.ids ∧ id ∉ right.ids) ∧ left.ids.Nodup ∧ right.ids.Nodup ∧
      left.ids.Disjoint right.ids := by
  obtain ⟨above, below⟩ := List.nodup_cons.mp tree
  obtain ⟨leftTree, rightTree, apart⟩ := List.nodup_append.mp below
  refine ⟨not_or.mp fun member => above (List.mem_append.mpr member), leftTree, rightTree, ?_⟩
  exact fun id inLeft inRight => apart id inLeft id inRight rfl

end Skeleton

namespace Arena

inductive HasSkeleton (arena : Arena) : Skeleton → Prop
  | leaf {id : NodeId} {node : Node} (found : arena.get? id = some node)
      (ends : node.shape.joined = []) : HasSkeleton arena (.leaf id)
  | joint {id : NodeId} {node : Node} {left right : Skeleton} (found : arena.get? id = some node)
      (joins : node.shape.joined = [left.root, right.root]) (first : HasSkeleton arena left)
      (second : HasSkeleton arena right) : HasSkeleton arena (.joint id left right)

def regexps (arena : Arena) : Skeleton → Nat
  | .leaf id => if (arena.get? id).any (·.shape.isRegexp) then 1 else 0
  | .joint _ left right => arena.regexps left + arena.regexps right

variable {arena other : Arena} {skeleton : Skeleton}

theorem regexps_leaf {id : NodeId} {node : Node} (found : arena.get? id = some node)
    (regexp : node.shape.isRegexp = true) : arena.regexps (.leaf id) = 1 := by
  rw [regexps, found, Option.any_some, regexp]
  rfl

theorem HasSkeleton.live (holds : arena.HasSkeleton skeleton) :
    ∀ id ∈ skeleton.ids, arena.Live id := by
  induction holds with
  | leaf found _ => exact List.forall_mem_singleton.mpr ⟨_, found⟩
  | joint found _ _ _ first second =>
      exact List.forall_mem_cons.mpr ⟨⟨_, found⟩, List.forall_mem_append.mpr ⟨first, second⟩⟩

theorem HasSkeleton.congr (holds : arena.HasSkeleton skeleton)
    (same : ∀ id ∈ skeleton.ids, other.get? id = arena.get? id) : other.HasSkeleton skeleton := by
  induction holds with
  | leaf found ends => exact .leaf ((same _ List.mem_cons_self).trans found) ends
  | joint found joins _ _ first second =>
      obtain ⟨here, below⟩ := List.forall_mem_cons.mp same
      obtain ⟨left, right⟩ := List.forall_mem_append.mp below
      exact .joint (here.trans found) joins (first left) (second right)

theorem regexps_congr (same : ∀ id ∈ skeleton.ids, other.get? id = arena.get? id) :
    other.regexps skeleton = arena.regexps skeleton := by
  induction skeleton with
  | leaf id => rw [regexps, regexps, same id List.mem_cons_self]
  | joint id left right first second =>
      obtain ⟨left, right⟩ := List.forall_mem_append.mp (List.forall_mem_cons.mp same).2
      rw [regexps, regexps, first left, second right]

/-- The nodes of a tree that are an `and` or `or` are no more than there are slots. -/
theorem joints_le (tree : skeleton.ids.Nodup) (live : ∀ id ∈ skeleton.ids, arena.Live id) :
    skeleton.joints.length ≤ arena.slotCount := by
  have distinct : (skeleton.joints.map NodeId.slot).Nodup :=
    (tree.sublist skeleton.joints_sublist).map NodeId.slot_injective
  have inside : skeleton.joints.map NodeId.slot ⊆ List.range arena.slotCount := by
    intro slot member
    obtain ⟨id, joint, rfl⟩ := List.mem_map.mp member
    obtain ⟨node, found⟩ := live id (skeleton.joints_sublist.subset joint)
    exact List.mem_range.mpr (slot_lt_of_get? found)
  have counted := (List.subperm_of_subset distinct inside).length_le
  rwa [List.length_map, List.length_range] at counted

end Arena

/-- The node above a regexp literal in a condition. It stands where the literal stands. -/
def Node.matching (map : SourceMap) (id : NodeId) (node : Node) : Node where
  shape := .unary .lineMatch id
  span := node.span
  line := (map.locate node.span.start).line
  file := (map.locate node.span.start).file

/-- What becomes of a skeleton in a condition. A leaf stays the node that it was, but for a range
literal, which is flipped; a regexp literal stays as it was, and a new node above it takes its
place. The other nodes refer to what their operands became. -/
inductive Remade (map : SourceMap) (before after : Arena) : Skeleton → Skeleton → Prop
  | leaf {id : NodeId} {node : Node} (old : before.get? id = some node)
      (ends : node.shape.joined = []) (plain : node.shape.isRegexp = false)
      (new : after.get? id = some { node with shape := node.shape.flipped }) :
      Remade map before after (.leaf id) (.leaf id)
  | matched {id above : NodeId} {node : Node} (old : before.get? id = some node)
      (regexp : node.shape.isRegexp = true) (kept : after.get? id = some node)
      (fresh : before.get? above = none) (new : after.get? above = some (node.matching map id)) :
      Remade map before after (.leaf id) (.leaf above)
  | joint {id : NodeId} {node : Node} {left right newLeft newRight : Skeleton}
      (old : before.get? id = some node) (joins : node.shape.joined = [left.root, right.root])
      (new : after.get? id =
        some { node with shape := node.shape.joining newLeft.root newRight.root })
      (first : Remade map before after left newLeft)
      (second : Remade map before after right newRight) :
      Remade map before after (.joint id left right) (.joint id newLeft newRight)

namespace Remade

variable {map : SourceMap} {before middle after last : Arena} {skeleton made : Skeleton}

theorem old_or_fresh (done : Remade map before after skeleton made) :
    ∀ id ∈ made.ids, id ∈ skeleton.ids ∨ before.get? id = none := by
  induction done with
  | leaf _ _ _ _ => exact fun _ member => .inl member
  | matched _ _ _ fresh _ => exact List.forall_mem_singleton.mpr (.inr fresh)
  | joint _ _ _ _ _ first second =>
      intro id member
      rcases List.mem_cons.mp member with rfl | member
      · exact .inl List.mem_cons_self
      · rcases List.mem_append.mp member with inLeft | inRight
        · apply (first id inLeft).imp_left
          exact fun old => List.mem_cons_of_mem _ (List.mem_append_left _ old)
        · apply (second id inRight).imp_left
          exact fun old => List.mem_cons_of_mem _ (List.mem_append_right _ old)

theorem outside (done : Remade map before after skeleton made) {id : NodeId}
    (outside : id ∉ skeleton.ids) (alive : before.Live id) : id ∉ made.ids := by
  intro member
  obtain ⟨node, found⟩ := alive
  rcases done.old_or_fresh id member with old | fresh
  · exact outside old
  · rw [fresh] at found
    cases found

theorem live (done : Remade map before after skeleton made) :
    (∀ id ∈ skeleton.ids, after.Live id) ∧ ∀ id ∈ made.ids, after.Live id := by
  induction done with
  | leaf _ _ _ new =>
      exact ⟨List.forall_mem_singleton.mpr ⟨_, new⟩, List.forall_mem_singleton.mpr ⟨_, new⟩⟩
  | matched _ _ kept _ new =>
      exact ⟨List.forall_mem_singleton.mpr ⟨_, kept⟩, List.forall_mem_singleton.mpr ⟨_, new⟩⟩
  | joint _ _ new _ _ first second =>
      constructor
      · exact List.forall_mem_cons.mpr
          ⟨⟨_, new⟩, List.forall_mem_append.mpr ⟨first.1, second.1⟩⟩
      · exact List.forall_mem_cons.mpr
          ⟨⟨_, new⟩, List.forall_mem_append.mpr ⟨first.2, second.2⟩⟩

theorem joints (done : Remade map before after skeleton made) : made.joints = skeleton.joints := by
  induction done with
  | leaf _ _ _ _ => rfl
  | matched _ _ _ _ _ => rfl
  | joint _ _ _ _ _ first second => rw [Skeleton.joints, Skeleton.joints, first, second]

theorem congr {start stop : Arena} (done : Remade map before after skeleton made)
    (old : ∀ id ∈ skeleton.ids, start.get? id = before.get? id)
    (fresh : ∀ id ∈ made.ids, before.get? id = none → start.get? id = none)
    (kept : ∀ id ∈ skeleton.ids, stop.get? id = after.get? id)
    (new : ∀ id ∈ made.ids, stop.get? id = after.get? id) :
    Remade map start stop skeleton made := by
  induction done with
  | leaf held ends plain flips =>
      obtain old := List.forall_mem_singleton.mp old
      obtain new := List.forall_mem_singleton.mp new
      exact .leaf (old.trans held) ends plain (new.trans flips)
  | matched held regexp stays empty above =>
      obtain old := List.forall_mem_singleton.mp old
      obtain fresh := List.forall_mem_singleton.mp fresh
      obtain kept := List.forall_mem_singleton.mp kept
      obtain new := List.forall_mem_singleton.mp new
      exact .matched (old.trans held) regexp (kept.trans stays) (fresh empty) (new.trans above)
  | joint held joins rejoined _ _ first second =>
      obtain ⟨old, oldBelow⟩ := List.forall_mem_cons.mp old
      obtain ⟨oldLeft, oldRight⟩ := List.forall_mem_append.mp oldBelow
      obtain ⟨-, freshBelow⟩ := List.forall_mem_cons.mp fresh
      obtain ⟨freshLeft, freshRight⟩ := List.forall_mem_append.mp freshBelow
      obtain ⟨kept, keptBelow⟩ := List.forall_mem_cons.mp kept
      obtain ⟨keptLeft, keptRight⟩ := List.forall_mem_append.mp keptBelow
      obtain ⟨-, newBelow⟩ := List.forall_mem_cons.mp new
      obtain ⟨newLeft, newRight⟩ := List.forall_mem_append.mp newBelow
      exact .joint (old.trans held) joins (kept.trans rejoined)
        (first oldLeft freshLeft keptLeft newLeft)
        (second oldRight freshRight keptRight newRight)

/-- A node that is neither an `and` or `or` nor a range literal is left as it was. -/
theorem unflipped (done : Remade map before after skeleton made) {id : NodeId} {node : Node}
    (member : id ∈ skeleton.ids) (leaf : id ∉ skeleton.joints)
    (found : before.get? id = some node) (plain : node.shape.flipped = node.shape) :
    after.get? id = some node := by
  induction done with
  | leaf old _ _ new =>
      cases List.mem_singleton.mp member
      cases old.symm.trans found
      rw [new, plain]
  | matched old _ kept _ _ =>
      cases List.mem_singleton.mp member
      exact kept.trans (old.symm.trans found)
  | joint _ _ _ _ _ first second =>
      obtain ⟨different, below⟩ := not_or.mp fun found => leaf (List.mem_cons.mpr found)
      obtain ⟨notLeft, notRight⟩ := not_or.mp fun found => below (List.mem_append.mpr found)
      rcases List.mem_cons.mp member with same | member
      · exact absurd same different
      · rcases List.mem_append.mp member with inLeft | inRight
        · exact first inLeft notLeft
        · exact second inRight notRight

end Remade

structure Rewrites (map : SourceMap) (before : Arena) (skeleton made : Skeleton) (after : Arena) :
    Prop where
  done : Remade map before after skeleton made
  apart : ∀ id, id ∉ skeleton.ids → id ∉ made.ids → after.get? id = before.get? id
  live : after.live = before.live + before.regexps skeleton
  limit : after.limit = before.limit
  free : after.FreeSound

namespace Rewrites

variable {map : SourceMap} {before middle after last : Arena} {skeleton made : Skeleton}

theorem kept (rewrites : Rewrites map before skeleton made after) {id : NodeId}
    (outside : id ∉ skeleton.ids) (alive : before.Live id) :
    after.get? id = before.get? id :=
  rewrites.apart id outside (rewrites.done.outside outside alive)

theorem keeps (rewrites : Rewrites map before skeleton made after) {nodes : List NodeId}
    (disjoint : skeleton.ids.Disjoint nodes) (alive : ∀ id ∈ nodes, before.Live id) :
    ∀ id ∈ nodes, after.get? id = before.get? id :=
  fun id member => rewrites.kept (fun inside => disjoint inside member) (alive id member)

theorem stays (rewrites : Rewrites map before skeleton made after) {id : NodeId}
    (alive : before.Live id) : after.Live id := by
  by_cases member : id ∈ skeleton.ids
  · exact rewrites.done.live.1 id member
  · obtain ⟨node, found⟩ := alive
    exact ⟨node, (rewrites.kept member ⟨node, found⟩).trans found⟩

/-- Both operands have been made conditions one after the other, and the node above them refers
to what they became. -/
theorem joint {id : NodeId} {node : Node} {left right newLeft newRight : Skeleton}
    (found : before.get? id = some node) (joins : node.shape.joined = [left.root, right.root])
    (rightLive : ∀ other ∈ right.ids, before.Live other)
    (tree : (Skeleton.joint id left right).ids.Nodup)
    (first : Rewrites map before left newLeft middle)
    (second : Rewrites map middle right newRight last) :
    Rewrites map before (.joint id left right) (.joint id newLeft newRight)
      (last.modify id fun held =>
        { held with shape := node.shape.joining newLeft.root newRight.root }) ∧
      last.get? id = some node := by
  obtain ⟨⟨notLeft, notRight⟩, -, -, disjoint⟩ := Skeleton.nodup_joint tree
  have rightKept : ∀ other ∈ right.ids, middle.get? other = before.get? other :=
    first.keeps disjoint rightLive
  have leftKept : ∀ other ∈ left.ids, last.get? other = middle.get? other :=
    second.keeps (List.disjoint_symm disjoint) first.done.live.1
  have newLeftKept : ∀ other ∈ newLeft.ids, last.get? other = middle.get? other := by
    refine second.keeps (fun other inRight member => ?_) first.done.live.2
    apply first.done.outside (fun inLeft => disjoint inLeft inRight) _ member
    exact rightLive other inRight
  have middleFound : middle.get? id = some node :=
    (first.kept notLeft ⟨node, found⟩).trans found
  have lastFound : last.get? id = some node :=
    (second.kept notRight ⟨node, middleFound⟩).trans middleFound
  have puts := Arena.modify_spec lastFound fun held =>
    { held with shape := node.shape.joining newLeft.root newRight.root }
  have others {nodes : List NodeId} (absent : id ∉ nodes) : ∀ other ∈ nodes,
      other ≠ id := fun other member same => absent (same ▸ member)
  have notNewLeft : id ∉ newLeft.ids := first.done.outside notLeft ⟨node, found⟩
  have notNewRight : id ∉ newRight.ids := second.done.outside notRight ⟨node, middleFound⟩
  refine ⟨⟨?_, ?_, ?_, ?_, second.free.modify ..⟩, lastFound⟩
  · apply Remade.joint found joins puts.at_slot
    · apply first.done.congr (fun _ _ => rfl) (fun _ _ empty => empty)
      · exact fun other member =>
          (puts.apart (others notLeft other member)).trans (leftKept other member)
      · exact fun other member =>
          (puts.apart (others notNewLeft other member)).trans (newLeftKept other member)
    · apply second.done.congr fun other member => (rightKept other member).symm
      · intro other _ empty
        by_contra occupied
        obtain ⟨stored, held⟩ := first.stays (Option.ne_none_iff_exists'.mp occupied)
        rw [empty] at held
        cases held
      · exact fun other member => puts.apart (others notRight other member)
      · exact fun other member => puts.apart (others notNewRight other member)
  · intro other outside absent
    obtain ⟨different, outside⟩ := not_or.mp fun member => outside (List.mem_cons.mpr member)
    obtain ⟨noLeft, noRight⟩ := not_or.mp fun member => outside (List.mem_append.mpr member)
    obtain ⟨-, absent⟩ := not_or.mp fun member => absent (List.mem_cons.mpr member)
    obtain ⟨noNewLeft, noNewRight⟩ := not_or.mp fun member => absent (List.mem_append.mpr member)
    calc _ = last.get? other := puts.apart different
      _ = middle.get? other := second.apart other noRight noNewRight
      _ = before.get? other := first.apart other noLeft noNewLeft
  · rw [Arena.live_modify, second.live, first.live, Arena.regexps_congr rightKept, Arena.regexps,
      Nat.add_assoc]
  · rw [Arena.limit_modify, second.limit, first.limit]

theorem leaf {id : NodeId} {node : Node} (found : before.get? id = some node)
    (ends : node.shape.joined = []) (plain : node.shape.isRegexp = false)
    (free : before.FreeSound) :
    Rewrites map before (.leaf id) (.leaf id)
      (before.modify id fun held => { held with shape := node.shape.flipped }) where
  done := .leaf found ends plain (Arena.modify_spec found _).at_slot
  apart other outside _ :=
    (Arena.modify_spec found _).apart (List.mem_singleton.not.mp outside)
  live := by
    have none : before.regexps (.leaf id) = 0 := by
      rw [Arena.regexps, found, Option.any_some, plain]
      rfl
    rw [Arena.live_modify, none, Nat.add_zero]
  limit := Arena.limit_modify ..
  free := free.modify ..

theorem matched {id above : NodeId} {node : Node} (found : before.get? id = some node)
    (regexp : node.shape.isRegexp = true) (free : before.FreeSound)
    (stored : before.alloc (node.matching map id) = some (above, after)) :
    Rewrites map before (.leaf id) (.leaf above) after := by
  obtain ⟨fresh, freeAfter, puts⟩ := Arena.alloc_spec free stored
  have different : id ≠ above := by
    rintro rfl
    rw [fresh] at found
    cases found
  obtain ⟨live, limit, -⟩ := Arena.alloc_eq_some stored
  exact
    { done := .matched found regexp ((puts.apart different).trans found) fresh puts.at_slot
      apart := fun other _ outside => puts.apart (List.mem_singleton.not.mp outside)
      live := by rw [live, Arena.regexps_leaf found regexp]
      limit
      free := freeAfter }

end Rewrites

namespace Scan

variable {step : Scan α} {next : α → Scan β} {state reached : State} {id : NodeId} {node : Node}
  {depth : Nat}

theorem shapeOf_ran (found : state.arena.get? id = some node) :
    Ran (shapeOf id) state (.ok node.shape state) :=
  (nodeAt_ran found).bind (ran_pure _)

theorem setShape_ran (found : state.arena.get? id = some node) (shape : Shape NodeId) :
    Ran (setShape id shape) state
      (.ok ⟨⟩ { state with arena := state.arena.modify id fun held => { held with shape } }) :=
  (nodeAt_ran found).bind rfl

theorem alloc_ran {shape : Shape NodeId} {span : Span} {arena : Arena}
    (located : state.report.map.Sound)
    (stored : state.arena.alloc
      { shape, span, line := (state.report.map.locate span.start).line,
        file := (state.report.map.locate span.start).file } = some (id, arena)) :
    Ran (alloc shape span) state (.ok id { state with arena }) := by
  apply Ran.get_bind
  rw [located.canLocate]
  refine Ran.bind rfl ?_
  dsimp only
  rw [stored]
  exact Ran.bind rfl (ran_pure id)

theorem alloc_ran_full (located : state.report.map.Sound)
    (full : state.arena.limit ≤ state.arena.live) (shape : Shape NodeId) (span : Span) :
    Ran (alloc shape span) state
      (.error (.fatal (.arenaExhausted state.arena.limit)) state) := by
  apply Ran.get_bind
  rw [located.canLocate]
  refine Ran.bind rfl ?_
  dsimp only
  rw [Arena.alloc_eq_none.mpr full]
  rfl

/-- One step of the visit at a node that is an `and` or `or`. -/
theorem conditionFrom_joint {left right : NodeId} {outcome : EStateM.Result Halt State NodeId}
    (found : state.arena.get? id = some node) (joins : node.shape.joined = [left, right])
    (ran : Ran (do
        let left ← conditionFrom depth left
        let right ← conditionFrom depth right
        setShape id (node.shape.joining left right)
        return id) state outcome) :
    Ran (conditionFrom (depth + 1) id) state outcome := by
  unfold conditionFrom
  apply (shapeOf_ran found).bind
  rcases Shape.joined_eq_pair joins with shape | shape
  · rw [shape] at ran ⊢
    exact ran
  · rw [shape] at ran ⊢
    exact ran

theorem conditionFrom_leaf (found : state.arena.get? id = some node)
    (ends : node.shape.joined = []) (plain : node.shape.isRegexp = false) :
    Ran (conditionFrom (depth + 1) id) state
      (.ok id { state with
        arena := state.arena.modify id fun held => { held with shape := node.shape.flipped } }) := by
  unfold conditionFrom
  apply (shapeOf_ran found).bind
  split
  · next shape =>
      rw [shape]
      exact (setShape_ran found _).bind (ran_pure id)
  · next shape =>
      rw [shape]
      exact (setShape_ran found _).bind (ran_pure id)
  · next shape =>
      rw [shape] at ends
      cases ends
  · next shape =>
      rw [shape] at ends
      cases ends
  · next shape =>
      rw [shape] at plain
      cases plain
  · next shape =>
      rw [shape] at plain
      cases plain
  · next closed openEnded _ _ _ _ =>
      have same : node.shape.flipped = node.shape := by
        unfold Shape.flipped
        split
        · next shape => exact absurd shape (closed _ _)
        · next shape => exact absurd shape (openEnded _ _)
        · rfl
      rw [same, Arena.modify_self found rfl]
      exact ran_pure id

theorem conditionFrom_regexp {outcome : EStateM.Result Halt State NodeId}
    (found : state.arena.get? id = some node) (regexp : node.shape.isRegexp = true)
    (ran : Ran (alloc (.unary .lineMatch id) node.span) state outcome) :
    Ran (conditionFrom (depth + 1) id) state outcome := by
  have place := spanOf_ran found
  unfold conditionFrom
  apply (shapeOf_ran found).bind
  unfold Shape.isRegexp at regexp
  split at regexp
  · next shape =>
      rw [shape]
      exact place.bind ran
  · next shape =>
      rw [shape]
      exact place.bind ran
  · cases regexp

/-- The parts of a tree are visited one after the other. The visit ends early only if the arena
has no room for a node above each regexp literal. -/
theorem conditionFrom_rewrites {skeleton : Skeleton} (holds : state.arena.HasSkeleton skeleton)
    (tree : skeleton.ids.Nodup) (free : state.arena.FreeSound) (located : state.report.map.Sound)
    (deep : skeleton.joints.length < depth) :
    (state.arena.limit < state.arena.live + state.arena.regexps skeleton ∧ ∃ reached,
      Ran (conditionFrom depth skeleton.root) state
        (.error (.fatal (.arenaExhausted state.arena.limit)) reached)) ∨
    ∃ made arena,
      Ran (conditionFrom depth skeleton.root) state (.ok made.root { state with arena }) ∧
        Rewrites state.report.map state.arena skeleton made arena := by
  induction skeleton generalizing depth state with
  | leaf id =>
      obtain ⟨depth, rfl⟩ := Nat.exists_eq_add_one_of_ne_zero (Nat.ne_of_gt deep)
      cases holds with
      | @leaf _ node found ends =>
          cases regexp : node.shape.isRegexp with
          | false =>
              exact .inr ⟨.leaf id, _, conditionFrom_leaf found ends regexp,
                .leaf found ends regexp free⟩
          | true =>
              cases stored : state.arena.alloc (node.matching state.report.map id) with
              | none =>
                  have full : state.arena.limit ≤ state.arena.live := Arena.alloc_eq_none.mp stored
                  have one := Arena.regexps_leaf found regexp
                  exact .inl ⟨by omega, state,
                    conditionFrom_regexp found regexp (alloc_ran_full located full ..)⟩
              | some taken =>
                  exact .inr ⟨.leaf taken.1, taken.2,
                    conditionFrom_regexp found regexp (alloc_ran located stored),
                    .matched found regexp free stored⟩
  | joint id left right first second =>
      obtain ⟨depth, rfl⟩ := Nat.exists_eq_add_one_of_ne_zero (Nat.ne_zero_of_lt deep)
      cases holds with
      | @joint _ node _ _ found joins leftHeld rightHeld =>
          obtain ⟨-, leftTree, rightTree, disjoint⟩ := Skeleton.nodup_joint tree
          rw [Skeleton.joints, List.length_cons, List.length_append] at deep
          have leftDeep : left.joints.length < depth := by omega
          have rightDeep : right.joints.length < depth := by omega
          rcases first leftHeld leftTree free located leftDeep with
            ⟨short, reached, ran⟩ | ⟨newLeft, middle, ran, firstDone⟩
          · left
            refine ⟨?_, reached, conditionFrom_joint found joins ran.bind_error⟩
            rw [Arena.regexps]
            omega
          · have kept : ∀ other ∈ right.ids, middle.get? other = state.arena.get? other :=
              firstDone.keeps disjoint rightHeld.live
            let between : State := { state with arena := middle }
            have held : between.arena.HasSkeleton right := rightHeld.congr kept
            rcases second held rightTree firstDone.free located rightDeep with
              ⟨short, reached, later⟩ | ⟨newRight, last, later, secondDone⟩
            · left
              rw [firstDone.limit] at later
              refine ⟨?_, reached, conditionFrom_joint found joins (ran.bind later.bind_error)⟩
              rw [firstDone.limit, firstDone.live, Arena.regexps_congr kept] at short
              rw [Arena.regexps]
              omega
            · right
              obtain ⟨done, held⟩ := firstDone.joint found joins rightHeld.live tree secondDone
              refine ⟨.joint id newLeft newRight, _, conditionFrom_joint found joins ?_, done⟩
              exact ran.bind (later.bind ((setShape_ran held _).bind (ran_pure id)))

/-- What has been made a condition stays as it is when it is made one again. -/
theorem conditionFrom_again {map : SourceMap} {before : Arena} {skeleton made : Skeleton}
    (done : Remade map before state.arena skeleton made) (deep : made.joints.length < depth) :
    Ran (conditionFrom depth made.root) state (.ok made.root state) := by
  induction done generalizing depth with
  | leaf old ends plain new =>
      obtain ⟨depth, rfl⟩ := Nat.exists_eq_add_one_of_ne_zero (Nat.ne_of_gt deep)
      have ran : Ran (conditionFrom (depth + 1) _) state _ := conditionFrom_leaf new
        (Shape.joined_flipped ends) ((Shape.isRegexp_flipped _).trans plain)
      rwa [Shape.flipped_flipped, Arena.modify_self new rfl] at ran
  | matched old regexp kept fresh new =>
      obtain ⟨depth, rfl⟩ := Nat.exists_eq_add_one_of_ne_zero (Nat.ne_of_gt deep)
      have ran : Ran (conditionFrom (depth + 1) _) state _ := conditionFrom_leaf new rfl rfl
      rwa [Arena.modify_self new rfl] at ran
  | @joint id node _ _ newLeft newRight old joins new _ _ first second =>
      obtain ⟨depth, rfl⟩ := Nat.exists_eq_add_one_of_ne_zero (Nat.ne_zero_of_lt deep)
      rw [Skeleton.joints, List.length_cons, List.length_append] at deep
      have rejoined := Shape.joined_joining joins newLeft.root newRight.root
      have leftDeep : newLeft.joints.length < depth := by omega
      have rightDeep : newRight.joints.length < depth := by omega
      have kept := setShape_ran new
        (Shape.joining newLeft.root newRight.root (node.shape.joining newLeft.root newRight.root))
      rw [Arena.modify_self new (by rw [Shape.joining_self rejoined])] at kept
      exact conditionFrom_joint new rejoined
        ((first leftDeep).bind ((second rightDeep).bind (kept.bind (ran_pure id))))

end Scan

/-- Making a node a condition rewrites exactly the ends of the tree of `and` and `or` under it:
each range literal is flipped, each regexp literal gets a new node above it, and everything else
stays as it was. This fails only where the arena has no room for the new nodes, and a condition
that is made a condition again stays as it is. -/
theorem condition_rewrites (state : State) (skeleton : Skeleton)
    (holds : state.arena.HasSkeleton skeleton) (tree : skeleton.ids.Nodup)
    (free : state.arena.FreeSound) (located : state.report.map.Sound) :
    (state.arena.limit < state.arena.live + state.arena.regexps skeleton ∧ ∃ reached,
      Scan.condition skeleton.root state =
        .error (.fatal (.arenaExhausted state.arena.limit)) reached) ∨
    ∃ made arena,
      Scan.condition skeleton.root state = .ok made.root { state with arena } ∧
      Remade state.report.map state.arena arena skeleton made ∧
      (∀ id node, state.arena.get? id = some node → id ∉ skeleton.joints →
        (id ∈ skeleton.ids → node.shape.flipped = node.shape) → arena.get? id = some node) ∧
      (∀ id, state.arena.get? id = none → id ∉ made.ids → arena.get? id = none) ∧
      arena.live = state.arena.live + state.arena.regexps skeleton ∧
      Scan.condition made.root { state with arena } = .ok made.root { state with arena } := by
  have deep : skeleton.joints.length < state.arena.slotCount + 1 :=
    Nat.lt_succ_of_le (Arena.joints_le tree holds.live)
  rcases Scan.conditionFrom_rewrites holds tree free located deep with
    short | ⟨made, arena, ran, rewrites⟩
  · exact .inl short
  · refine .inr ⟨made, arena, ran, rewrites.done, ?_, ?_, rewrites.live, ?_⟩
    · intro id node found notJoint plain
      by_cases member : id ∈ skeleton.ids
      · exact rewrites.done.unflipped member notJoint found (plain member)
      · exact (rewrites.kept member ⟨node, found⟩).trans found
    · intro id empty absent
      refine (rewrites.apart id (fun member => ?_) absent).trans empty
      obtain ⟨node, found⟩ := holds.live id member
      rw [empty] at found
      cases found
    · let after : State := { state with arena }
      have done : Remade state.report.map state.arena after.arena skeleton made := rewrites.done
      have deep : made.joints.length < after.arena.slotCount + 1 := by
        rw [done.joints]
        exact Nat.lt_succ_of_le (Arena.joints_le tree done.live.1)
      exact Scan.conditionFrom_again done deep

/-- A range literal and a regexp literal under one `and`, with a slot to take again. -/
theorem condition_rewrites_range_and_regexp :
    let place : Shape NodeId → Option Node := fun shape =>
      some { shape, span := ⟨0, 1⟩, line := 1, file := 0 }
    let arena : Arena :=
      { slots := #[place (.leaf .nilValue), place (.leaf .selfValue),
          place (.binary .range ⟨0⟩ ⟨1⟩), none, place (.regexp [0x78] ""),
          place (.binary .and ⟨2⟩ ⟨4⟩)]
        free := [⟨3⟩]
        live := 5
        limit := 6 }
    let state : State := { State.start [] {} {} with arena }
    let skeleton : Skeleton := .joint ⟨5⟩ (.leaf ⟨2⟩) (.leaf ⟨4⟩)
    arena.HasSkeleton skeleton ∧ skeleton.ids.Nodup ∧ arena.FreeSound ∧ state.report.map.Sound ∧
      ∃ made after, Scan.condition ⟨5⟩ state = .ok made.root { state with arena := after } ∧
        Remade state.report.map arena after skeleton made ∧ after.live = 6 ∧
        Scan.condition made.root { state with arena := after } =
          .ok made.root { state with arena := after } := by
  intro place arena state skeleton
  have holds : arena.HasSkeleton skeleton := .joint rfl rfl (.leaf rfl rfl) (.leaf rfl rfl)
  have tree : skeleton.ids.Nodup := by decide
  have free : arena.FreeSound := ⟨by decide, List.forall_mem_singleton.mpr rfl⟩
  have located : state.report.map.Sound := .addChunk ⟨by simp, by simp⟩ ..
  refine ⟨holds, tree, free, located, ?_⟩
  rcases condition_rewrites state skeleton holds tree free located with
    ⟨short, -⟩ | ⟨made, after, ran, done, -, -, live, again⟩
  · exact absurd short (by decide)
  · exact ⟨made, after, ran, done, live, again⟩

end RubySyntax
