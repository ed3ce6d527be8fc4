/-
Making a node a condition.

Nodes under `and` and `or` are visited, and some of them are replaced by new
nodes above them. No node comes to reach another that it did not reach before,
so neither a cycle nor a longer way through `and` and `or` comes about.
-/

import RubySyntax.Proofs.Grammar.Call

namespace RubySyntax

open Relation (ReflTransGen)

def Followed (parts : Shape NodeId → List NodeId) : Prop :=
  parts = Shape.children ∨ parts = Shape.joined

structure Conditioned (before : State) (id result : NodeId) (after : State) : Prop where
  live : ∀ other, before.arena.Live other → after.arena.Live other
  lexer : after.lexer = before.lexer
  quotedKey : after.quotedKey = before.quotedKey
  reach : ∀ parts, Followed parts → ∀ first last, before.arena.Live first →
    before.arena.Live last → ReflTransGen (after.arena.Links parts) first last →
    ReflTransGen (before.arena.Links parts) first last
  below : ∀ parts, Followed parts → ∀ last, before.arena.Live last →
    ReflTransGen (after.arena.Links parts) result last →
    ReflTransGen (before.arena.Links parts) id last
  joins : ∀ parent child, after.arena.Joins parent child →
    before.arena.Joins parent child ∨ ∀ next, ¬after.arena.Joins child next
  joint : ∀ parent, (∃ child, after.arena.Joins parent child) ↔
    ∃ child, before.arena.Joins parent child
  result : result = id ∨ ∀ child, ¬after.arena.Joins result child

variable {strict : Prop} {base before middle state after : State} {handles : List Handle}
  {id result : NodeId}

namespace Conditioned

theorem refl (state : State) (id : NodeId) : Conditioned state id id state where
  live _ alive := alive
  lexer := rfl
  quotedKey := rfl
  reach _ _ _ _ _ _ path := path
  below _ _ _ _ path := path
  joins _ _ linked := .inl linked
  joint _ := Iff.rfl
  result := .inl rfl

theorem within (done : Conditioned before id result after) :
    ∀ {length : Nat} {node : NodeId}, Bounded before.arena.Joins length node →
      Bounded after.arena.Joins length node
  | 0, _, bounded => bounded.elim
  | 1, _, bounded => fun child linked =>
      have ⟨next, link⟩ := (done.joint _).mp ⟨child, linked⟩
      bounded next link
  | length + 2, _, bounded => fun child linked => by
      rcases done.joins _ child linked with old | leaf
      · exact done.within (bounded child old)
      · exact fun next link => absurd link (leaf next)

theorem of_same {changed node : Node} (found : state.arena.get? id = some node)
    (puts : state.arena.Puts id (some changed) after.arena)
    (children : changed.shape.children = node.shape.children)
    (joined : changed.shape.joined = node.shape.joined)
    (lexer : after.lexer = state.lexer) (quotedKey : after.quotedKey = state.quotedKey) :
    Conditioned state id id after := by
  have links {parts : Shape NodeId → List NodeId} (followed : Followed parts)
      {parent child : NodeId} :
      after.arena.Links parts parent child ↔ state.arena.Links parts parent child := by
    have same : parts changed.shape = parts node.shape := by
      rcases followed with rfl | rfl
      · exact children
      · exact joined
    constructor
    · intro linked
      rcases puts.link linked with ⟨rfl, _, content, member⟩ | ⟨-, old⟩
      · cases content
        exact ⟨node, found, same ▸ member⟩
      · exact old
    · intro linked
      by_cases moved : parent = id
      · subst moved
        obtain ⟨before, holds, member⟩ := linked
        rw [found] at holds
        cases holds
        exact ⟨changed, puts.at_slot, same ▸ member⟩
      · exact puts.keeps moved linked
  have reach {parts : Shape NodeId → List NodeId} (followed : Followed parts)
      {first last : NodeId} (path : ReflTransGen (after.arena.Links parts) first last) :
      ReflTransGen (state.arena.Links parts) first last :=
    ReflTransGen.mono (fun _ _ => (links followed).mp) _ _ path
  exact
    { live := fun _ alive => puts.live alive
      lexer
      quotedKey
      reach := fun _ followed _ _ _ _ => reach followed
      below := fun _ followed _ _ => reach followed
      joins := fun _ _ linked => .inl ((links (.inr rfl)).mp linked)
      joint := fun _ => exists_congr fun _ => links (.inr rfl)
      result := .inl rfl }

theorem of_stored (sound : state.Sound strict) {form : UnaryForm}
    (stored : Scan.Stored state (.unary form id) result after) :
    Conditioned state id result after := by
  have leaf : ∀ child, ¬after.arena.Joins result child := by
    intro child linked
    rcases stored.link linked with ⟨-, member⟩ | old
    · cases member
    · exact stored.not_live old.live
  have others {parts : Shape NodeId → List NodeId} (parent child : NodeId)
      (linked : after.arena.Links parts parent child) :
      parent = result ∨ state.arena.Links parts parent child :=
    (stored.link linked).imp_left And.left
  have old {parts : Shape NodeId → List NodeId} (followed : Followed parts)
      {first last : NodeId} (before : state.arena.Live first)
      (path : ReflTransGen (state.arena.Links parts) first last) : state.arena.Live last := by
    induction path with
    | refl => exact before
    | tail _ step _ =>
        rcases followed with rfl | rfl
        · exact sound.store.closed _ _ step
        · exact sound.store.closed _ _ (Arena.Joins.child step)
  exact
    { live := fun other before => by
        obtain ⟨node, -, puts⟩ := stored.puts
        exact puts.live before
      lexer := stored.lexer
      quotedKey := stored.quotedKey
      reach := fun parts followed first last before _ path => by
        rcases Acyclic.reach_of_changed others path with kept | ⟨toResult, -⟩
        · exact kept
        · exact absurd (old followed before toResult) stored.not_live
      below := fun parts followed last lastAlive path => by
        rcases Acyclic.reach_of_changed others path with kept | ⟨-, child, new, kept⟩
        · rcases ReflTransGen.cases_head kept with rfl | ⟨next, step, -⟩
          · exact absurd lastAlive stored.not_live
          · exact absurd step.live stored.not_live
        · rcases stored.link new with ⟨-, member⟩ | link
          · rcases followed with rfl | rfl
            · rw [List.mem_singleton.mp member] at kept
              exact kept
            · cases member
          · exact absurd link.live stored.not_live
      joins := fun parent child linked => by
        rcases stored.link linked with ⟨rfl, member⟩ | link
        · cases member
        · exact .inl link
      joint := fun parent => by
        constructor
        · rintro ⟨child, linked⟩
          rcases stored.link linked with ⟨-, member⟩ | link
          · cases member
          · exact ⟨child, link⟩
        · rintro ⟨child, linked⟩
          obtain ⟨node, -, puts⟩ := stored.puts
          refine ⟨child, puts.keeps ?_ linked⟩
          rintro rfl
          exact stored.not_live linked.live
      result := .inr leaf }

theorem join {left right newLeft newRight : NodeId} {node changed : Node}
    (first : Conditioned before left newLeft middle)
    (second : Conditioned middle right newRight state)
    (found : before.arena.get? id = some node)
    (operands : ∀ parts, Followed parts →
      parts node.shape = [left, right] ∧ parts changed.shape = [newLeft, newRight])
    (sound : before.Sound strict) (alive : middle.arena.Live newLeft) (after : State)
    (puts : state.arena.Puts id (some changed) after.arena)
    (lexer : after.lexer = state.lexer) (quotedKey : after.quotedKey = state.quotedKey) :
    (∀ parts, Followed parts → ∀ child ∈ parts changed.shape, ∀ last,
      before.arena.Live last → ReflTransGen (state.arena.Links parts) child last →
      ∃ operand, before.arena.Links parts id operand ∧
        ReflTransGen (before.arena.Links parts) operand last) ∧
      Conditioned before id id after := by
  have linked {parts : Shape NodeId → List NodeId} (followed : Followed parts)
      {operand : NodeId} (member : operand = left ∨ operand = right) :
      before.arena.Links parts id operand :=
    ⟨node, found, by rw [(operands parts followed).1]; simpa using member⟩
  have closed {operand : NodeId} (member : operand = left ∨ operand = right) :
      before.arena.Live operand :=
    sound.store.closed id operand (linked (.inl rfl) member)
  have below : ∀ parts, Followed parts → ∀ child ∈ parts changed.shape, ∀ last,
      before.arena.Live last → ReflTransGen (state.arena.Links parts) child last →
      ∃ operand, before.arena.Links parts id operand ∧
        ReflTransGen (before.arena.Links parts) operand last := by
    intro parts followed child member last before path
    rw [(operands parts followed).2] at member
    simp only [List.mem_cons, List.not_mem_nil, or_false] at member
    rcases member with rfl | rfl
    · refine ⟨left, linked followed (.inl rfl), first.below parts followed last before ?_⟩
      exact second.reach parts followed _ _ alive (first.live last before) path
    · refine ⟨right, linked followed (.inr rfl), ?_⟩
      refine first.reach parts followed _ _ (closed (.inr rfl)) before ?_
      exact second.below parts followed last (first.live last before) path
  have others {parts : Shape NodeId → List NodeId} (parent child : NodeId)
      (link : after.arena.Links parts parent child) :
      parent = id ∨ state.arena.Links parts parent child :=
    (puts.link link).imp And.left And.right
  have both {parts : Shape NodeId → List NodeId} (followed : Followed parts)
      {one other : NodeId} (oneAlive : before.arena.Live one)
      (otherAlive : before.arena.Live other)
      (path : ReflTransGen (state.arena.Links parts) one other) :
      ReflTransGen (before.arena.Links parts) one other :=
    first.reach parts followed _ _ oneAlive otherAlive
      (second.reach parts followed _ _ (first.live _ oneAlive) (first.live _ otherAlive) path)
  have reach : ∀ parts, Followed parts → ∀ one other, before.arena.Live one →
      before.arena.Live other → ReflTransGen (after.arena.Links parts) one other →
      ReflTransGen (before.arena.Links parts) one other := by
    intro parts followed one other oneAlive otherAlive path
    rcases Acyclic.reach_of_changed others path with kept | ⟨toNode, child, new, onward⟩
    · exact both followed oneAlive otherAlive kept
    · rcases puts.link new with ⟨-, _, content, member⟩ | ⟨different, -⟩
      · cases content
        obtain ⟨operand, link, rest⟩ := below parts followed child member other otherAlive onward
        exact (both followed oneAlive ⟨node, found⟩ toNode).trans (.head link rest)
      · exact absurd rfl different
  have joint : ∀ parent, (∃ child, state.arena.Joins parent child) ↔
      ∃ child, before.arena.Joins parent child :=
    fun parent => (second.joint parent).trans (first.joint parent)
  have leaf {child : NodeId} (none : ∀ next, ¬state.arena.Joins child next) :
      ∀ next, ¬after.arena.Joins child next := by
    intro next link
    rcases puts.link link with ⟨rfl, -⟩ | ⟨-, old⟩
    · obtain ⟨operand, still⟩ := (joint child).mpr ⟨left, linked (.inr rfl) (.inl rfl)⟩
      exact none operand still
    · exact none next old
  have later {child : NodeId} (none : ∀ next, ¬middle.arena.Joins child next) :
      ∀ next, ¬after.arena.Joins child next :=
    leaf fun next link => by
      obtain ⟨other, early⟩ := (second.joint child).mp ⟨next, link⟩
      exact none other early
  refine ⟨below, ?_⟩
  exact
    { live := fun other alive => puts.live (second.live other (first.live other alive))
      lexer := lexer.trans (second.lexer.trans first.lexer)
      quotedKey := quotedKey.trans (second.quotedKey.trans first.quotedKey)
      reach
      below := fun parts followed last => reach parts followed id last ⟨node, found⟩
      joins := fun parent child link => by
        rcases puts.link link with ⟨rfl, _, content, member⟩ | ⟨-, old⟩
        · cases content
          rw [(operands _ (.inr rfl)).2] at member
          simp only [List.mem_cons, List.not_mem_nil, or_false] at member
          rcases member with rfl | rfl
          · rcases first.result with same | none
            · exact .inl (linked (.inr rfl) (.inl same))
            · exact .inr (later none)
          · rcases second.result with same | none
            · exact .inl (linked (.inr rfl) (.inr same))
            · exact .inr (leaf none)
        · rcases second.joins parent child old with early | none
          · exact (first.joins parent child early).imp_right later
          · exact .inr (leaf none)
      joint := fun parent => by
        by_cases same : parent = id
        · subst same
          refine ⟨fun _ => ⟨left, linked (.inr rfl) (.inl rfl)⟩, fun _ => ⟨newLeft, ?_⟩⟩
          exact ⟨changed, puts.at_slot, by rw [(operands _ (.inr rfl)).2]; simp⟩
        · rw [← joint parent]
          constructor
          · rintro ⟨child, link⟩
            exact ⟨child, ((puts.link link).resolve_left fun new => same new.1).2⟩
          · rintro ⟨child, link⟩
            exact ⟨child, puts.keeps same link⟩
      result := .inl rfl }

end Conditioned

namespace Scan

/-- A range in a condition becomes a flip-flop. -/
theorem flipFlop_builds (held : Held strict base handles state) {node : Node}
    {form changed : BinaryForm} {left right : NodeId} (mine : .node id ∈ handles)
    (found : state.arena.get? id = some node) (shape : node.shape = .binary form left right)
    (before : (Shape.binary form left right).joined = [])
    (after : (Shape.binary changed left right).joined = []) :
    Ends (setShape id (.binary changed left right)) state fun _ after =>
      Held strict base handles after ∧ Still state after ∧ Conditioned state id id after := by
  refine modifyNode_ends found fun arena puts free => ⟨?_, ⟨rfl, rfl, rfl⟩, ?_⟩
  · exact held.reshape_same mine found (by simp [shape, Shape.IsSymbol]) (by simp [shape])
      (by simp [shape]) (by rw [shape, before, after]) (by simp [shape]) puts
      (free held.sound.store.free)
  · exact Conditioned.of_same found puts (by simp [shape]) (by rw [shape, before, after]) rfl rfl

/-- The operands of `and` and `or` are made conditions first. -/
theorem conditionBoth_builds (held : Held strict base handles state) {node : Node}
    {form : BinaryForm} {left right : NodeId} (mine : .node id ∈ handles)
    (found : state.arena.get? id = some node) (shape : node.shape = .binary form left right)
    (joined : ∀ left right : NodeId, (Shape.binary form left right).joined = [left, right])
    {depth : Nat} (bounded : Bounded state.arena.Joins (depth + 1) id)
    (visit : ∀ {handles : List Handle} {state : State} {id : NodeId},
      Held strict base handles state → .node id ∈ handles →
      Bounded state.arena.Joins depth id →
      Builds strict base handles (conditionFrom depth id) state fun result after =>
        Conditioned state id result after) :
    Builds strict base handles
      (do
        let left ← conditionFrom depth left
        let right ← conditionFrom depth right
        setShape id (.binary form left right)
        return id) state
      fun result after => Conditioned state id result after := by
  have operands {left right : NodeId} (parts : Shape NodeId → List NodeId)
      (followed : Followed parts) : parts (.binary form left right) = [left, right] := by
    rcases followed with rfl | rfl
    · rfl
    · exact joined left right
  have plain : ¬node.shape.IsSymbol := by simp [shape, Shape.IsSymbol]
  have filled : node.shape ≠ .text .string [] := by simp [shape]
  have made := held.fresh mine found plain
  have links {operand : NodeId} (member : operand ∈ [left, right]) :
      state.arena.Joins id operand :=
    ⟨node, found, by rw [shape, joined]; exact member⟩
  have family : Held strict base ([left, right].map .node ++ handles) state :=
    held.child made fun child member => (links member).child
  refine (visit family (by simp) (bounded left (links (by simp)))).bind ?_
  rintro newLeft middle ⟨held, still, first⟩
  refine (visit held (by simp) (first.within (bounded right (links (by simp))))).bind ?_
  rintro newRight reached ⟨heldBoth, later, second⟩
  obtain ⟨now, holds⟩ := second.live id (first.live id ⟨node, found⟩)
  refine (modifyNode_ends holds fun arena puts free => ?_ : Ends (setShape id _) reached
    fun _ after => Held strict base handles after ∧ Still reached after ∧
      Conditioned state id id after).bind fun _ after built =>
    ends_pure ⟨built.1.weaken (by simpa using mine),
      (still.trans later).trans built.2.1, built.2.2⟩
  obtain ⟨below, done⟩ := Conditioned.join first second found
    (fun parts followed => ⟨shape ▸ operands parts followed, operands parts followed⟩)
    family.sound (held.live (by simp)) { reached with arena } puts rfl rfl
  -- An operand that reached the node would have closed a cycle before.
  have closes {parts : Shape NodeId → List NodeId} (followed : Followed parts)
      (acyclic : Acyclic (state.arena.Links parts)) {child : NodeId}
      (member : child ∈ parts (.binary form newLeft newRight)) :
      ¬Relation.ReflTransGen (reached.arena.Links parts) child id := by
    intro path
    obtain ⟨operand, link, back⟩ := below parts followed child member id ⟨node, found⟩ path
    exact acyclic id (.head' link back)
  refine ⟨?_, ⟨rfl, rfl, rfl⟩, done⟩
  refine (heldBoth.reshape (fun alive => absurd alive made) ?_ ?_ ?_ ?_ ?_ ?_ puts
    (free heldBoth.sound.store.free)).weaken (by simp +contextual)
  · rw [second.lexer, first.lexer]
    exact family.sound.not_awaited found filled
  · rw [second.quotedKey, first.quotedKey]
    exact family.sound.not_key found plain
  · simp
  · simp
  · exact fun child => closes (.inr rfl) family.sound.store.joins
  · exact fun wanted child => closes (.inl rfl) (family.sound.store.acyclic wanted)

/-- A node is made a condition within the length of its ways through `and` and
`or`. -/
theorem conditionFrom_builds : ∀ {depth : Nat} {handles : List Handle} {state : State}
    {id : NodeId}, Held strict base handles state → .node id ∈ handles →
    Bounded state.arena.Joins depth id →
    Builds strict base handles (conditionFrom depth id) state fun result after =>
      Conditioned state id result after
  | 0, _, _, _, _, _, bounded => bounded.elim
  | depth + 1, handles, state, id, held, mine, bounded => by
      have finish {reached : State} (built : Held strict base handles reached ∧
          Still state reached ∧ Conditioned state id id reached) :
          Ends (pure id) reached fun result after =>
            Held strict base (handlesOf result ++ handles) after ∧ Still state after ∧
              Conditioned state id result after :=
        ends_pure ⟨built.1.weaken (by simpa using mine), built.2⟩
      have live := held.live mine
      unfold conditionFrom
      refine (shapeOf_looks live).bind ?_
      rintro _ ⟨node, found, rfl⟩
      dsimp only
      split
      · next shape =>
          exact (flipFlop_builds held mine found shape rfl rfl).bind fun _ _ => finish
      · next shape =>
          exact (flipFlop_builds held mine found shape rfl rfl).bind fun _ _ => finish
      · next shape =>
          exact conditionBoth_builds held mine found shape (fun _ _ => rfl) bounded
            conditionFrom_builds
      · next shape =>
          exact conditionBoth_builds held mine found shape (fun _ _ => rfl) bounded
            conditionFrom_builds
      · refine (spanOf_looks live).bind fun span _ => ?_
        refine (alloc_stores held (by simpa using mine) span).mono fun result after built => ?_
        exact ⟨built.1, built.2.1, Conditioned.of_stored held.sound built.2.2.2⟩
      · refine (spanOf_looks live).bind fun span _ => ?_
        refine (alloc_stores held (by simpa using mine) span).mono fun result after built => ?_
        exact ⟨built.1, built.2.1, Conditioned.of_stored held.sound built.2.2.2⟩
      · exact finish ⟨held, Still.refl state, Conditioned.refl state id⟩

theorem condition_builds (held : Held strict base handles state) (mine : .node id ∈ handles) :
    Builds strict base handles (condition id) state fun _ _ => True := by
  have bounded : Bounded state.arena.Joins (state.arena.slotCount + 1) id :=
    held.sound.store.joins.within (fun _ _ linked => linked.slot_lt) id
  refine Ends.get_bind ?_
  exact (conditionFrom_builds held mine bounded).mono fun _ _ built =>
    ⟨built.1, built.2.1, trivial⟩

end Scan

end RubySyntax
