/-
The steps that look at nodes, make them, change them and give them back.
-/

import RubySyntax.Proofs.Grammar.Rule

namespace RubySyntax

variable {strict : Prop} {base state : State} {handles : List Handle}

namespace Held

theorem respan (held : Held strict base handles state) {id : NodeId} {node changed : Node}
    {arena : Arena} (found : state.arena.get? id = some node)
    (puts : state.arena.Puts id (some changed) arena) (same : changed.shape = node.shape)
    (free : arena.FreeSound) : Held strict base handles { state with arena } := by
  have links {parts : Shape NodeId → List NodeId} {parent child : NodeId}
      (linked : arena.Links parts parent child) : state.arena.Links parts parent child := by
    rcases puts.link linked with ⟨rfl, stored, content, member⟩ | ⟨-, old⟩
    · cases content
      exact ⟨node, found, same ▸ member⟩
    · exact old
  have kept {other : NodeId} {before : Node} (holds : state.arena.get? other = some before) :
      ∃ now, arena.get? other = some now ∧ now.shape = before.shape := by
    by_cases moved : other = id
    · subst moved
      rw [found] at holds
      cases holds
      exact ⟨changed, puts.at_slot, same⟩
    · exact ⟨before, (puts.apart moved).trans holds, rfl⟩
  have live {other : NodeId} (alive : state.arena.Live other) : arena.Live other :=
    puts.live alive
  exact
    { start := held.start
      sound :=
        { reads := held.sound.reads.of_eq rfl rfl rfl rfl
          store :=
            { free
              closed := fun parent child linked =>
                live (held.sound.store.closed parent child (links linked))
              joins := held.sound.store.joins.mono fun _ _ => links
              acyclic := fun wanted =>
                (held.sound.store.acyclic wanted).mono fun _ _ => links }
          waiting := fun other member => by
            obtain ⟨before, holds, text⟩ := held.sound.waiting other member
            obtain ⟨now, still, shape⟩ := kept holds
            exact ⟨now, still, shape.trans text⟩
          distinct := held.sound.distinct
          key := fun other waiting => by
            obtain ⟨before, holds, symbol⟩ := held.sound.key other waiting
            obtain ⟨now, still, shape⟩ := kept holds
            exact ⟨now, still, shape ▸ symbol⟩
          called := fun other now still name member => by
            change arena.get? other = some now at still
            by_cases moved : other = id
            · subst moved
              rw [puts.at_slot] at still
              cases still
              exact held.sound.called other node found name (same ▸ member)
            · rw [puts.apart moved] at still
              exact held.sound.called other now still name member
          ahead := fun token read => ⟨(held.sound.ahead token read).known,
            (held.sound.ahead token read).pending⟩ }
      keeps :=
        { live := fun other before => live (held.keeps.live other before)
          edges := fun parent child before linked =>
            held.keeps.edges parent child before (links linked)
          shapes := fun other before holds unawaited => by
            obtain ⟨middle, now, shape⟩ := held.keeps.shapes other before holds unawaited
            obtain ⟨last, still, again⟩ := kept now
            exact ⟨last, still, again.trans shape⟩
          key := held.keeps.key
          awaited := held.keeps.awaited
          names := held.keeps.names
          limits := held.keeps.limits
          onward := held.keeps.onward
          progress := held.keeps.progress }
      valid := fun handle member => by
        have valid := held.valid handle member
        cases handle with
        | name symbol => exact valid
        | node other => exact ⟨live valid.1, valid.2⟩ }

theorem reshape (held : Held strict base handles state) {id : NodeId} {changed : Node}
    (own : base.arena.Live id → id ∈ base.lexer.awaited)
    (unawaited : id ∉ state.lexer.awaited) (noKey : state.quotedKey ≠ some id)
    (children : ∀ child ∈ changed.shape.children, .node child ∈ handles)
    (called : ∀ name ∈ changed.shape.called, state.symbols.Knows name)
    (joins : ∀ child ∈ changed.shape.joined,
      ¬Relation.ReflTransGen state.arena.Joins child id)
    (acyclic : strict → ∀ child ∈ changed.shape.children,
      ¬Relation.ReflTransGen state.arena.Child child id)
    {arena : Arena} (puts : state.arena.Puts id (some changed) arena)
    (free : arena.FreeSound) :
    Held strict base handles { state with arena } := by
  refine held.put puts ?_ (fun alive => ⟨own alive, rfl⟩) unawaited noKey ?_ ?_
    (fun _ member => member) nofun
  · exact held.sound.store.put puts free
      (fun child member => held.live (children child member)) joins acyclic
  · rintro _ ⟨⟩
    exact children
  · rintro _ ⟨⟩
    exact called

end Held

namespace State.Sound

variable {id : NodeId} {node : Node}

theorem not_key (sound : state.Sound strict) (found : state.arena.get? id = some node)
    (plain : ¬node.shape.IsSymbol) : state.quotedKey ≠ some id := by
  intro waiting
  obtain ⟨same, holds, symbol⟩ := sound.key id waiting
  rw [found] at holds
  cases holds
  exact plain symbol

theorem not_awaited (sound : state.Sound strict) (found : state.arena.get? id = some node)
    (filled : node.shape ≠ .text .string []) : id ∉ state.lexer.awaited := by
  intro member
  obtain ⟨same, holds, text⟩ := sound.waiting id member
  rw [found] at holds
  cases holds
  exact filled text

end State.Sound

theorem Held.reshape_same (held : Held strict base handles state) {id : NodeId}
    {node changed : Node} (mine : .node id ∈ handles)
    (found : state.arena.get? id = some node) (plain : ¬node.shape.IsSymbol)
    (filled : node.shape ≠ .text .string [])
    (children : changed.shape.children = node.shape.children)
    (joined : changed.shape.joined = node.shape.joined)
    (called : changed.shape.called = node.shape.called)
    {arena : Arena} (puts : state.arena.Puts id (some changed) arena)
    (free : arena.FreeSound) : Held strict base handles { state with arena } := by
  have made := held.fresh mine found plain
  have family : Held strict base (node.shape.children.map .node ++ handles) state :=
    held.child made fun child member => ⟨node, found, member⟩
  refine (family.reshape (fun alive => absurd alive made)
    (held.sound.not_awaited found filled) (held.sound.not_key found plain)
    (fun child member => ?_) (fun name member => ?_) (fun child member path => ?_)
    (fun wanted child member path => ?_) puts free).weaken
    fun _ member => List.mem_append_right _ member
  · exact List.mem_append_left _ (List.mem_map_of_mem (children ▸ member))
  · exact held.sound.called id node found name (called ▸ member)
  · exact held.sound.store.joins id (.head' ⟨node, found, joined ▸ member⟩ path)
  · exact held.sound.store.acyclic wanted id (.head' ⟨node, found, children ▸ member⟩ path)

theorem Held.reshape_root (held : Held strict base handles state) {id : NodeId}
    {node changed : Node} (mine : .node id ∈ handles)
    (found : state.arena.get? id = some node) (plain : ¬node.shape.IsSymbol)
    (filled : node.shape ≠ .text .string []) (rooted : state.arena.Rooted id)
    (children : ∀ child ∈ changed.shape.children,
      child ∈ node.shape.children ∨ (.node child ∈ handles ∧ child ≠ id))
    (called : ∀ name ∈ changed.shape.called, name ∈ node.shape.called)
    {arena : Arena} (puts : state.arena.Puts id (some changed) arena)
    (free : arena.FreeSound) :
    Held strict base handles { state with arena } ∧ arena.Rooted id := by
  have noParent := rooted.no_parent found plain
  have made := held.fresh mine found plain
  have different : ∀ child ∈ changed.shape.children, child ≠ id := by
    rintro child member rfl
    rcases children child member with old | new
    · exact noParent child ⟨node, found, old⟩
    · exact new.2 rfl
  refine ⟨?_, ⟨changed, puts.at_slot⟩, .inl fun parent linked => ?_⟩
  · have family : Held strict base (node.shape.children.map .node ++ handles) state :=
      held.child made fun child member => ⟨node, found, member⟩
    refine (family.reshape (fun alive => absurd alive made)
      (held.sound.not_awaited found filled) (held.sound.not_key found plain)
      (fun child member => ?_) (fun name member => ?_) (fun child member => ?_)
      (fun _ child member => ?_) puts free).weaken fun _ member => List.mem_append_right _ member
    · exact (children child member).elim
        (fun old => List.mem_append_left _ (List.mem_map_of_mem old))
        fun new => List.mem_append_right _ new.1
    · exact held.sound.called id node found name (called name member)
    · exact Arena.not_reaches_of_no_parent (fun parent joins => noParent parent joins.child)
        (different child (Shape.children_of_joined member))
    · exact Arena.not_reaches_of_no_parent noParent (different child member)
  · rcases puts.link linked with ⟨-, _, content, member⟩ | ⟨-, old⟩
    · cases content
      exact different id member rfl
    · exact noParent parent old

namespace Scan

/-! ### Looking at nodes -/

theorem nodeAt_looks {id : NodeId} (live : state.arena.Live id) :
    Looks (nodeAt id) state fun node => state.arena.get? id = some node := by
  obtain ⟨node, found⟩ := live
  refine Ends.get_bind ?_
  rw [found]
  exact ends_pure ⟨rfl, rfl⟩

theorem shapeOf_looks {id : NodeId} (live : state.arena.Live id) :
    Looks (shapeOf id) state fun shape =>
      ∃ node, state.arena.get? id = some node ∧ node.shape = shape :=
  (nodeAt_looks live).bind fun node found => Looks.pure ⟨node, found, rfl⟩

theorem spanOf_looks {id : NodeId} (live : state.arena.Live id) :
    Looks (spanOf id) state fun _ => True :=
  (nodeAt_looks live).bind fun _ _ => Looks.pure trivial

theorem spanOf?_looks {item : Option NodeId}
    (live : ∀ id, item = some id → state.arena.Live id) :
    Looks (spanOf? item) state fun _ => True := by
  cases item with
  | none => exact Looks.pure trivial
  | some id => exact spanOf_looks (live id rfl)

theorem spanOfBoth_looks {left right : NodeId} (first : state.arena.Live left)
    (second : state.arena.Live right) : Looks (spanOfBoth left right) state fun _ => True :=
  (spanOf_looks first).bind fun _ _ =>
    (spanOf_looks second).bind fun _ _ => Looks.pure trivial

theorem mapM_looks {α β : Type} {step : α → Scan β} :
    ∀ {items : List α}, (∀ item ∈ items, Looks (step item) state fun _ => True) →
      Looks (items.mapM step) state fun _ => True
  | [], _ => Looks.pure trivial
  | item :: items, looks => by
      rw [List.mapM_cons]
      refine (looks item List.mem_cons_self).bind fun _ _ => ?_
      refine Looks.bind (mapM_looks fun other member =>
        looks other (List.mem_cons_of_mem _ member)) fun _ _ => ?_
      exact Looks.pure trivial

theorem spanOfAll_looks {items : List NodeId} (live : ∀ id ∈ items, state.arena.Live id) :
    Looks (spanOfAll items) state fun _ => True :=
  (mapM_looks fun id member => spanOf_looks (live id member)).bind fun _ _ =>
    Looks.pure trivial

theorem sliceOf_looks (span : Span) : Looks (sliceOf span) state fun _ => True :=
  Ends.get_bind (Looks.pure trivial)

theorem nameOf_looks {name : Symbol} (known : state.symbols.Knows name) :
    Looks (nameOf name) state fun _ => True := by
  refine Ends.get_bind (Ends.relyOn_bind ?_ (Looks.pure trivial))
  exact decide_eq_true known

/-! ### Making nodes -/

structure Stored (before : State) (shape : Shape NodeId) (id : NodeId) (after : State) :
    Prop where
  empty : before.arena.get? id = none
  puts : ∃ node, node.shape = shape ∧ before.arena.Puts id (some node) after.arena
  lexer : after.lexer = before.lexer
  quotedKey : after.quotedKey = before.quotedKey

namespace Stored

variable {before after : State} {shape : Shape NodeId} {id : NodeId}

theorem found (stored : Stored before shape id after) :
    ∃ node, after.arena.get? id = some node ∧ node.shape = shape := by
  obtain ⟨node, same, puts⟩ := stored.puts
  exact ⟨node, puts.at_slot, same⟩

theorem not_live (stored : Stored before shape id after) : ¬before.arena.Live id := by
  rintro ⟨node, found⟩
  rw [stored.empty] at found
  cases found

/-- What refers to a node after another was stored: that one, or what referred
to it before. -/
theorem link (stored : Stored before shape id after) {parts : Shape NodeId → List NodeId}
    {parent child : NodeId} (linked : after.arena.Links parts parent child) :
    (parent = id ∧ child ∈ parts shape) ∨ before.arena.Links parts parent child := by
  obtain ⟨node, rfl, puts⟩ := stored.puts
  rcases puts.link linked with ⟨same, _, content, member⟩ | ⟨-, old⟩
  · cases content
    exact .inl ⟨same, member⟩
  · exact .inr old

end Stored

theorem alloc_stores (held : Held strict base handles state) {shape : Shape NodeId}
    (mine : ∀ handle ∈ handlesOf shape, handle ∈ handles) (span : Span) :
    Builds strict base handles (alloc shape span) state fun id after =>
      after.arena.Rooted id ∧ Stored state shape id after := by
  refine Ends.get_bind (Ends.relyOn_bind (held.sound.reads.map.canLocate _) ?_)
  dsimp only
  split
  · next id arena stored =>
      have children : ∀ child ∈ shape.children, .node child ∈ handles :=
        fun child member => mine _ (List.mem_append_left _ (List.mem_map_of_mem member))
      obtain ⟨empty, free, puts⟩ := Arena.alloc_spec held.sound.store.free stored
      have dead : ¬state.arena.Live id := by
        rintro ⟨node, found⟩
        rw [empty] at found
        cases found
      have noParent := held.sound.store.no_parent empty
      have store : arena.Sound strict := by
        refine held.sound.store.put_root puts free
          (fun child member => held.live (children child member)) noParent ?_
        rintro child member rfl
        exact dead (held.live (children child member))
      have made : ¬base.arena.Live id := fun alive => dead (held.keeps.live id alive)
      have changed : Held strict base handles { state with arena } := by
        refine held.put puts store (fun alive => absurd alive made) ?_ ?_ ?_ ?_
          (fun _ member => member) nofun
        · intro member
          obtain ⟨node, found, -⟩ := held.sound.waiting id member
          exact dead ⟨node, found⟩
        · intro waiting
          obtain ⟨node, found, -⟩ := held.sound.key id waiting
          exact dead ⟨node, found⟩
        · rintro _ ⟨⟩
          exact children
        · rintro _ ⟨⟩ name member
          exact held.known (mine _ (List.mem_append_right _ (List.mem_map_of_mem member)))
      refine Ends.set_bind (ends_pure ⟨changed.add ⟨_, puts.at_slot⟩ made, ⟨rfl, rfl, rfl⟩,
        ⟨⟨_, puts.at_slot⟩, .inl fun parent linked => ?_⟩, empty, ⟨_, rfl, puts⟩, rfl, rfl⟩)
      rcases puts.link linked with ⟨-, _, content, member⟩ | ⟨-, old⟩
      · cases content
        exact dead (held.live (children id member))
      · exact noParent parent old
  · exact ends_fail held.sound.reads.map

theorem alloc_ends (held : Held strict base handles state) {shape : Shape NodeId}
    (mine : ∀ handle ∈ handlesOf shape, handle ∈ handles) (span : Span) :
    Builds strict base handles (alloc shape span) state fun id after =>
      after.arena.Rooted id :=
  (alloc_stores held mine span).mono fun _ _ built => ⟨built.1, built.2.1, built.2.2.1⟩

/-! ### Changing nodes -/

theorem modifyNode_ends {id : NodeId} {node : Node} {f : Node → Node}
    {post : Unit → State → Prop} (found : state.arena.get? id = some node)
    (holds : ∀ arena, state.arena.Puts id (some (f node)) arena →
      (state.arena.FreeSound → arena.FreeSound) → post () { state with arena }) :
    Ends (modifyNode id f) state post := by
  refine (nodeAt_looks ⟨node, found⟩).bind fun _ _ => ?_
  exact ends_modify (holds _ (Arena.modify_spec found f) fun free => free.modify id f)

theorem widen_ends (held : Held strict base handles state) {id : NodeId}
    (live : state.arena.Live id) (span : Span) :
    Builds strict base handles (widen id span) state fun _ after =>
      ∀ other, state.arena.Rooted other → after.arena.Rooted other := by
  obtain ⟨node, found⟩ := live
  refine modifyNode_ends found fun arena puts free => ?_
  have own := (Held.refl held.sound).respan found puts rfl (free held.sound.store.free)
  exact ⟨held.next own, ⟨rfl, rfl, rfl⟩, fun other rooted => own.rooted rooted⟩

theorem recycle_ends (held : Held strict base handles state) {id : NodeId}
    (made : ¬base.arena.Live id) (unawaited : id ∉ state.lexer.awaited)
    (noKey : state.quotedKey ≠ some id) (noParent : ∀ parent, ¬state.arena.Child parent id)
    (left : List Handle) (fewer : ∀ handle ∈ left, handle ∈ handles)
    (given : .node id ∉ left) :
    Ends (recycle id) state fun _ after =>
      Held strict base left after ∧ Still state after ∧
        state.arena.Puts id none after.arena ∧ after.lexer = state.lexer ∧
        after.quotedKey = state.quotedKey := by
  have puts := (Arena.recycle_spec held.sound.store.free id).2
  refine ends_modify ⟨?_, ⟨rfl, rfl, rfl⟩, puts, rfl, rfl⟩
  exact held.put puts (held.sound.store.recycle noParent) (fun alive => absurd alive made)
    unawaited noKey nofun nofun fewer fun _ => given

/-! ### Reports, names and scopes -/

theorem silent_builds {step : Scan Unit} (held : Held strict base handles state)
    (silent : Ends step state fun _ after => Silent state after) :
    Builds strict base handles step state fun _ after => after.arena = state.arena :=
  silent.mono fun _ _ quiet =>
    ⟨held.next (held.sound.silent quiet), quiet.still, quiet.arena⟩

theorem report_builds (held : Held strict base handles state) (span : Span)
    (problem : Problem) :
    Builds strict base handles (report span problem) state fun _ after =>
      after.arena = state.arena :=
  silent_builds held (report_ends held.sound.reads span problem)

theorem unexpected_builds (held : Held strict base handles state) (token : Token)
    (expecting : Option String) :
    Builds strict base handles (unexpected token expecting) state fun _ after =>
      after.arena = state.arena :=
  report_builds held _ _

theorem requireValue_builds (held : Held strict base handles state) {id : NodeId}
    (live : state.arena.Live id) :
    Builds strict base handles (requireValue id) state fun _ after =>
      after.arena = state.arena := by
  refine (shapeOf_looks live).bind fun _ _ => Ends.ite (fun _ => ?_) fun _ => ?_
  · exact (spanOf_looks live).bind fun _ _ => report_builds held _ _
  · exact ends_pure ⟨held, Still.refl state, rfl⟩

theorem refuseBlock_builds (held : Held strict base handles state) {block : Option NodeId}
    (live : ∀ id, block = some id → state.arena.Live id) :
    Builds strict base handles (refuseBlock block) state fun _ after =>
      after.arena = state.arena := by
  unfold refuseBlock
  split
  · exact (spanOf_looks (live _ rfl)).bind fun _ _ => report_builds held _ _
  · exact ends_pure ⟨held, Still.refl state, rfl⟩

theorem intern_builds (held : Held strict base handles state) (name : Bytes) :
    Builds strict base handles (intern name) state fun _ after =>
      after.arena = state.arena := by
  refine (intern_ends name).mono fun symbol after interned => ?_
  have next := held.next (held.sound.silent interned.1)
  refine ⟨next.gain fun handle member => ?_, interned.1.still, interned.1.arena⟩
  rw [List.mem_singleton.mp member]
  exact interned.2

theorem scopes_builds (held : Held strict base handles state)
    (f : ScopeStack → ScopeStack) :
    Builds strict base handles
      (modify fun state => { state with scopes := f state.scopes } : Scan Unit) state
      fun _ after => after.arena = state.arena :=
  silent_builds held (ends_modify ⟨rfl, rfl, rfl, rfl, rfl, rfl, rfl, rfl, Nat.le_refl _⟩)

theorem declare_builds (held : Held strict base handles state) (name : Symbol) :
    Builds strict base handles (declare name) state fun _ after =>
      after.arena = state.arena :=
  scopes_builds held fun scopes => scopes.declare name

theorem enterScope_builds (held : Held strict base handles state) (kind : ScopeKind) :
    Builds strict base handles (enterScope kind) state fun _ after =>
      after.arena = state.arena :=
  scopes_builds held fun scopes => scopes.push kind

theorem leaveScope_builds (held : Held strict base handles state) {body : Option NodeId}
    (mine : ∀ id, body = some id → .node id ∈ handles) (span : Span) :
    Builds strict base handles (leaveScope body span) state fun id after =>
      after.arena.Rooted id := by
  refine Ends.get_bind ?_
  refine (scopes_builds held fun _ => state.scopes.pop.2).bind ?_
  rintro _ reached ⟨held, still, -⟩
  refine (alloc_ends held ?_ span).mono fun id after built =>
    ⟨built.1, still.trans built.2.1, built.2.2⟩
  simpa [handlesOf, Shape.children, Shape.called] using mine

theorem setFlags_builds (held : Held strict base handles state) {f : LexerState → LexerState}
    (literal : (f state.lexer).literal = state.lexer.literal)
    (contexts : (f state.lexer).contexts = state.lexer.contexts)
    (heredocs : (f state.lexer).heredocs = state.lexer.heredocs)
    (due : (f state.lexer).heredocsDue = state.lexer.heredocsDue)
    (pending : (f state.lexer).variablePending = state.lexer.variablePending) :
    Builds strict base handles (setLexer f) state fun _ after =>
      after.arena = state.arena := by
  obtain ⟨set, still⟩ := held.sound.setFlags literal contexts heredocs due pending
  exact ends_modify ⟨held.next set, still, rfl⟩

theorem enterConstruct_builds (held : Held strict base handles state) :
    Builds strict base handles enterConstruct state fun _ after =>
      after.arena = state.arena :=
  setFlags_builds held rfl rfl rfl rfl rfl

theorem leaveConstruct_builds (held : Held strict base handles state) :
    Builds strict base handles leaveConstruct state fun _ after =>
      after.arena = state.arena :=
  setFlags_builds held rfl rfl rfl rfl rfl

/-- The key of a quoted label that waits is held from here on. -/
theorem takeQuotedKey?_builds (held : Held strict base handles state) :
    Builds strict base handles takeQuotedKey? state fun key after =>
      after.arena = state.arena ∧ key = state.quotedKey ∧ after.lexer = state.lexer ∧
        after.quotedKey = none := by
  have cleared := held.setKey none nofun
  refine ends_modifyGet ⟨cleared.gain fun handle member => ?_, ⟨rfl, rfl, rfl⟩, rfl, rfl, rfl, rfl⟩
  cases key : state.quotedKey with
  | none =>
      rw [key] at member
      cases member
  | some id =>
      rw [key, handlesOf_some, handlesOf_node, List.mem_singleton] at member
      subst member
      obtain ⟨node, found, -⟩ := held.sound.key id key
      exact ⟨⟨node, found⟩, held.keeps.key id key⟩

end Scan

end RubySyntax
