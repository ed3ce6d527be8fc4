/-
What holds between any two steps of the grammar.

A rule starts in a base state and holds on to nodes and names while it reads.
The nodes that were alive in the base state are not its own: it refers to none
of them, apart from the key of a quoted label that was waiting then. So a node
that a rule has made can be changed or given back without any other rule
noticing.
-/

import RubySyntax.Proofs.Lexer.Token
import RubySyntax.Proofs.Store

namespace RubySyntax

/-! ### States -/

def lookaheadWeight : Option Token → Nat
  | some token => if token.kind = .endOfInput then 0 else 1
  | none => 0

@[simp] theorem lookaheadWeight_none : lookaheadWeight none = 0 := rfl

theorem lookaheadWeight_le (ahead : Option Token) : lookaheadWeight ahead ≤ 1 := by
  unfold lookaheadWeight
  split
  · split <;> omega
  · omega

theorem lookaheadWeight_end {token : Token} (ended : token.kind = .endOfInput) :
    lookaheadWeight (some token) = 0 :=
  if_pos ended

theorem lookaheadWeight_more {token : Token} (more : token.kind ≠ .endOfInput) :
    lookaheadWeight (some token) = 1 :=
  if_neg more

/-- A bound on the tokens to come, with the one that has been read. -/
def State.measure (state : State) : Nat :=
  state.remaining + lookaheadWeight state.lookahead

/-- The number of the next token to be taken, among all that are read. -/
def State.ordinal (state : State) : Nat :=
  state.tokens.length + if state.lookahead.isSome then 0 else 1

namespace State

variable {state : State}

theorem ordinal_of_some {token : Token} (seen : state.lookahead = some token) :
    state.ordinal = state.tokens.length := by
  unfold ordinal
  rw [seen]
  rfl

theorem ordinal_of_none (unseen : state.lookahead = none) :
    state.ordinal = state.tokens.length + 1 := by
  unfold ordinal
  rw [unseen]
  rfl

theorem ordinal_le (state : State) : state.ordinal ≤ state.tokens.length + 1 := by
  unfold ordinal
  split <;> omega

end State

abbrev State.Onward (before after : State) : Prop :=
  after.measure ≤ before.measure ∧ before.ordinal ≤ after.ordinal

abbrev State.Past (before after : State) : Prop :=
  after.measure < before.measure ∧ before.ordinal < after.ordinal

namespace State

variable {before middle after : State}

theorem Onward.refl (state : State) : state.Onward state :=
  ⟨Nat.le_refl _, Nat.le_refl _⟩

theorem Onward.trans (first : before.Onward middle) (second : middle.Onward after) :
    before.Onward after :=
  ⟨Nat.le_trans second.1 first.1, Nat.le_trans first.2 second.2⟩

theorem Past.onward (past : before.Past after) : before.Onward after :=
  ⟨Nat.le_of_lt past.1, Nat.le_of_lt past.2⟩

theorem Onward.past (first : before.Onward middle) (second : middle.Past after) :
    before.Past after :=
  ⟨Nat.lt_of_lt_of_le second.1 first.1, Nat.lt_of_le_of_lt first.2 second.2⟩

end State

def State.AtToken (state : State) : Prop :=
  ∃ token, state.lookahead = some token ∧ token.kind ≠ .endOfInput

def State.Sees (state : State) (kind : TokenKind) : Prop :=
  ∃ token, state.lookahead = some token ∧ token.kind = kind

def Shape.called {α : Type} : Shape α → List Symbol
  | .functionCall name _ _ => [name]
  | _ => []

def Shape.IsSymbol {α : Type} : Shape α → Prop
  | .named .symbol _ => True
  | .list .symbol _ => True
  | _ => False

def Arena.Quoted (arena : Arena) (id : NodeId) : Prop :=
  ∃ node, arena.get? id = some node ∧ node.shape.IsSymbol

/-- A node to which none refers, unless it is the key of a quoted label. -/
structure Arena.Rooted (arena : Arena) (id : NodeId) : Prop where
  live : arena.Live id
  alone : (∀ parent, ¬arena.Child parent id) ∨ arena.Quoted id

theorem Arena.Rooted.no_parent {arena : Arena} {id : NodeId} {node : Node}
    (rooted : arena.Rooted id) (found : arena.get? id = some node)
    (plain : ¬node.shape.IsSymbol) : ∀ parent, ¬arena.Child parent id := by
  rcases rooted.alone with noParent | ⟨same, holds, symbol⟩
  · exact noParent
  · rw [found] at holds
    cases holds
    exact absurd symbol plain

structure Token.Sound (token : Token) (state : State) : Prop where
  known : ∀ name ∈ token.kind.names, state.symbols.Knows name
  pending : token.kind = .variableInterpolation → state.lexer.variablePending = true

structure State.Sound (strict : Prop) (state : State) : Prop where
  reads : state.Reads
  store : state.arena.Sound strict
  /-- A node that waits for the body of a heredoc is an empty string so far. -/
  waiting : ∀ id ∈ state.lexer.awaited, ∃ node, state.arena.get? id = some node ∧
    node.shape = .text .string []
  distinct : state.lexer.awaited.Nodup
  key : ∀ id, state.quotedKey = some id → state.arena.Quoted id
  called : ∀ id node, state.arena.get? id = some node →
    ∀ name ∈ node.shape.called, state.symbols.Knows name
  ahead : ∀ token, state.lookahead = some token → token.Sound state

structure Keeps (base state : State) : Prop where
  live : ∀ id, base.arena.Live id → state.arena.Live id
  edges : ∀ parent child, base.arena.Live child → state.arena.Child parent child →
    base.arena.Child parent child ∨ base.quotedKey = some child
  shapes : ∀ id node, base.arena.get? id = some node → id ∉ base.lexer.awaited →
    ∃ kept, state.arena.get? id = some kept ∧ kept.shape = node.shape
  key : ∀ id, state.quotedKey = some id → base.arena.Live id → base.quotedKey = some id
  awaited : ∀ id ∈ state.lexer.awaited, base.arena.Live id → id ∈ base.lexer.awaited
  names : base.symbols.size ≤ state.symbols.size
  limits : state.limits = base.limits
  onward : base.Onward state
  /-- The token ahead stays until it is taken. -/
  progress : ∀ token, base.lookahead = some token →
    base.Past state ∨ state.lookahead = some token

inductive Handle where
  | node (id : NodeId)
  | name (symbol : Symbol)

/-- A node is alive and, unless it is the key that waited in the base state,
it was made since then. A name is known. -/
def Handle.Valid (base state : State) : Handle → Prop
  | .node id => state.arena.Live id ∧ (base.arena.Live id → base.quotedKey = some id)
  | .name symbol => state.symbols.Knows symbol

/-- A rule that started in a base state has reached a state and holds on to
some nodes and names. -/
structure Held (strict : Prop) (base : State) (handles : List Handle) (state : State) :
    Prop where
  start : base.Sound strict
  sound : state.Sound strict
  keeps : Keeps base state
  valid : ∀ handle ∈ handles, handle.Valid base state

variable {strict : Prop} {base middle state after : State} {handles : List Handle}

namespace Keeps

theorem refl (state : State) : Keeps state state where
  live _ alive := alive
  edges _ _ _ child := .inl child
  shapes _ node found _ := ⟨node, found, rfl⟩
  key _ waiting _ := waiting
  awaited _ member _ := member
  names := Nat.le_refl _
  limits := rfl
  onward := State.Onward.refl state
  progress _ ahead := .inr ahead

theorem trans (first : Keeps base middle) (second : Keeps middle state) :
    Keeps base state where
  live id alive := second.live id (first.live id alive)
  edges parent child alive linked := by
    rcases second.edges parent child (first.live child alive) linked with old | waiting
    · exact first.edges parent child alive old
    · exact .inr (first.key child waiting alive)
  shapes id node found unawaited := by
    obtain ⟨kept, holds, same⟩ := first.shapes id node found unawaited
    have unawaited : id ∉ middle.lexer.awaited := fun member =>
      unawaited (first.awaited id member ⟨node, found⟩)
    obtain ⟨last, later, shape⟩ := second.shapes id kept holds unawaited
    exact ⟨last, later, shape.trans same⟩
  key id waiting alive := first.key id (second.key id waiting (first.live id alive)) alive
  awaited id member alive :=
    first.awaited id (second.awaited id member (first.live id alive)) alive
  names := Nat.le_trans first.names second.names
  limits := second.limits.trans first.limits
  onward := first.onward.trans second.onward
  progress token ahead := by
    have shorter := second.onward
    have before := first.onward
    rcases first.progress token ahead with less | kept
    · exact .inl (by omega)
    · exact (second.progress token kept).imp (fun less => by omega) id

theorem of_arena (arena : after.arena = state.arena)
    (key : ∀ id, after.quotedKey = some id → state.arena.Live id →
      state.quotedKey = some id)
    (awaited : ∀ id ∈ after.lexer.awaited, state.arena.Live id → id ∈ state.lexer.awaited)
    (names : state.symbols.size ≤ after.symbols.size)
    (limits : after.limits = state.limits) (onward : state.Onward after)
    (progress : ∀ token, state.lookahead = some token →
      state.Past after ∨ after.lookahead = some token) : Keeps state after where
  live _ alive := arena ▸ alive
  edges _ _ _ linked := .inl (arena ▸ linked)
  shapes _ node found _ := ⟨node, arena ▸ found, rfl⟩
  key := key
  awaited := awaited
  names := names
  limits := limits
  onward := onward
  progress := progress

end Keeps

namespace Shape

theorem IsSymbol.not_text {form : TextForm} {bytes : Bytes} {shape : Shape NodeId}
    (symbol : shape.IsSymbol) : shape ≠ .text form bytes := by
  rintro rfl
  exact symbol

end Shape

namespace State

theorem Sound.turns (sound : state.Sound strict) :
    state.measure + 64 ≤ state.limits.turns := by
  have turns := sound.reads.turns
  have light := lookaheadWeight_le state.lookahead
  unfold measure
  omega

theorem not_sees (unseen : state.lookahead = none) (kind : TokenKind) : ¬state.Sees kind := by
  rintro ⟨token, seen, -⟩
  rw [unseen] at seen
  cases seen

theorem Sound.quoted_unawaited (sound : state.Sound strict) {id : NodeId}
    (quoted : state.arena.Quoted id) : id ∉ state.lexer.awaited := by
  intro member
  obtain ⟨node, found, symbol⟩ := quoted
  obtain ⟨same, holds, text⟩ := sound.waiting id member
  rw [found] at holds
  cases holds
  exact symbol.not_text text

end State

theorem Keeps.quoted (keeps : Keeps base state) (sound : base.Sound strict) {id : NodeId}
    (quoted : base.arena.Quoted id) : state.arena.Quoted id := by
  have unawaited := sound.quoted_unawaited quoted
  obtain ⟨node, found, symbol⟩ := quoted
  obtain ⟨kept, holds, same⟩ := keeps.shapes id node found unawaited
  exact ⟨kept, holds, same ▸ symbol⟩

theorem Keeps.rooted (keeps : Keeps base state) (sound : base.Sound strict) {id : NodeId}
    (rooted : base.arena.Rooted id) : state.arena.Rooted id where
  live := keeps.live id rooted.live
  alone := by
    rcases rooted.alone with noParent | quoted
    · by_cases waiting : base.quotedKey = some id
      · exact .inr (keeps.quoted sound (sound.key id waiting))
      · refine .inl fun parent linked => ?_
        rcases keeps.edges parent id rooted.live linked with old | key
        · exact noParent parent old
        · exact waiting key
    · exact .inr (keeps.quoted sound quoted)

namespace Held

theorem refl (sound : state.Sound strict) : Held strict state [] state :=
  ⟨sound, sound, Keeps.refl state, nofun⟩

theorem of_keeps (before : state.Sound strict) (sound : after.Sound strict)
    (keeps : Keeps state after) : Held strict state [] after :=
  ⟨before, sound, keeps, nofun⟩

theorem weaken (held : Held strict base handles state) {fewer : List Handle}
    (subset : ∀ handle ∈ fewer, handle ∈ handles) : Held strict base fewer state :=
  ⟨held.start, held.sound, held.keeps, fun handle member =>
    held.valid handle (subset handle member)⟩

theorem forget (held : Held strict base handles state) : Held strict base [] state :=
  held.weaken (List.forall_mem_nil _)

theorem gain (held : Held strict base handles state) {more : List Handle}
    (valid : ∀ handle ∈ more, handle.Valid base state) :
    Held strict base (more ++ handles) state :=
  ⟨held.start, held.sound, held.keeps, fun handle member =>
    (List.mem_append.mp member).elim (valid handle) (held.valid handle)⟩

theorem trans (held : Held strict base handles state) {made : List Handle}
    (later : Held strict state made after) : Held strict base (made ++ handles) after where
  start := held.start
  sound := later.sound
  keeps := held.keeps.trans later.keeps
  valid handle member := by
    rcases List.mem_append.mp member with new | old
    · have valid := later.valid handle new
      cases handle with
      | name symbol => exact valid
      | node id =>
          refine ⟨valid.1, fun alive => ?_⟩
          exact held.keeps.key id (valid.2 (held.keeps.live id alive)) alive
    · have valid := held.valid handle old
      cases handle with
      | name symbol => exact Nat.lt_of_lt_of_le valid later.keeps.names
      | node id => exact ⟨later.keeps.live id valid.1, valid.2⟩

theorem next (held : Held strict base handles state) (later : Held strict state [] after) :
    Held strict base handles after :=
  held.trans later

theorem live (held : Held strict base handles state) {id : NodeId}
    (mine : .node id ∈ handles) : state.arena.Live id :=
  (held.valid _ mine).1

theorem known (held : Held strict base handles state) {name : Symbol}
    (mine : .name name ∈ handles) : state.symbols.Knows name :=
  held.valid _ mine

theorem rooted (held : Held strict base handles state) {id : NodeId}
    (rooted : base.arena.Rooted id) : state.arena.Rooted id :=
  held.keeps.rooted held.start rooted

/-- A node that is held and is no symbol was made since the start. -/
theorem fresh (held : Held strict base handles state) {id : NodeId}
    (mine : .node id ∈ handles) {node : Node} (found : state.arena.get? id = some node)
    (plain : ¬node.shape.IsSymbol) : ¬base.arena.Live id := by
  intro alive
  obtain ⟨first, holds, symbol⟩ := held.start.key id ((held.valid _ mine).2 alive)
  have unawaited := held.start.quoted_unawaited ⟨first, holds, symbol⟩
  obtain ⟨kept, later, same⟩ := held.keeps.shapes id first holds unawaited
  rw [found] at later
  cases later
  exact plain (same ▸ symbol)

/-- The children of a node that was made since the start are held with it. -/
theorem child (held : Held strict base handles state) {parent : NodeId}
    (made : ¬base.arena.Live parent) {children : List NodeId}
    (linked : ∀ child ∈ children, state.arena.Child parent child) :
    Held strict base (children.map .node ++ handles) state := by
  refine held.gain fun handle member => ?_
  obtain ⟨child, listed, rfl⟩ := List.mem_map.mp member
  refine ⟨held.sound.store.closed parent child (linked child listed), fun alive => ?_⟩
  rcases held.keeps.edges parent child alive (linked child listed) with old | key
  · exact absurd old.live made
  · exact key

end Held

end RubySyntax
