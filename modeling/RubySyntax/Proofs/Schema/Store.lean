/-
How the store of a parse comes to agree with the schema.

A node can be rewritten after others have come to refer to it. Most nodes keep
their shape, though, once they are stored: calls may still get a block or
become targets, numbers may lose their sign, lists of statements may be
dissolved, and the node of a heredoc waits for its body. So what is required of
a node is required of the store at the end of the run, its outcome, where the
children that keep their shape are found as they are now.
-/

import RubySyntax.Proofs.Lexer.Basic
import RubySyntax.Proofs.Schema.Shape

namespace RubySyntax

/-! ### Nodes that stay as they are -/

namespace Shape

variable {α : Type} {first second third : Shape α}

/-- Whether a node with this shape keeps it, or at least goes on having two
operands. -/
def lasts : Shape α → Bool
  | .call .. => false
  | .functionCall .. => false
  | .superCall .. => false
  | .bareSuper _ => false
  | .integer _ => false
  | .float _ => false
  | .list .statements _ => false
  | _ => true

def isBinary : Shape α → Bool
  | .binary .. => true
  | _ => false

def isString : Shape α → Bool
  | .text .string _ => true
  | .list .string _ => true
  | _ => false

/-- A shape is kept. Of two operands it is kept that they are two: their form
changes in conditions, and an assignment may take more values. -/
def Remains (first second : Shape α) : Prop :=
  second = first ∨ (first.isBinary = true ∧ second.isBinary = true)

theorem Remains.refl (shape : Shape α) : shape.Remains shape :=
  .inl rfl

theorem Remains.trans (before : first.Remains second) (after : second.Remains third) :
    first.Remains third := by
  cases before with
  | inl same =>
      subst same
      exact after
  | inr binary =>
      cases after with
      | inl same =>
          subst same
          exact .inr binary
      | inr later => exact .inr ⟨binary.1, later.2⟩

theorem lasts_of_isBinary {shape : Shape α} (binary : shape.isBinary = true) :
    shape.lasts = true := by
  unfold isBinary at binary
  split at binary
  · rfl
  · cases binary

theorem Remains.lasts (remains : first.Remains second) (kept : first.lasts = true) :
    second.lasts = true := by
  cases remains with
  | inl same =>
      subst same
      exact kept
  | inr binary => exact lasts_of_isBinary binary.2

theorem isBinary_of_isString {shape : Shape α} (string : shape.isString = true) :
    shape.isBinary = false := by
  unfold isString at string
  split at string
  · rfl
  · rfl
  · cases string

theorem Remains.eq (remains : first.Remains second) (single : first.isBinary = false) :
    second = first := by
  cases remains with
  | inl same => exact same
  | inr binary =>
      rw [single] at binary
      cases binary.1

end Shape

/-! ### States between the steps of a rule -/

structure State.Settled (state : State) (id : NodeId) (shape : Shape NodeId) : Prop where
  found : ∃ node, state.arena.get? id = some node ∧ node.shape = shape
  kept : shape.lasts = true
  unawaited : id ∉ state.lexer.awaited

structure State.Orderly (state : State) : Prop where
  reads : state.Reads
  free : state.arena.FreeSound
  /-- A node that waits for the body of a heredoc is an empty string so far. -/
  waiting : ∀ id ∈ state.lexer.awaited, ∃ node, state.arena.get? id = some node ∧
    node.shape = .text .string []
  distinct : state.lexer.awaited.Nodup
  /-- The variable of an interpolation has not been read yet. -/
  ahead : ∀ token, state.lookahead = some token → token.kind = .variableInterpolation →
    state.lexer.variablePending = true

def Lasts (before after : State) : Prop :=
  ∀ id shape, before.Settled id shape → ∃ later, after.Settled id later ∧ shape.Remains later

def Arena.Follows (outcome : Arena) (loose : NodeId → Prop) (state : State) : Prop :=
  ∀ id shape, state.Settled id shape → ¬loose id →
    ∃ node, outcome.get? id = some node ∧ shape.Remains node.shape

def State.Conforms (state : State) (outcome : Arena) : Prop :=
  ∀ id node, state.arena.get? id = some node → node.shape.Conforms outcome

variable {outcome : Arena} {loose wider : NodeId → Prop} {known more gained : Prop}
  {base before middle state after : State} {id : NodeId} {shape : Shape NodeId}

namespace State.Settled

theorem eq_of_found (settled : state.Settled id shape) {node : Node}
    (found : state.arena.get? id = some node) : node.shape = shape := by
  obtain ⟨other, same, holds⟩ := settled.found
  rw [found] at same
  cases same
  exact holds

theorem unique (settled : state.Settled id shape) {other : Shape NodeId}
    (also : state.Settled id other) : shape = other := by
  obtain ⟨node, found, holds⟩ := also.found
  rw [← settled.eq_of_found found, holds]

theorem of_eq (settled : before.Settled id shape) (arena : after.arena = before.arena)
    (awaited : after.lexer.awaited = before.lexer.awaited) : after.Settled id shape where
  found := by
    rw [arena]
    exact settled.found
  kept := settled.kept
  unawaited := by
    rw [awaited]
    exact settled.unawaited

end State.Settled

namespace Lasts

theorem refl (state : State) : Lasts state state :=
  fun _ shape settled => ⟨shape, settled, .refl shape⟩

theorem trans (first : Lasts before middle) (second : Lasts middle after) :
    Lasts before after := by
  intro id shape settled
  obtain ⟨later, kept, remains⟩ := first id shape settled
  obtain ⟨last, still, further⟩ := second id later kept
  exact ⟨last, still, remains.trans further⟩

theorem of_eq (arena : after.arena = before.arena)
    (awaited : after.lexer.awaited = before.lexer.awaited) : Lasts before after :=
  fun _ shape settled => ⟨shape, settled.of_eq arena awaited, .refl shape⟩

theorem settled (lasts : Lasts before after) (held : before.Settled id shape)
    (single : shape.isBinary = false) : after.Settled id shape := by
  obtain ⟨later, still, remains⟩ := lasts id shape held
  rw [remains.eq single] at still
  exact still

theorem binary (lasts : Lasts before after) (held : before.Settled id shape)
    (binary : shape.isBinary = true) :
    ∃ later, after.Settled id later ∧ later.isBinary = true := by
  obtain ⟨later, still, remains⟩ := lasts id shape held
  cases remains with
  | inl same =>
      subst same
      exact ⟨later, still, binary⟩
  | inr both => exact ⟨later, still, both.2⟩

theorem put (lasts : Lasts before middle) (new : ∀ shape, ¬before.Settled id shape)
    {content : Option Node} {arena : Arena} (puts : middle.arena.Puts id content arena) :
    Lasts before { middle with arena } := by
  intro other shape settled
  have different : other ≠ id := by
    intro same
    subst same
    exact new shape settled
  obtain ⟨later, still, remains⟩ := lasts other shape settled
  obtain ⟨node, found, holds⟩ := still.found
  have kept := (puts.apart different).trans found
  exact ⟨later, ⟨⟨node, kept, holds⟩, still.kept, still.unawaited⟩, remains⟩

end Lasts

namespace Arena.Follows

theorem relax (follows : outcome.Follows wider state)
    (within : ∀ id shape, wider id → state.Settled id shape → loose id) :
    outcome.Follows loose state :=
  fun id shape settled tight => follows id shape settled fun isWider =>
    tight (within id shape isWider settled)

/-- What is found in the end of a later state is found of an earlier one. -/
theorem earlier (follows : outcome.Follows loose after) (lasts : Lasts before after) :
    outcome.Follows loose before := by
  intro id shape settled tight
  obtain ⟨later, still, remains⟩ := lasts id shape settled
  obtain ⟨node, found, further⟩ := follows id later still tight
  exact ⟨node, found, remains.trans further⟩

theorem tagged (follows : outcome.Follows loose state) (settled : state.Settled id shape)
    (tight : ¬loose id) (single : shape.isBinary = false) {tags : List String}
    (listed : shape.tag ∈ tags) : outcome.Tagged tags id := by
  obtain ⟨node, found, remains⟩ := follows id shape settled tight
  rw [← remains.eq single] at listed
  exact ⟨node, found, listed⟩

end Arena.Follows

/-! ### What a step does -/

/-- A step from one state to another keeps what is settled. If something is
known and the outcome has what is settled at the end of the step, then all nodes
agree with the schema as they did before, and more is known. -/
structure Leads (outcome : Arena) (loose : NodeId → Prop) (known : Prop) (before after : State)
    (gained : Prop) : Prop where
  orderly : after.Orderly
  lasts : Lasts before after
  conforms : known → outcome.Follows loose after → before.Conforms outcome →
    after.Conforms outcome ∧ gained

def State.Holds (state : State) (loose : NodeId → Prop) : Prop :=
  ∀ id, loose id → ∃ shape, state.Settled id shape ∧ shape.isString = true

theorem State.Holds.later (holds : before.Holds loose) (lasts : Lasts before after) :
    after.Holds loose := by
  intro id isLoose
  obtain ⟨shape, settled, string⟩ := holds id isLoose
  exact ⟨shape, lasts.settled settled (Shape.isBinary_of_isString string), string⟩

theorem State.Holds.tight (holds : state.Holds loose) (settled : state.Settled id shape)
    (other : shape.isString = false) : ¬loose id := by
  intro isLoose
  obtain ⟨also, stored, string⟩ := holds id isLoose
  rw [stored.unique settled, other] at string
  cases string

namespace Leads

theorem trans (first : Leads outcome loose known before middle more)
    (second : Leads outcome loose (more ∧ known) middle after gained) :
    Leads outcome loose known before after gained where
  orderly := second.orderly
  lasts := first.lasts.trans second.lasts
  conforms := by
    intro holds follows conforming
    obtain ⟨between, learnt⟩ := first.conforms holds (follows.earlier second.lasts) conforming
    exact second.conforms ⟨learnt, holds⟩ follows between

theorem next (first : Leads outcome loose known before middle more)
    (second : Leads outcome loose known middle after gained) :
    Leads outcome loose known before after gained where
  orderly := second.orderly
  lasts := first.lasts.trans second.lasts
  conforms := by
    intro holds follows conforming
    have between := (first.conforms holds (follows.earlier second.lasts) conforming).1
    exact second.conforms holds follows between

theorem mono (leads : Leads outcome loose known before after gained)
    (implies : known → gained → more) : Leads outcome loose known before after more where
  orderly := leads.orderly
  lasts := leads.lasts
  conforms := by
    intro holds follows conforming
    obtain ⟨conforms, learnt⟩ := leads.conforms holds follows conforming
    exact ⟨conforms, implies holds learnt⟩

/-- If more is known at the start, all the better. -/
theorem given (leads : Leads outcome loose known before after gained) (implies : more → known) :
    Leads outcome loose more before after gained where
  orderly := leads.orderly
  lasts := leads.lasts
  conforms holds := leads.conforms (implies holds)

theorem relax (leads : Leads outcome loose known before after gained)
    (within : ∀ id shape, wider id → after.Settled id shape → loose id) :
    Leads outcome wider known before after gained where
  orderly := leads.orderly
  lasts := leads.lasts
  conforms holds follows := leads.conforms holds (follows.relax within)

end Leads

structure Safely (before after : State) : Prop where
  orderly : after.Orderly
  lasts : Lasts before after
  conforms : ∀ outcome, before.Conforms outcome → after.Conforms outcome

namespace Safely

theorem refl (orderly : state.Orderly) : Safely state state :=
  ⟨orderly, .refl state, fun _ => id⟩

theorem trans (first : Safely before middle) (second : Safely middle after) :
    Safely before after where
  orderly := second.orderly
  lasts := first.lasts.trans second.lasts
  conforms outcome conforming := second.conforms outcome (first.conforms outcome conforming)

theorem of_eq (orderly : after.Orderly) (arena : after.arena = before.arena)
    (awaited : after.lexer.awaited = before.lexer.awaited) : Safely before after where
  orderly := orderly
  lasts := .of_eq arena awaited
  conforms outcome conforming id node found := by
    rw [arena] at found
    exact conforming id node found

theorem leads (safely : Safely before after) (holds : known → gained) :
    Leads outcome loose known before after gained where
  orderly := safely.orderly
  lasts := safely.lasts
  conforms given _ conforming := ⟨safely.conforms outcome conforming, holds given⟩

end Safely

theorem Leads.safely (first : Leads outcome loose known before middle gained)
    (second : Safely middle after) : Leads outcome loose known before after True :=
  first.next (second.leads fun _ => trivial)

theorem Leads.refl (orderly : state.Orderly) (holds : known → gained) :
    Leads outcome loose known state state gained :=
  (Safely.refl orderly).leads holds

/-- What a node is found to be, it is in the end. -/
theorem Leads.learn (orderly : state.Orderly) (holds : state.Holds loose)
    (settled : state.Settled id shape) (single : shape.isBinary = false)
    (noString : shape.isString = false) {tags : List String} (listed : shape.tag ∈ tags) :
    Leads outcome loose known state state (outcome.Tagged tags id) where
  orderly := orderly
  lasts := .refl state
  conforms := by
    intro _ follows conforming
    exact ⟨conforming, follows.tagged settled (holds.tight settled noString) single listed⟩

/-! ### Changes of one slot -/

section

variable {content : Option Node} {arena : Arena}

theorem State.Reads.withArena (reads : state.Reads) (arena : Arena) :
    ({ state with arena } : State).Reads where
  input := reads.input
  map := reads.map
  pendingVariable := reads.pendingVariable
  regexp := reads.regexp
  turns := reads.turns

/-- A slot may change unless its node waits for a body. -/
theorem State.Orderly.put (orderly : state.Orderly) (puts : state.arena.Puts id content arena)
    (free : arena.FreeSound)
    (waits : id ∈ state.lexer.awaited → ∃ node, content = some node ∧ node.shape = .text .string []) :
    ({ state with arena } : State).Orderly where
  reads := orderly.reads.withArena arena
  free := free
  waiting := by
    intro other member
    by_cases same : other = id
    · subst same
      obtain ⟨node, stored, empty⟩ := waits member
      exact ⟨node, puts.at_slot.trans stored, empty⟩
    · obtain ⟨node, found, empty⟩ := orderly.waiting other member
      exact ⟨node, (puts.apart same).trans found, empty⟩
  distinct := orderly.distinct
  ahead := orderly.ahead

theorem State.Conforms.put (conforming : state.Conforms outcome)
    (puts : state.arena.Puts id content arena)
    (conforms : ∀ node, content = some node → node.shape.Conforms outcome) :
    ({ state with arena } : State).Conforms outcome := by
  intro other node found
  change arena.get? other = some node at found
  by_cases same : other = id
  · subst same
    rw [puts.at_slot] at found
    exact conforms node found
  · rw [puts.apart same] at found
    exact conforming other node found

/-- A node that keeps its shape may be changed if enough of it remains. -/
theorem Leads.put (orderly : state.Orderly) (puts : state.arena.Puts id content arena)
    (free : arena.FreeSound)
    (remains : ∀ node, state.arena.get? id = some node → node.shape.lasts = true →
      ∃ new, content = some new ∧ node.shape.Remains new.shape)
    (conforms : known → state.Conforms outcome → outcome.Follows loose { state with arena } →
      (∀ node, content = some node → node.shape.Conforms outcome) ∧ gained) :
    Leads outcome loose known state { state with arena } gained where
  orderly := by
    apply orderly.put puts free
    intro member
    obtain ⟨node, found, empty⟩ := orderly.waiting id member
    obtain ⟨new, stored, kept⟩ := remains node found (by rw [empty]; rfl)
    have same := kept.eq (by rw [empty]; rfl)
    exact ⟨new, stored, same.trans empty⟩
  lasts := by
    intro other shape settled
    obtain ⟨node, found, holds⟩ := settled.found
    by_cases same : other = id
    · subst same
      subst holds
      obtain ⟨new, stored, kept⟩ := remains node found settled.kept
      have still := puts.at_slot.trans stored
      exact ⟨new.shape, ⟨⟨new, still, rfl⟩, kept.lasts settled.kept, settled.unawaited⟩, kept⟩
    · have still := (puts.apart same).trans found
      exact ⟨shape, ⟨⟨node, still, holds⟩, settled.kept, settled.unawaited⟩, .refl shape⟩
  conforms := by
    intro holds follows conforming
    obtain ⟨stored, learnt⟩ := conforms holds conforming follows
    exact ⟨conforming.put puts stored, learnt⟩

theorem State.Orderly.unawaited_of_empty (orderly : state.Orderly)
    (empty : state.arena.get? id = none) : id ∉ state.lexer.awaited := by
  intro member
  obtain ⟨node, found, -⟩ := orderly.waiting id member
  rw [empty] at found
  cases found

theorem State.Orderly.unawaited_of_found (orderly : state.Orderly) {node : Node}
    (found : state.arena.get? id = some node) (full : node.shape ≠ .text .string []) :
    id ∉ state.lexer.awaited := by
  intro member
  obtain ⟨other, same, holds⟩ := orderly.waiting id member
  rw [found] at same
  cases same
  exact full holds

theorem State.Orderly.settled (orderly : state.Orderly) {node : Node}
    (found : state.arena.get? id = some node) (kept : node.shape.lasts = true)
    (noString : node.shape.isString = false) : state.Settled id node.shape := by
  refine ⟨⟨node, found, rfl⟩, kept, orderly.unawaited_of_found found ?_⟩
  intro empty
  rw [empty] at noString
  cases noString

theorem State.not_settled_of_empty (empty : state.arena.get? id = none) (shape : Shape NodeId) :
    ¬state.Settled id shape := by
  intro settled
  obtain ⟨node, found, -⟩ := settled.found
  rw [empty] at found
  cases found

end

end RubySyntax
