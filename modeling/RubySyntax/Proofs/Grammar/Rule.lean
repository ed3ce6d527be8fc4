/-
How steps of the grammar are specified, and what the rules called through a
table are relied on to do.

A step that is given no nodes makes its result from the state in which it
starts. A step that is given nodes extends what is held since an earlier
state. The rules of a table are relied on as long as what is left to be read
is small enough for its depth: each token weighs eight calls, and the calls
without a token in between are ordered by a rank.
-/

import RubySyntax.Proofs.Grammar.Change

namespace RubySyntax

/-! ### What a result refers to -/

class HasHandles (α : Type) where
  handlesOf : α → List Handle

export HasHandles (handlesOf)

section

variable {α β : Type}

instance : HasHandles Unit := ⟨fun _ => []⟩
instance : HasHandles Bool := ⟨fun _ => []⟩
instance : HasHandles Span := ⟨fun _ => []⟩
instance : HasHandles NodeId := ⟨fun id => [.node id]⟩
instance : HasHandles Symbol := ⟨fun name => [.name name]⟩
instance : HasHandles TokenKind := ⟨fun kind => kind.names.map .name⟩
instance : HasHandles Token := ⟨fun token => handlesOf token.kind⟩
instance [HasHandles α] : HasHandles (Option α) := ⟨fun value => value.toList.flatMap handlesOf⟩
instance [HasHandles α] : HasHandles (List α) := ⟨fun items => items.flatMap handlesOf⟩
instance [HasHandles α] : HasHandles (Array α) := ⟨fun items => handlesOf items.toList⟩
instance [HasHandles α] [HasHandles β] : HasHandles (α × β) :=
  ⟨fun pair => handlesOf pair.1 ++ handlesOf pair.2⟩
instance : HasHandles (Shape NodeId) :=
  ⟨fun shape => shape.children.map .node ++ shape.called.map .name⟩

@[simp] theorem handlesOf_unit (value : Unit) : handlesOf value = [] := rfl
@[simp] theorem handlesOf_bool (value : Bool) : handlesOf value = [] := rfl
@[simp] theorem handlesOf_span (span : Span) : handlesOf span = [] := rfl
@[simp] theorem handlesOf_node (id : NodeId) : handlesOf id = [.node id] := rfl
@[simp] theorem handlesOf_name (name : Symbol) : handlesOf name = [.name name] := rfl
@[simp] theorem handlesOf_token (token : Token) :
    handlesOf token = handlesOf token.kind := rfl
@[simp] theorem handlesOf_array [HasHandles α] (items : Array α) :
    handlesOf items = handlesOf items.toList := rfl
@[simp] theorem handlesOf_pair [HasHandles α] [HasHandles β] (first : α) (second : β) :
    handlesOf (first, second) = handlesOf first ++ handlesOf second := rfl
@[simp] theorem handlesOf_none [HasHandles α] : handlesOf (none : Option α) = [] := rfl
@[simp] theorem handlesOf_some [HasHandles α] (value : α) :
    handlesOf (some value) = handlesOf value := by
  simp [handlesOf]
@[simp] theorem handlesOf_nil [HasHandles α] : handlesOf ([] : List α) = [] := rfl
@[simp] theorem handlesOf_cons [HasHandles α] (item : α) (items : List α) :
    handlesOf (item :: items) = handlesOf item ++ handlesOf items := rfl
@[simp] theorem handlesOf_append [HasHandles α] (left right : List α) :
    handlesOf (left ++ right) = handlesOf left ++ handlesOf right :=
  List.flatMap_append

attribute [simp] Shape.children Shape.called

@[simp] theorem forall_handlesOf_shape {shape : Shape NodeId} {holds : Handle → Prop} :
    (∀ handle ∈ handlesOf shape, holds handle) ↔
      (∀ child ∈ shape.children, holds (.node child)) ∧
        ∀ name ∈ shape.called, holds (.name name) := by
  simp [handlesOf, or_imp, forall_and]

@[simp] theorem forall_handlesOf_list {items : List NodeId} {holds : Handle → Prop} :
    (∀ handle ∈ handlesOf items, holds handle) ↔ ∀ id ∈ items, holds (.node id) := by
  simp only [handlesOf, List.mem_flatMap, List.mem_singleton]
  refine ⟨fun all id member => all _ ⟨id, member, rfl⟩, ?_⟩
  rintro all _ ⟨id, member, rfl⟩
  exact all id member

@[simp] theorem forall_handlesOf_option {item : Option NodeId} {holds : Handle → Prop} :
    (∀ handle ∈ handlesOf item, holds handle) ↔ ∀ id, item = some id → holds (.node id) := by
  cases item <;> simp

@[simp] theorem node_mem_list {id : NodeId} {items : List NodeId} :
    .node id ∈ handlesOf items ↔ id ∈ items := by
  simp [handlesOf]

@[simp] theorem node_mem_option {id : NodeId} {item : Option NodeId} :
    .node id ∈ handlesOf item ↔ item = some id := by
  cases item <;> simp [eq_comm]

end

namespace Operand

def calleeHandles : Callee → List Handle
  | .function name => [.name name]
  | .method receiver .. => [.node receiver]
  | .superMethod => []
  | .yielded => []

def ownerHandles : ConstantOwner → List Handle
  | .under owner => [.node owner]
  | _ => []

end Operand

instance : HasHandles Callee := ⟨Operand.calleeHandles⟩

instance : HasHandles Arguments :=
  ⟨fun list => handlesOf list.items ++ handlesOf list.block⟩

instance : HasHandles Operand where
  handlesOf
    | .node id => [.node id]
    | .identifier _ _ name => [.name name]
    | .constant _ owner name => .name name :: Operand.ownerHandles owner
    | .bareCall _ callee => handlesOf callee
    | .fullCall _ callee list => handlesOf callee ++ handlesOf list

theorem handlesOf_arguments (list : Arguments) :
    handlesOf list = handlesOf list.items ++ handlesOf list.block := rfl
@[simp] theorem handlesOf_function (name : Symbol) :
    handlesOf (Callee.function name) = [.name name] := rfl
@[simp] theorem handlesOf_method (receiver : NodeId) (name : Symbol) (safe : Bool) :
    handlesOf (Callee.method receiver name safe) = [.node receiver] := rfl
@[simp] theorem handlesOf_superMethod : handlesOf Callee.superMethod = [] := rfl
@[simp] theorem handlesOf_yielded : handlesOf Callee.yielded = [] := rfl
@[simp] theorem handlesOf_operand_node (id : NodeId) :
    handlesOf (Operand.node id) = [.node id] := rfl
@[simp] theorem handlesOf_identifier (span : Span) (known : Bool) (name : Symbol) :
    handlesOf (Operand.identifier span known name) = [.name name] := rfl
@[simp] theorem handlesOf_constant (span : Span) (owner : ConstantOwner) (name : Symbol) :
    handlesOf (Operand.constant span owner name) =
      .name name :: Operand.ownerHandles owner := rfl
@[simp] theorem handlesOf_bareCall (span : Span) (callee : Callee) :
    handlesOf (Operand.bareCall span callee) = handlesOf callee := rfl
@[simp] theorem handlesOf_fullCall (span : Span) (callee : Callee) (list : Arguments) :
    handlesOf (Operand.fullCall span callee list) = handlesOf callee ++ handlesOf list := rfl

def Operand.Rooted (operand : Operand) (arena : Arena) : Prop :=
  ∀ id, operand = .node id → arena.Rooted id

variable {α β : Type} {strict : Prop} {base state : State} {handles : List Handle}

/-! ### Steps without rules -/

namespace Scan

def Looks (step : Scan α) (state : State) (post : α → Prop) : Prop :=
  Ends step state fun result after => after = state ∧ post result

def Builds [HasHandles α] (strict : Prop) (base : State) (handles : List Handle)
    (step : Scan α) (state : State) (post : α → State → Prop) : Prop :=
  Ends step state fun result after =>
    Held strict base (handlesOf result ++ handles) after ∧ Still state after ∧
      post result after

variable {step : Scan α} {post : α → Prop}

theorem Looks.bind {next : α → Scan β} {goal : β → State → Prop}
    (looks : Looks step state post)
    (follow : ∀ result, post result → Ends (next result) state goal) :
    Ends (step >>= next) state goal := by
  refine Ends.bind looks ?_
  rintro result _ ⟨rfl, holds⟩
  exact follow result holds

theorem Looks.pure {value : α} (holds : post value) : Looks (pure value) state post :=
  ends_pure ⟨rfl, holds⟩

theorem Builds.since [HasHandles α] {more : List Handle} {middle : State}
    {goal : α → State → Prop} (builds : Builds strict base more step middle goal)
    (still : Still state middle) (fewer : ∀ handle ∈ handles, handle ∈ more) :
    Ends step middle fun result after =>
      Held strict base (handlesOf result ++ handles) after ∧ Still state after ∧
        goal result after := by
  refine builds.mono fun result after built =>
    ⟨built.1.weaken ?_, still.trans built.2.1, built.2.2⟩
  intro handle member
  exact List.mem_append.mpr ((List.mem_append.mp member).imp_right (fewer handle))

end Scan

namespace Parse

variable {tables : Tables}

theorem Ends.lift_bind {step : Scan α} {next : α → Parse β} {post : α → State → Prop}
    {goal : β → State → Prop} (ends : Scan.Ends step state post)
    (follow : ∀ result reached, post result reached →
      Ends tables (next result) reached goal) :
    Ends tables (liftM step >>= next) state goal :=
  (ends_lift ends).bind follow

theorem Ends.look_bind {step : Scan α} {next : α → Parse β} {post : α → Prop}
    {goal : β → State → Prop} (looks : Scan.Looks step state post)
    (follow : ∀ result, post result → Ends tables (next result) state goal) :
    Ends tables (liftM step >>= next) state goal := by
  refine Ends.lift_bind looks ?_
  rintro result _ ⟨rfl, holds⟩
  exact follow result holds

/-! ### Steps of the grammar -/

def Makes [HasHandles α] (tables : Tables) (step : Parse α) (state : State)
    (post : α → State → Prop) : Prop :=
  Ends tables step state fun result after =>
    Held tables.stoppable state (handlesOf result) after ∧ post result after

def Extends [HasHandles α] (tables : Tables) (base : State) (handles : List Handle)
    (step : Parse α) (state : State) (post : α → State → Prop) : Prop :=
  Ends tables step state fun result after =>
    Held tables.stoppable base (handlesOf result ++ handles) after ∧
      state.Onward after ∧ post result after

variable [HasHandles α] {step : Parse α} {post : α → State → Prop}

theorem Makes.bind (makes : Makes tables step state post)
    (held : Held tables.stoppable base handles state) {next : α → Parse β}
    {goal : β → State → Prop}
    (follow : ∀ result reached, Held tables.stoppable base (handlesOf result ++ handles) reached →
      Held tables.stoppable state (handlesOf result) reached → post result reached →
      Ends tables (next result) reached goal) :
    Ends tables (step >>= next) state goal :=
  Ends.bind makes fun result reached made =>
    follow result reached (held.trans made.1) made.1 made.2

theorem Makes.extends (makes : Makes tables step state post)
    (held : Held tables.stoppable base handles state) :
    Extends tables base handles step state post :=
  Ends.mono makes fun _ _ made => ⟨held.trans made.1, made.1.keeps.onward, made.2⟩

theorem Makes.mono {weaker : α → State → Prop} (makes : Makes tables step state post)
    (implies : ∀ result reached, Held tables.stoppable state (handlesOf result) reached →
      post result reached → weaker result reached) : Makes tables step state weaker :=
  Ends.mono makes fun result reached made =>
    ⟨made.1, implies result reached made.1 made.2⟩

theorem extends_lift {step : Scan α}
    (builds : Scan.Builds tables.stoppable base handles step state post) :
    Extends tables base handles (liftM step) state post :=
  (ends_lift builds).mono fun _ _ built => ⟨built.1, built.2.1.onward, built.2.2⟩

theorem Extends.makes {goal : α → State → Prop}
    (ends : Extends tables base handles step state post)
    (implies : ∀ result after, state.Onward after → post result after →
      goal result after) :
    Ends tables step state fun result after =>
      Held tables.stoppable base (handlesOf result) after ∧ goal result after :=
  Ends.mono ends fun result after made =>
    ⟨made.1.weaken fun _ member => List.mem_append_left _ member,
      implies result after made.2.1 made.2.2⟩

theorem Extends.since {more : List Handle} {start : State} {goal : α → State → Prop}
    (ends : Extends tables base more step state post)
    (less : start.Onward state) (fewer : ∀ handle ∈ handles, handle ∈ more)
    (implies : ∀ result after, state.Onward after → post result after →
      goal result after) :
    Ends tables step state fun result after =>
      Held tables.stoppable base (handlesOf result ++ handles) after ∧
        start.Onward after ∧ goal result after := by
  refine Ends.mono ends fun result after made =>
    ⟨made.1.weaken ?_, less.trans made.2.1, implies result after made.2.1 made.2.2⟩
  intro handle member
  exact List.mem_append.mpr ((List.mem_append.mp member).imp_right (fewer handle))

theorem makes_pure {value : α} (held : Held tables.stoppable base (handlesOf value) state)
    (holds : post value state) :
    Ends tables (pure value) state fun result after =>
      Held tables.stoppable base (handlesOf result) after ∧ post result after :=
  ends_pure ⟨held, holds⟩

/-! ### Loops -/

/-- What holds after a turn of a loop: a token is taken before another turn
follows. -/
abbrev Turned {σ α : Type} (again : σ → State → Prop) (done : α → State → Prop)
    (before : State) : Turn σ α → State → Prop
  | .again next, after => again next after ∧ before.Past after
  | .done value, after => done value after

theorem loop_ends {σ α : Type} {first : σ} {turn : σ → Parse (Turn σ α)}
    (invariant : σ → State → Prop) {post : α → State → Prop}
    (sound : state.Sound tables.stoppable) (started : invariant first state)
    (each : ∀ current reached, invariant current reached → state.Onward reached →
      Ends tables (turn current) reached (Turned invariant post reached)) :
    Ends tables (repeatUntil first turn) state post := by
  have turns := sound.turns
  refine repeatUntil_ends (fun current reached => invariant current reached ∧
    state.Onward reached) (fun _ reached => reached.measure) post ⟨started, .refl state⟩
    (by omega) ?_
  rintro current reached ⟨kept, onward⟩
  refine (each current reached kept onward).mono fun result after turned => ?_
  cases result with
  | again next => exact ⟨⟨turned.1, onward.trans turned.2.onward⟩, turned.2.1⟩
  | done value => exact turned

abbrev TurnHeld {σ α : Type} [HasHandles σ] [HasHandles α] (strict : Prop)
    (base before : State) : Turn σ α → State → Prop :=
  Turned (fun next after => Held strict base (handlesOf next) after)
    (fun value after => Held strict base (handlesOf value) after) before

theorem loop_makes {σ α : Type} [HasHandles σ] [HasHandles α] {first : σ}
    {turn : σ → Parse (Turn σ α)} (sound : state.Sound tables.stoppable)
    (nothing : handlesOf first = [])
    (each : ∀ current reached, Held tables.stoppable state (handlesOf current) reached →
      state.Onward reached →
      Ends tables (turn current) reached (TurnHeld tables.stoppable state reached)) :
    Makes tables (repeatUntil first turn) state fun _ _ => True :=
  (loop_ends _ sound (nothing ▸ Held.refl sound) each).mono fun _ _ held => ⟨held, trivial⟩

end Parse

/-! ### The rules of a table -/

structure OperandRead (before : State) (operand : Operand) (after : State) : Prop where
  rooted : operand.Rooted after.arena
  progress : operand.takesArguments = true → before.Past after

theorem OperandRead.of_node {before after : State} {id : NodeId}
    (rooted : after.arena.Rooted id) : OperandRead before (.node id) after where
  rooted _ same := Operand.node.inj same ▸ rooted
  progress := nofun

theorem OperandRead.since {before middle after : State} {operand : Operand}
    (read : OperandRead middle operand after) (less : before.Onward middle) :
    OperandRead before operand after where
  rooted := read.rooted
  progress takes := less.past (read.progress takes)

def RootedIfAny (result : Option NodeId) (after : State) : Prop :=
  ∀ id, result = some id → after.arena.Rooted id

open Parse in
structure Meets (tables : Tables) (limit : Nat) : Prop where
  heredocBodies : ∀ state, state.Sound tables.stoppable →
    state.lexer.heredocsDue = true → ¬state.Sees .variableInterpolation →
    8 * state.measure < limit →
    Makes tables (descend .heredocBodies) state fun _ after =>
      after.measure < state.measure ∧ ¬after.Sees .variableInterpolation
  statements : ∀ state, state.Sound tables.stoppable → 8 * state.measure + 7 < limit →
    Makes tables (descend .statements) state RootedIfAny
  negation : ∀ rule state, state.Sound tables.stoppable → 8 * state.measure + 6 < limit →
    Makes tables (descend (.negation rule)) state fun id after => after.arena.Rooted id
  argument : ∀ rule state, state.Sound tables.stoppable → 8 * state.measure + 5 < limit →
    Makes tables (descend (.argument rule)) state (OperandRead state)
  binary : ∀ rule level state, state.Sound tables.stoppable →
    8 * state.measure + 4 < limit →
    Makes tables (descend (.binary rule level)) state (OperandRead state)
  minus : ∀ rule state, state.Sound tables.stoppable → 8 * state.measure + 3 < limit →
    Makes tables (descend (.minus rule)) state (OperandRead state)
  unary : ∀ rule state, state.Sound tables.stoppable → 8 * state.measure + 2 < limit →
    Makes tables (descend (.unary rule)) state (OperandRead state)
  chain : ∀ state, state.Sound tables.stoppable → 8 * state.measure + 1 < limit →
    Makes tables (descend .chain) state (OperandRead state)
  command : ∀ head allowBlock base handles state,
    Held tables.stoppable base handles state → (∀ handle ∈ handlesOf head, handle ∈ handles) →
    8 * state.measure + 6 < limit →
    Extends tables base handles (descend (.command head allowBlock)) state fun id after =>
      after.arena.Rooted id
  ifTail : ∀ state, state.Sound tables.stoppable → 8 * state.measure + 1 < limit →
    Makes tables (descend .ifTail) state fun _ _ => True
  target : ∀ state, state.Sound tables.stoppable → 8 * state.measure + 2 < limit →
    Makes tables (descend .target) state fun _ _ => True
  pattern : ∀ state, state.Sound tables.stoppable → state.AtToken →
    8 * state.measure + 1 < limit →
    Makes tables (descend .pattern) state fun _ _ => True

end RubySyntax
