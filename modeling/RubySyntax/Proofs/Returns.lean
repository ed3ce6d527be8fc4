/-
What a step returns, if it returns at all.

Nothing is said of runs that halt. A step of the lexer and a step of the grammar
under a table of rules have the same rules: for what follows, for what is read off
the state, and for a loop with an invariant.

The outcome of a single step can also be given in full, its value or what it broke off
with, and the state that is reached.
-/

import RubySyntax.Grammar.Basic

namespace RubySyntax

variable {α β σ : Type}

/-! ### Steps of the lexer -/

namespace Scan

/-- If a step returns a value, the postcondition holds of it and of the state
reached. Nothing is said of a step that halts. -/
structure Returns (step : Scan α) (state : State) (post : α → State → Prop) : Prop where
  post : ∀ {value after}, step state = .ok value after → post value after

section

variable {step : Scan α} {state : State} {post weaker : α → State → Prop}

theorem Returns.mono (returns : Returns step state post)
    (implies : ∀ value after, post value after → weaker value after) :
    Returns step state weaker := by
  constructor
  intro value after run
  exact implies value after (returns.post run)

theorem Returns.and {more : α → State → Prop} (returns : Returns step state post)
    (also : Returns step state more) :
    Returns step state fun value after => post value after ∧ more value after := by
  constructor
  intro value after run
  exact ⟨returns.post run, also.post run⟩

theorem Returns.bind {next : α → Scan β} {goal : β → State → Prop}
    (returns : Returns step state post)
    (follow : ∀ value reached, post value reached → Returns (next value) reached goal) :
    Returns (step >>= next) state goal := by
  constructor
  intro result after run
  change EStateM.bind step next state = .ok result after at run
  unfold EStateM.bind at run
  cases once : step state with
  | ok value reached =>
      rw [once] at run
      exact (follow value reached (returns.post once)).post run
  | error halt reached =>
      rw [once] at run
      cases run

theorem returns_pure {value : α} (holds : post value state) : Returns (pure value) state post := by
  constructor
  intro _ _ run
  cases run
  exact holds

theorem returns_throw (halt : Halt) : Returns (throw halt : Scan α) state post := by
  constructor
  intro _ _ run
  cases run

theorem returns_any (step : Scan α) (state : State) : Returns step state fun _ _ => True :=
  ⟨fun _ => trivial⟩

theorem returns_modify {f : State → State} {post : PUnit → State → Prop}
    (holds : post ⟨⟩ (f state)) : Returns (modify f) state post := by
  constructor
  intro _ _ run
  cases run
  exact holds

theorem Returns.get_bind {next : State → Scan α} (returns : Returns (next state) state post) :
    Returns (get >>= next) state post :=
  ⟨returns.post⟩

theorem Returns.set_bind {reached : State} {next : PUnit → Scan α}
    (returns : Returns (next ⟨⟩) reached post) : Returns (set reached >>= next) state post :=
  ⟨returns.post⟩

theorem Returns.modify_bind {f : State → State} {next : PUnit → Scan α}
    (returns : Returns (next ⟨⟩) (f state) post) : Returns (modify f >>= next) state post :=
  ⟨returns.post⟩

theorem Returns.relyOn_bind {holds : Bool} {fault : Fault} {next : Unit → Scan α}
    (returns : Returns (next ()) state post) :
    Returns (relyOn holds fault >>= next) state post := by
  cases holds with
  | false =>
      constructor
      intro _ _ run
      cases run
  | true => exact returns

theorem Returns.position_bind {next : Nat → Scan α}
    (returns : Returns (next state.input.position) state post) :
    Returns (position >>= next) state post :=
  ⟨returns.post⟩

theorem Returns.checkRange_bind {start stop : Nat} {next : Unit → Scan α}
    (returns : Returns (next ()) state post) :
    Returns (checkRange start stop >>= next) state post := by
  unfold checkRange
  rw [bind_assoc]
  apply Returns.get_bind
  exact returns.relyOn_bind

theorem Returns.peek_bind {next : Char → Scan α} {post : α → State → Prop}
    (returns : Returns (next state.input.peek) state post) :
    Returns (peek >>= next) state post :=
  ⟨returns.post⟩

theorem returns_fail_bind {error : Fatal} {next : σ → Scan α} :
    Returns (fail error >>= next) state post := by
  constructor
  intro _ _ run
  cases run

theorem Returns.ite {condition : Prop} [Decidable condition] {left right : Scan α}
    (whenTrue : condition → Returns left state post)
    (whenFalse : ¬condition → Returns right state post) :
    Returns (if condition then left else right) state post := by
  by_cases holds : condition
  · rw [if_pos holds]
    exact whenTrue holds
  · rw [if_neg holds]
    exact whenFalse holds

theorem Returns.when {condition : Prop} [Decidable condition] {optional : Scan Unit}
    {next : Unit → Scan α} (middle : State → Prop)
    (taken : condition → Returns optional state fun _ reached => middle reached)
    (passed : ¬condition → middle state)
    (follow : ∀ reached, middle reached → Returns (next ()) reached post) :
    Returns (if condition then optional >>= next else next ()) state post :=
  Returns.ite (fun holds => (taken holds).bind fun _ => follow)
    fun fails => follow state (passed fails)

theorem repeatUntil_returns {first : σ} {body : σ → Scan (Turn σ α)}
    (invariant : σ → State → Prop) (started : invariant first state)
    (turn : ∀ current state, invariant current state →
      Returns (body current) state fun result reached =>
        match result with
        | .again next => invariant next reached
        | .done value => post value reached) :
    Returns (repeatUntil first body) state post := by
  apply Returns.get_bind
  generalize state.limits.turns = turns
  induction turns generalizing first state with
  | zero => exact returns_throw _
  | succ turns ih =>
      constructor
      intro value after run
      unfold iterate at run
      cases once : body first state with
      | error halt reached =>
          rw [once] at run
          cases run
      | ok result reached =>
          rw [once] at run
          have kept := (turn first state started).post once
          cases result with
          | done value =>
              cases run
              exact kept
          | again next => exact (ih kept).post run

/-! ### Nodes -/

theorem alloc_result (shape : Shape NodeId) (span : Span) (state : State) :
    Returns (alloc shape span) state fun id after =>
      ∃ node arena, node.shape = shape ∧ state.arena.alloc node = some (id, arena) ∧
        after = { state with arena } := by
  apply Returns.get_bind
  apply Returns.relyOn_bind
  dsimp only
  split
  · next id arena stored =>
      apply Returns.set_bind
      exact returns_pure ⟨_, arena, rfl, stored, rfl⟩
  · exact returns_throw _

theorem nodeAt_returns (id : NodeId) (state : State) :
    Returns (nodeAt id) state fun node after =>
      after = state ∧ state.arena.get? id = some node := by
  apply Returns.get_bind
  split
  · next node found => exact returns_pure ⟨rfl, found⟩
  · exact returns_throw _

end

/-! ### Outcomes in full -/

section

variable {step : Scan α} {next : α → Scan β} {state reached : State} {id : NodeId} {node : Node}

def Ran (step : Scan α) (state : State) (outcome : EStateM.Result Halt State α) : Prop :=
  step state = outcome

theorem Ran.bind {value : α} {outcome : EStateM.Result Halt State β}
    (ran : Ran step state (.ok value reached)) (later : Ran (next value) reached outcome) :
    Ran (step >>= next) state outcome := by
  change EStateM.bind step next state = outcome
  rw [EStateM.bind, ran]
  exact later

theorem Ran.bind_error {halt : Halt} (ran : Ran step state (.error halt reached)) :
    Ran (step >>= next) state (.error halt reached) := by
  change EStateM.bind step next state = .error halt reached
  rw [EStateM.bind, ran]

theorem Ran.get_bind {next : State → Scan α} {outcome : EStateM.Result Halt State α}
    (later : Ran (next state) state outcome) : Ran (get >>= next) state outcome :=
  later

theorem ran_pure (value : α) : Ran (pure value) state (.ok value state) :=
  rfl

theorem nodeAt_ran (found : state.arena.get? id = some node) :
    Ran (nodeAt id) state (.ok node state) := by
  apply Ran.get_bind
  rw [found]
  exact ran_pure node

theorem nodeAt_ran_empty (empty : state.arena.get? id = none) :
    Ran (nodeAt id) state (.error (.fault .emptySlot) state) := by
  apply Ran.get_bind
  rw [empty]
  rfl

theorem spanOf_ran (found : state.arena.get? id = some node) :
    Ran (spanOf id) state (.ok node.span state) :=
  (nodeAt_ran found).bind (ran_pure _)

theorem spanOf_ran_empty (empty : state.arena.get? id = none) :
    Ran (spanOf id) state (.error (.fault .emptySlot) state) :=
  (nodeAt_ran_empty empty).bind_error

end

end Scan

/-! ### Steps of the grammar -/

namespace Parse

/-- What a step of the grammar returns under a table, as `Scan.Returns` says. -/
def Returns (table : RuleTable) (step : Parse α) (state : State) (post : α → State → Prop) :
    Prop :=
  Scan.Returns (step table) state post

section

variable {table : RuleTable} {step : Parse α} {state : State} {post weaker : α → State → Prop}

theorem Returns.mono (returns : Returns table step state post)
    (implies : ∀ value after, post value after → weaker value after) :
    Returns table step state weaker :=
  Scan.Returns.mono returns implies

theorem Returns.and {more : α → State → Prop} (returns : Returns table step state post)
    (also : Returns table step state more) :
    Returns table step state fun value after => post value after ∧ more value after :=
  Scan.Returns.and returns also

theorem Returns.bind {next : α → Parse β} {goal : β → State → Prop}
    (returns : Returns table step state post)
    (follow : ∀ value reached, post value reached → Returns table (next value) reached goal) :
    Returns table (step >>= next) state goal :=
  Scan.Returns.bind returns follow

theorem returns_lift {step : Scan α} (returns : Scan.Returns step state post) :
    Returns table (liftM step) state post :=
  returns

theorem Returns.lift_bind {step : Scan α} {next : α → Parse β} {goal : β → State → Prop}
    (returns : Scan.Returns step state post)
    (follow : ∀ value reached, post value reached → Returns table (next value) reached goal) :
    Returns table (liftM step >>= next) state goal :=
  Scan.Returns.bind returns follow

theorem returns_pure {value : α} (holds : post value state) :
    Returns table (pure value) state post :=
  Scan.returns_pure holds

theorem returns_some {value : α} {known : α → Prop} (holds : known value) :
    Returns table (pure (some value)) state fun found _ => ∀ other ∈ found, known other := by
  apply returns_pure
  intro other same
  cases same
  exact holds

theorem returns_none {known : α → Prop} :
    Returns table (pure none) state fun found _ => ∀ other ∈ found, known other :=
  returns_pure nofun

theorem returns_throw (halt : Halt) : Returns table (throw halt : Parse α) state post :=
  Scan.returns_throw halt

theorem returns_any (step : Parse α) : Returns table step state fun _ _ => True :=
  Scan.returns_any (step table) state

/-- What a step returns may depend on its last part alone. -/
theorem Returns.after {next : α → Parse β} {goal : β → State → Prop}
    (follow : ∀ value reached, Returns table (next value) reached goal) :
    Returns table (step >>= next) state goal :=
  (returns_any step).bind fun value reached _ => follow value reached

theorem Returns.get_bind {next : State → Parse α}
    (returns : Returns table (next state) state post) :
    Returns table (get >>= next) state post :=
  ⟨fun run => Scan.Returns.post returns run⟩

theorem Returns.modify_bind {f : State → State} {next : PUnit → Parse α}
    (returns : Returns table (next ⟨⟩) (f state) post) :
    Returns table (modify f >>= next) state post :=
  ⟨fun run => Scan.Returns.post returns run⟩

theorem repeatUntil_returns {first : σ} {body : σ → Parse (Turn σ α)}
    (invariant : σ → State → Prop) (started : invariant first state)
    (turn : ∀ current state, invariant current state →
      Returns table (body current) state fun result reached =>
        match result with
        | .again next => invariant next reached
        | .done value => post value reached) :
    Returns table (repeatUntil first body) state post :=
  Scan.repeatUntil_returns invariant started turn

end

end Parse

end RubySyntax
