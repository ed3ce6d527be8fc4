/-
What a step yields.

Where it is known already that a run comes to an end, it is enough to follow
the steps that give a value. A step may also halt, but not for something that
was left open: that is the only fatal error that depends on what is read. Where
there is room for all that is stored, it halts for no fatal error at all.
-/

import RubySyntax.Program

namespace RubySyntax

variable {α β σ : Type}

def Fatal.IsLimit : Fatal → Prop
  | .arenaExhausted _ => True
  | .nestingTooDeep _ _ => True
  | .unterminated _ _ => False

namespace Scan

/-- If a step gives a value, the postcondition holds of it and of the state
reached; if it ends in a fatal error, the error is excused in the state reached, which
without further words means that a limit was reached. -/
def Yields (step : Scan α) (state : State) (post : α → State → Prop)
    (excused : Fatal → State → Prop := fun error _ => error.IsLimit) : Prop :=
  match step state with
  | .ok value after => post value after
  | .error (.fatal error) after => excused error after
  | .error .starved _ => True
  | .error (.fault _) _ => True

abbrev Succeeds (step : Scan α) (state : State) (post : α → State → Prop) : Prop :=
  Yields step state post fun _ _ => False

variable {step : Scan α} {state : State} {post weaker : α → State → Prop}
  {excused : Fatal → State → Prop}

theorem Yields.value {value : α} {after : State} (yields : Yields step state post excused)
    (run : step state = .ok value after) : post value after := by
  unfold Yields at yields
  rw [run] at yields
  exact yields

theorem Yields.limit {error : Fatal} {after : State} (yields : Yields step state post excused)
    (run : step state = .error (.fatal error) after) : excused error after := by
  unfold Yields at yields
  rw [run] at yields
  exact yields

theorem Yields.mono (yields : Yields step state post excused)
    (implies : ∀ value after, post value after → weaker value after) :
    Yields step state weaker excused := by
  unfold Yields at yields ⊢
  split at yields
  · exact implies _ _ yields
  · exact yields
  · exact yields
  · exact yields

theorem Yields.unexcused (succeeds : Succeeds step state post) :
    Yields step state post excused := by
  unfold Succeeds Yields at succeeds
  unfold Yields
  split at succeeds
  · exact succeeds
  · exact succeeds.elim
  · exact succeeds
  · exact succeeds

theorem Yields.bind {next : α → Scan β} {after : β → State → Prop}
    (yields : Yields step state post excused)
    (follow : ∀ value reached, post value reached → Yields (next value) reached after excused) :
    Yields (step >>= next) state after excused := by
  change Yields (EStateM.bind step next) state after excused
  unfold Yields EStateM.bind
  unfold Yields at yields
  cases run : step state with
  | ok value reached =>
      rw [run] at yields
      exact follow value reached yields
  | error halt reached =>
      rw [run] at yields
      cases halt with
      | fatal error => exact yields
      | starved => trivial
      | fault fault => trivial

theorem yields_pure {value : α} (holds : post value state) :
    Yields (pure value) state post excused :=
  holds

theorem Yields.get_bind {next : State → Scan α} (yields : Yields (next state) state post excused) :
    Yields (get >>= next) state post excused :=
  yields

theorem Yields.set_bind {reached : State} {next : PUnit → Scan α}
    (yields : Yields (next ⟨⟩) reached post excused) :
    Yields (set reached >>= next) state post excused :=
  yields

theorem Yields.modify_bind {f : State → State} {next : PUnit → Scan α}
    (yields : Yields (next ⟨⟩) (f state) post excused) :
    Yields (modify f >>= next) state post excused :=
  yields

theorem Yields.setLexer_bind {f : LexerState → LexerState} {next : Unit → Scan α}
    (yields : Yields (next ()) { state with lexer := f state.lexer } post excused) :
    Yields (setLexer f >>= next) state post excused :=
  yields

theorem Yields.advance_bind {distance : Nat} {next : Unit → Scan α}
    (yields : Yields (next ()) { state with input := state.input.advance distance } post excused) :
    Yields (advance distance >>= next) state post excused :=
  yields

theorem Yields.position_bind {next : Nat → Scan α}
    (yields : Yields (next state.input.position) state post excused) :
    Yields (position >>= next) state post excused :=
  yields

theorem Yields.token_bind {kind : TokenKind} {start : Nat} {next : Token → Scan α}
    (yields : Yields (next ⟨kind, ⟨start, state.input.position⟩⟩) state post excused) :
    Yields (token kind start >>= next) state post excused :=
  yields

theorem yields_modify {f : State → State} {post : PUnit → State → Prop}
    (holds : post ⟨⟩ (f state)) : Yields (modify f) state post excused :=
  holds

theorem Yields.relyOn_bind {holds : Bool} {fault : Fault} {next : Unit → Scan α}
    (yields : Yields (next ()) state post excused) :
    Yields (relyOn holds fault >>= next) state post excused := by
  cases holds with
  | false => trivial
  | true => exact yields

theorem Yields.checkRange_bind {start stop : Nat} {next : Unit → Scan α}
    (yields : Yields (next ()) state post excused) :
    Yields (checkRange start stop >>= next) state post excused := by
  change Yields (relyOn (state.input.covers ⟨start, stop⟩) .outOfRange >>= next) state post excused
  exact Yields.relyOn_bind yields

theorem Yields.hasMore_bind {next : Bool → Scan α} {byte : Byte} {more : Bytes}
    (here : state.input.rest = byte :: more)
    (yields : Yields (next true) state post excused) :
    Yields (hasMore >>= next) state post excused := by
  have within : state.input.atEnd = false := by
    rw [Input.atEnd, here]
    rfl
  refine Yields.bind (Yields.get_bind ?_ :
    Yields hasMore state (fun more after => more = true ∧ after = state) excused) ?_
  · rw [within]
    exact yields_pure ⟨rfl, rfl⟩
  · rintro _ _ ⟨rfl, rfl⟩
    exact yields

theorem repeatUntil_yields {first : σ} {body : σ → Scan (Turn σ α)}
    (invariant : σ → State → Prop) (post : α → State → Prop) (started : invariant first state)
    (turn : ∀ current state, invariant current state →
      Yields (body current) state (fun result reached =>
        match result with
        | .again next => invariant next reached
        | .done value => post value reached) excused) :
    Yields (repeatUntil first body) state post excused := by
  refine Yields.get_bind ?_
  generalize state.limits.turns = turns
  induction turns generalizing first state with
  | zero => trivial
  | succ turns ih =>
      have once := turn first state started
      unfold Yields at once ⊢
      unfold iterate
      cases run : body first state with
      | error halt reached =>
          rw [run] at once
          cases halt with
          | fatal error => exact once
          | starved => trivial
          | fault fault => trivial
      | ok result reached =>
          rw [run] at once
          cases result with
          | done value => exact once
          | again next => exact ih once

end Scan

namespace Parse

/-- What a step of the grammar yields under a table, as `Scan.Yields` says. -/
def Yields (table : RuleTable) (step : Parse α) (state : State) (post : α → State → Prop)
    (excused : Fatal → State → Prop := fun error _ => error.IsLimit) : Prop :=
  Scan.Yields (step table) state post excused

abbrev Succeeds (table : RuleTable) (step : Parse α) (state : State)
    (post : α → State → Prop) : Prop :=
  Yields table step state post fun _ _ => False

variable {table : RuleTable} {step : Parse α} {state : State}
  {post weaker : α → State → Prop} {excused : Fatal → State → Prop}

theorem Yields.mono (yields : Yields table step state post excused)
    (implies : ∀ value after, post value after → weaker value after) :
    Yields table step state weaker excused :=
  Scan.Yields.mono yields implies

theorem Yields.unexcused (succeeds : Succeeds table step state post) :
    Yields table step state post excused :=
  Scan.Yields.unexcused succeeds

theorem Yields.bind {next : α → Parse β} {after : β → State → Prop}
    (yields : Yields table step state post excused)
    (follow : ∀ value reached, post value reached →
      Yields table (next value) reached after excused) :
    Yields table (step >>= next) state after excused :=
  Scan.Yields.bind yields follow

theorem yields_lift {step : Scan α} (yields : Scan.Yields step state post excused) :
    Yields table (liftM step) state post excused :=
  yields

theorem Yields.lift_bind {step : Scan α} {next : α → Parse β} {after : β → State → Prop}
    (yields : Scan.Yields step state post excused)
    (follow : ∀ value reached, post value reached →
      Yields table (next value) reached after excused) :
    Yields table (liftM step >>= next) state after excused :=
  Scan.Yields.bind yields follow

theorem yields_pure {value : α} (holds : post value state) :
    Yields table (pure value) state post excused :=
  holds

theorem Yields.get_bind {next : State → Parse α}
    (yields : Yields table (next state) state post excused) :
    Yields table (get >>= next) state post excused :=
  yields

theorem Yields.modify_bind {f : State → State} {next : PUnit → Parse α}
    (yields : Yields table (next ⟨⟩) (f state) post excused) :
    Yields table (modify f >>= next) state post excused :=
  yields

theorem Yields.setLexer_bind {f : LexerState → LexerState} {next : Unit → Parse α}
    (yields : Yields table (next ()) { state with lexer := f state.lexer } post excused) :
    Yields table (liftM (Scan.setLexer f) >>= next) state post excused :=
  yields

theorem Yields.ite {condition : Prop} [Decidable condition] {left right : Parse α}
    (whenTrue : condition → Yields table left state post excused)
    (whenFalse : ¬condition → Yields table right state post excused) :
    Yields table (if condition then left else right) state post excused := by
  by_cases holds : condition
  · rw [if_pos holds]
    exact whenTrue holds
  · rw [if_neg holds]
    exact whenFalse holds

theorem repeatUntil_yields {first : σ} {body : σ → Parse (Turn σ α)}
    (invariant : σ → State → Prop) (post : α → State → Prop) (started : invariant first state)
    (turn : ∀ current state, invariant current state →
      Yields table (body current) state (fun result reached =>
        match result with
        | .again next => invariant next reached
        | .done value => post value reached) excused) :
    Yields table (repeatUntil first body) state post excused :=
  Scan.repeatUntil_yields invariant post started turn

/-- What is read one level deeper, if there is room for a level or the lack of it is
excused. -/
theorem deeper_yields_within {position : Nat}
    (room : state.limits.maxDepth ≤ state.depth →
      excused (.nestingTooDeep state.limits.maxDepth position) state)
    (yields : Yields table step { state with depth := state.depth + 1 } (fun value after =>
      post value { after with depth := after.depth - 1 }) excused) :
    Yields table (deeper position step) state post excused := by
  refine Yields.get_bind (Yields.ite (fun full => room full) fun _ => ?_)
  exact Yields.modify_bind (Yields.bind yields fun _ _ holds => holds)

theorem deeper_yields {position : Nat}
    (yields : Yields table step { state with depth := state.depth + 1 } fun value after =>
      post value { after with depth := after.depth - 1 }) :
    Yields table (deeper position step) state post :=
  deeper_yields_within (fun _ => trivial) yields

end Parse

end RubySyntax
