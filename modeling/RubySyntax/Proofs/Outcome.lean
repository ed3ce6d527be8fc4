/-
What a step of the parse ends in.

A step is followed under two tables of rules at once, so that a run that is
watched can be compared with the run that is not. The watched run may be
stopped; unless it is, both end alike, and neither runs out of turns or meets
a fault. What holds of the value and the state at the end is a postcondition.
-/

import RubySyntax.Program

namespace RubySyntax

variable {α β σ : Type}

structure SourceMap.Sound (map : SourceMap) : Prop where
  line : ∀ segment ∈ map.segments, segment.firstLineIndex < map.lineStarts.size
  file : ∀ segment ∈ map.segments, segment.file < map.files.size

/-- The ends of two runs: both with the same value and state, of which the
postcondition holds, or both with the same fatal error, whose place can be
found. A watched run that is starved has been stopped, where that is allowed. -/
def Outcome (stoppable : Prop) (watched plain : EStateM.Result Halt State α)
    (post : α → State → Prop) : Prop :=
  match watched with
  | .ok value state => plain = .ok value state ∧ post value state
  | .error (.fatal error) state =>
      plain = .error (.fatal error) state ∧ state.report.map.Sound
  | .error .starved _ => stoppable
  | .error (.fault _) _ => False

namespace Outcome

variable {stoppable : Prop} {watched plain : EStateM.Result Halt State α}
  {post weaker : α → State → Prop}

theorem mono (outcome : Outcome stoppable watched plain post)
    (implies : ∀ value state, post value state → weaker value state) :
    Outcome stoppable watched plain weaker := by
  unfold Outcome at outcome ⊢
  split at outcome
  · exact ⟨outcome.1, implies _ _ outcome.2⟩
  · exact outcome
  · exact outcome
  · exact outcome

theorem bind {first second : Scan α} {next other : α → Scan β} {state : State}
    {after : β → State → Prop}
    (outcome : Outcome stoppable (first state) (second state) post)
    (follow : ∀ value reached, post value reached →
      Outcome stoppable (next value reached) (other value reached) after) :
    Outcome stoppable ((first >>= next) state) ((second >>= other) state) after := by
  change Outcome stoppable (EStateM.bind first next state)
    (EStateM.bind second other state) after
  unfold EStateM.bind
  cases run : first state with
  | ok value reached =>
      rw [run] at outcome
      obtain ⟨same, holds⟩ := outcome
      rw [same]
      exact follow value reached holds
  | error halt reached =>
      rw [run] at outcome
      cases halt with
      | fatal error =>
          obtain ⟨same, located⟩ := outcome
          rw [same]
          exact ⟨rfl, located⟩
      | starved => exact outcome
      | fault fault => exact outcome.elim

/-- Two loops end alike if an invariant is kept while a size goes down. -/
theorem iterate {body other : σ → Scan (Turn σ α)} (invariant : σ → State → Prop)
    (size : σ → State → Nat)
    (turn : ∀ current state, invariant current state →
      Outcome stoppable (body current state) (other current state) fun result reached =>
        match result with
        | .again next =>
            invariant next reached ∧ size next reached < size current state
        | .done value => post value reached) :
    ∀ (turns : Nat) (current : σ) (state : State), invariant current state →
      size current state < turns →
      Outcome stoppable (RubySyntax.iterate body turns current state)
        (RubySyntax.iterate other turns current state) post := by
  intro turns
  induction turns with
  | zero =>
      intro current state _ fewer
      exact absurd fewer (Nat.not_lt_zero _)
  | succ turns ih =>
      intro current state kept fewer
      have once := turn current state kept
      unfold RubySyntax.iterate
      cases run : body current state with
      | error halt reached =>
          rw [run] at once
          cases halt with
          | fatal error =>
              obtain ⟨same, located⟩ := once
              rw [same]
              exact ⟨rfl, located⟩
          | starved => exact once
          | fault fault => exact once.elim
      | ok result reached =>
          rw [run] at once
          obtain ⟨same, holds⟩ := once
          rw [same]
          cases result with
          | done value => exact ⟨rfl, holds⟩
          | again next => exact ih next reached holds.1 (by omega)

end Outcome

namespace Scan

def Ends (step : Scan α) (state : State) (post : α → State → Prop) : Prop :=
  Outcome False (step state) (step state) post

variable {step : Scan α} {state : State} {post weaker : α → State → Prop}

theorem Ends.mono (ends : Ends step state post)
    (implies : ∀ value state, post value state → weaker value state) :
    Ends step state weaker :=
  Outcome.mono ends implies

theorem Ends.bind {next : α → Scan β} {after : β → State → Prop}
    (ends : Ends step state post)
    (follow : ∀ value reached, post value reached → Ends (next value) reached after) :
    Ends (step >>= next) state after :=
  Outcome.bind ends follow

theorem ends_pure {value : α} (holds : post value state) :
    Ends (pure value) state post :=
  ⟨rfl, holds⟩

theorem Ends.get_bind {next : State → Scan α} (ends : Ends (next state) state post) :
    Ends (get >>= next) state post :=
  ends

theorem Ends.set_bind {reached : State} {next : PUnit → Scan α}
    (ends : Ends (next ⟨⟩) reached post) : Ends (set reached >>= next) state post :=
  ends

theorem Ends.modify_bind {f : State → State} {next : PUnit → Scan α}
    (ends : Ends (next ⟨⟩) (f state) post) : Ends (modify f >>= next) state post :=
  ends

theorem Ends.setLexer_bind {f : LexerState → LexerState} {next : Unit → Scan α}
    (ends : Ends (next ()) { state with lexer := f state.lexer } post) :
    Ends (setLexer f >>= next) state post :=
  ends

theorem Ends.advance_bind {distance : Nat} {next : Unit → Scan α}
    (ends : Ends (next ()) { state with input := state.input.advance distance } post) :
    Ends (advance distance >>= next) state post :=
  ends

theorem ends_modify {f : State → State} {post : PUnit → State → Prop}
    (holds : post ⟨⟩ (f state)) : Ends (modify f) state post :=
  ⟨rfl, holds⟩

theorem ends_modifyGet {f : State → α × State}
    (holds : post (f state).1 (f state).2) : Ends (modifyGet f) state post :=
  ⟨rfl, holds⟩

theorem ends_fail {error : Fatal} (located : state.report.map.Sound) :
    Ends (fail error : Scan α) state post :=
  ⟨rfl, located⟩

theorem Ends.relyOn_bind {holds : Bool} {fault : Fault} {next : Unit → Scan α}
    (relied : holds = true) (ends : Ends (next ()) state post) :
    Ends (relyOn holds fault >>= next) state post := by
  subst relied
  exact ends

theorem Ends.ite {condition : Prop} [Decidable condition] {left right : Scan α}
    (whenTrue : condition → Ends left state post)
    (whenFalse : ¬condition → Ends right state post) :
    Ends (if condition then left else right) state post := by
  by_cases holds : condition
  · rw [if_pos holds]
    exact whenTrue holds
  · rw [if_neg holds]
    exact whenFalse holds

theorem Ends.when {condition : Prop} [Decidable condition] {optional : Scan Unit}
    {next : Unit → Scan α} (middle : State → Prop)
    (taken : condition → Ends optional state fun _ reached => middle reached)
    (passed : ¬condition → middle state)
    (follow : ∀ reached, middle reached → Ends (next ()) reached post) :
    Ends (if condition then optional >>= next else next ()) state post :=
  Ends.ite (fun holds => (taken holds).bind fun _ => follow)
    fun fails => follow state (passed fails)

theorem Ends.choose {condition : Prop} [Decidable condition] {left : Scan β}
    {next : β → Scan α} (value : β) (middle : β → State → Prop)
    (taken : condition → Ends left state middle)
    (passed : ¬condition → middle value state)
    (follow : ∀ value reached, middle value reached → Ends (next value) reached post) :
    Ends (if condition then left >>= next else next value) state post :=
  Ends.ite (fun holds => (taken holds).bind follow)
    fun fails => follow value state (passed fails)

theorem repeatUntil_ends {first : σ} {body : σ → Scan (Turn σ α)}
    (invariant : σ → State → Prop) (size : σ → State → Nat) (post : α → State → Prop)
    (started : invariant first state) (bounded : size first state < state.limits.turns)
    (turn : ∀ current state, invariant current state →
      Ends (body current) state fun result reached =>
        match result with
        | .again next =>
            invariant next reached ∧ size next reached < size current state
        | .done value => post value reached) :
    Ends (repeatUntil first body) state post :=
  Outcome.iterate invariant size turn _ _ _ started bounded

end Scan

structure Tables where
  watched : RuleTable
  plain : RuleTable
  stoppable : Prop

namespace Parse

def Ends (tables : Tables) (step : Parse α) (state : State) (post : α → State → Prop) :
    Prop :=
  Outcome tables.stoppable (step tables.watched state) (step tables.plain state) post

variable {tables : Tables} {step : Parse α} {state : State}
  {post weaker : α → State → Prop}

theorem Ends.mono (ends : Ends tables step state post)
    (implies : ∀ value state, post value state → weaker value state) :
    Ends tables step state weaker :=
  Outcome.mono ends implies

theorem Ends.bind {next : α → Parse β} {after : β → State → Prop}
    (ends : Ends tables step state post)
    (follow : ∀ value reached, post value reached →
      Ends tables (next value) reached after) :
    Ends tables (step >>= next) state after :=
  Outcome.bind ends follow

theorem ends_lift {step : Scan α} (ends : Scan.Ends step state post) :
    Ends tables (liftM step) state post := by
  change Outcome tables.stoppable (step state) (step state) post
  unfold Scan.Ends Outcome at ends
  unfold Outcome
  split at ends
  · exact ends
  · exact ends
  · exact ends.elim
  · exact ends.elim

theorem ends_pure {value : α} (holds : post value state) :
    Ends tables (pure value) state post :=
  ⟨rfl, holds⟩

theorem Ends.get_bind {next : State → Parse α} (ends : Ends tables (next state) state post) :
    Ends tables (get >>= next) state post :=
  ends

theorem Ends.modify_bind {f : State → State} {next : PUnit → Parse α}
    (ends : Ends tables (next ⟨⟩) (f state) post) :
    Ends tables (modify f >>= next) state post :=
  ends

theorem Ends.ite {condition : Prop} [Decidable condition] {left right : Parse α}
    (whenTrue : condition → Ends tables left state post)
    (whenFalse : ¬condition → Ends tables right state post) :
    Ends tables (if condition then left else right) state post := by
  by_cases holds : condition
  · rw [if_pos holds]
    exact whenTrue holds
  · rw [if_neg holds]
    exact whenFalse holds

theorem Ends.when {condition : Prop} [Decidable condition] {optional : Parse Unit}
    {next : Unit → Parse α} (middle : State → Prop)
    (taken : condition → Ends tables optional state fun _ reached => middle reached)
    (passed : ¬condition → middle state)
    (follow : ∀ reached, middle reached → Ends tables (next ()) reached post) :
    Ends tables (if condition then optional >>= next else next ()) state post :=
  Ends.ite (fun holds => (taken holds).bind fun _ => follow)
    fun fails => follow state (passed fails)

section

variable {γ : Type} {condition : Prop} [Decidable condition] {value : β} {first : Parse γ}
  {next : β → Parse α} (middle : β → State → Prop)

/-- A value where a condition holds, and a step where it does not. -/
theorem Ends.value_or_step {other : Parse β} (given : condition → middle value state)
    (taken : ¬condition → Ends tables other state middle)
    (follow : ∀ value reached, middle value reached → Ends tables (next value) reached post) :
    Ends tables (if condition then pure value >>= next else other >>= next) state post :=
  Ends.ite (fun holds => follow value state (given holds))
    fun fails => (taken fails).bind follow

/-- A step where a condition holds, and a value where it does not. -/
theorem Ends.step_or_value {other : Parse β} (taken : condition → Ends tables other state middle)
    (given : ¬condition → middle value state)
    (follow : ∀ value reached, middle value reached → Ends tables (next value) reached post) :
    Ends tables (if condition then other >>= next else pure value >>= next) state post :=
  Ends.ite (fun holds => (taken holds).bind follow)
    fun fails => follow value state (given fails)

theorem Ends.value_or_made {f : γ → β} (given : condition → middle value state)
    (taken : ¬condition → Ends tables first state fun result => middle (f result))
    (follow : ∀ value reached, middle value reached → Ends tables (next value) reached post) :
    Ends tables (if condition then pure value >>= next
      else first >>= fun result => pure (f result) >>= next) state post :=
  Ends.ite (fun holds => follow value state (given holds))
    fun fails => (taken fails).bind fun result => follow (f result)

theorem Ends.made_or_value {f : γ → β}
    (taken : condition → Ends tables first state fun result => middle (f result))
    (given : ¬condition → middle value state)
    (follow : ∀ value reached, middle value reached → Ends tables (next value) reached post) :
    Ends tables (if condition then first >>= fun result => pure (f result) >>= next
      else pure value >>= next) state post :=
  Ends.ite (fun holds => (taken holds).bind fun result => follow (f result))
    fun fails => follow value state (given fails)

end

theorem repeatUntil_ends {first : σ} {body : σ → Parse (Turn σ α)}
    (invariant : σ → State → Prop) (size : σ → State → Nat) (post : α → State → Prop)
    (started : invariant first state) (bounded : size first state < state.limits.turns)
    (turn : ∀ current state, invariant current state →
      Ends tables (body current) state fun result reached =>
        match result with
        | .again next =>
            invariant next reached ∧ size next reached < size current state
        | .done value => post value reached) :
    Ends tables (repeatUntil first body) state post :=
  Outcome.iterate invariant size turn _ _ _ started bounded

end Parse

end RubySyntax
