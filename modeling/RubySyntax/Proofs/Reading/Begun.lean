/-
What a program begins with.

Tokens that have been read stay read, and errors that have been reported stay reported,
whatever comes after them. So where the first operand of a program begins with some tokens,
the program begins with them, and where the first token is reported on, the program is.
-/

import RubySyntax.Proofs.Reading.Statement
import RubySyntax.Proofs.TokenOrder

namespace RubySyntax

def Watch.begun (begun : List Token) : Watch where
  always _ _ tokens := begun <:+ tokens
  between _ _ _ _ _ := True
  advance _ known := known
  ask known _ := known
  fetch known _ := known
  add _ _ known := known
  addBetween _ _ known := known
  look known _ := known
  take known := known
  wait _ known := known

abbrev Coupling.begun (begun : List Token) : Coupling :=
  .alone (.begun begun)

instance (begun : List Token) : (Coupling.begun begun).Tracks where
  read {_ after token} _ _ _ known := ⟨known.trans (List.suffix_cons token after.tokens), trivial⟩
  traces _ _ _ _ _ same := by rw [same]

def Watch.reported (errors : Nat) : Watch where
  always _ report _ := errors ≤ report.errors
  between _ _ _ _ _ := True
  advance _ known := known
  ask known _ := known
  fetch known _ := known
  add span problem known := Nat.le_trans known (Report.errors_le_add _ span problem)
  addBetween _ _ known := known
  look known _ := known
  take known := known
  wait _ known := known

instance (errors : Nat) : (Coupling.alone (.reported errors)).Tracks where
  read _ _ _ known := ⟨known, trivial⟩
  traces _ _ _ _ _ same := by rw [same]

instance (begun : List Token) : (Coupling.begun begun).Loose :=
  ⟨fun _ => trivial⟩

instance (errors : Nat) : (Coupling.alone (.reported errors)).Loose :=
  ⟨fun _ => trivial⟩

namespace Parse

variable {α β σ : Type} {watch : Watch} {begun : List Token} {table : RuleTable} {depth : Nat}
  {state : State} {first : Token} {rule : CommandRule}

def Shows (watch : Watch) (table : RuleTable) (step : Parse α) (state : State) : Prop :=
  Yields table step state (fun _ after => (Coupling.alone watch).Always after)
    fun _ after => (Coupling.alone watch).Always after

abbrev Begins (begun : List Token) (table : RuleTable) (step : Parse α) (state : State) : Prop :=
  Shows (.begun begun) table step state

section

variable [loose : (Coupling.alone watch).Loose]

theorem shows_of_shown {step : Parse α} [agrees : InStep (.alone watch) table step]
    (known : (Coupling.alone watch).Always state) : Shows watch table step state := by
  have alike : (Coupling.alone watch).Alike state state := ⟨rfl, rfl, rfl, rfl, known⟩
  have ends := (agrees.agrees.meets state state alike (loose.between state)).ends
  unfold Shows Yields Scan.Yields
  cases run : step table state with
  | ok value after =>
      rw [run] at ends
      obtain ⟨_, -, alike⟩ := ends
      exact alike.always
  | error halt after =>
      rw [run] at ends
      obtain ⟨_, -, alike⟩ := ends.resolve_left id
      cases halt with
      | fatal error => exact alike.always
      | starved => trivial
      | fault fault => trivial

theorem Shows.bind {step : Parse α} {next : α → Parse β} (begins : Shows watch table step state)
    (follow : ∀ value, InStep (.alone watch) table (next value)) :
    Shows watch table (step >>= next) state :=
  Yields.bind begins fun value _ known =>
    have := follow value
    shows_of_shown known

theorem Shows.repeatUntil {start : σ} {body : σ → Parse (Turn σ α)}
    (begins : Shows watch table (body start) state)
    (follow : ∀ current, InStep (.alone watch) table (body current)) :
    Shows watch table (repeatUntil start body) state := by
  apply repeatUntil_yields fun (current : σ) reached =>
    (current = start ∧ reached = state) ∨ (Coupling.alone watch).Always reached
  · exact .inl ⟨rfl, rfl⟩
  intro current reached known
  have turn : Shows watch table (body current) reached := by
    rcases known with ⟨rfl, rfl⟩ | known
    · exact begins
    · have := follow current
      exact shows_of_shown known
  refine Yields.mono turn ?_
  intro result after known
  cases result with
  | again next => exact .inr known
  | done value => exact known

theorem peekToken_shows {errors : Nat} (unseen : state.lookahead = none)
    (reports : Scan.Yields Scan.nextToken state (fun _ after => errors ≤ after.report.errors)
      fun _ after => errors ≤ after.report.errors) :
    Shows (.reported errors) (Parse.table depth) peekToken state := by
  have read : Scan.Yields Scan.readToken state (fun _ after => errors ≤ after.report.errors)
      fun _ after => errors ≤ after.report.errors :=
    Scan.Yields.bind reports fun _ _ known => known
  refine Yields.get_bind ?_
  rw [unseen]
  have seeks : Shows (.reported errors) (Parse.table depth) seekToken state := by
    refine Shows.repeatUntil (Yields.lift_bind read fun token after known => ?_) inferInstance
    exact shows_of_shown known
  exact Yields.bind seeks fun token after known => Yields.modify_bind (yields_pure known)

theorem program_shows [(Coupling.alone watch).Tracks]
    (begins : Shows watch (Parse.table depth) statementList state) :
    Shows watch (Parse.table depth) program state := by
  have whole : Shows watch (Parse.table depth) statements state := begins.bind inferInstance
  have items : Shows watch (Parse.table depth) programItems state :=
    Shows.bind (Shows.repeatUntil (whole.bind inferInstance) inferInstance) inferInstance
  exact items.bind inferInstance

theorem program_shows_of_peek [(Coupling.alone watch).Tracks]
    (begins : Shows watch (Parse.table depth) peekToken state) :
    Shows watch (Parse.table depth) program state := by
  have kind : Shows watch (Parse.table depth) peekKind state := begins.bind inferInstance
  have terminators : Shows watch (Parse.table depth) skipTerminators state :=
    Shows.repeatUntil (kind.bind inferInstance) inferInstance
  apply program_shows
  refine Shows.bind (Shows.repeatUntil (terminators.bind fun _ => ?_) inferInstance) inferInstance
  apply InStep.andThen
  intro kind
  split
  · infer_instance
  · infer_instance

end

/-! ### From the first operand to the program -/

theorem operand_begins (begins : ∀ depth, Begins begun (Parse.table depth) primary state) :
    Begins begun (Parse.table depth) (operand rule) state := by
  have chain : ∀ depth, Begins begun (Parse.table depth) chain state :=
    fun depth => (begins depth).bind inferInstance
  refine Shows.bind (descend_yields .chain chain depth) fun operand => ?_
  apply InStep.andThen
  intro token
  apply InStep.andThen
  intro assignable
  split
  · infer_instance
  · infer_instance
  · infer_instance

set_option synthInstance.maxSize 512 in
theorem minus_begins (ahead : state.lookahead = some first)
    (opens : first.kind.opensOperand = true)
    (begins : Begins begun (Parse.table depth) (operand rule) state) :
    Begins begun (Parse.table depth) (minus rule) state := by
  have unsigned : first.kind ≠ .punct .unaryMinus := by
    intro same
    rw [same] at opens
    cases opens
  refine Yields.peek_bind ahead ?_
  rw [if_neg unsigned]
  have unary : Begins begun (Parse.table depth) (unary rule) state :=
    unary_of_operand ahead opens begins
  exact Yields.peek_bind ahead (unary.bind inferInstance)

theorem range_begins (begins : Begins begun (Parse.table depth) (minus rule) state) :
    Begins begun (Parse.table depth) (range rule) state := by
  have binary : Begins begun (Parse.table depth) (binary rule 1) state := by
    refine begins.bind fun left => ?_
    apply InStep.loop
    intro progress
    apply InStep.andThen
    intro token
    split
    · infer_instance
    · infer_instance
  refine binary.bind fun left => ?_
  apply InStep.andThen
  intro kind
  dsimp only
  split
  · infer_instance
  · infer_instance

theorem argumentOperand_begins (ahead : state.lookahead = some first)
    (opens : first.kind.opensOperand = true) (shallow : state.depth < state.limits.maxDepth)
    (begins : ∀ depth, Begins begun (Parse.table depth) primary
      { state with depth := state.depth + 1 }) :
    Begins begun (Parse.table depth) (argumentOperand rule) state := by
  refine Yields.peek_bind ahead (deeper_yields_within (fun full => ?_) ?_)
  · exact absurd shallow (Nat.not_lt.mpr full)
  have range : Begins begun (Parse.table depth) (range rule)
      { state with depth := state.depth + 1 } :=
    range_begins (minus_begins ahead opens (operand_begins begins))
  exact range.bind inferInstance

theorem expression_begins (ahead : state.lookahead = some first)
    (opens : first.kind.opensOperand = true)
    (begins : ∀ depth, Begins begun (Parse.table depth) (argumentOperand rule) state) :
    Begins begun (Parse.table depth) (expression rule) state := by
  have other : first.kind ≠ .keyword .notWord := by
    intro same
    rw [same] at opens
    cases opens
  have negation : ∀ depth, Begins begun (Parse.table depth) (negation rule) state := by
    intro depth
    refine Yields.peek_bind ahead ?_
    rw [if_neg other]
    exact Shows.bind (descend_yields (.argument rule) begins depth) inferInstance
  refine Shows.bind (descend_yields (.negation rule) negation depth) fun left => ?_
  apply InStep.loop
  intro left
  apply InStep.andThen
  intro kind
  dsimp only
  split
  · infer_instance
  · infer_instance

theorem plainStatement_begins (ahead : state.lookahead = some first)
    (opens : first.kind.opensOperand = true)
    (begins : Begins begun (Parse.table depth) (expression .accepted) state) :
    Begins begun (Parse.table depth) (plainStatement first) state := by
  have whole : Begins begun (Parse.table depth) expressionStatement state := by
    refine Yields.peek_bind ahead (begins.bind fun node => ?_)
    apply InStep.andThen
    intro kind
    apply InStep.andThen
    intro shape
    split
    · infer_instance
    · infer_instance
    · infer_instance
  obtain ⟨kind, span⟩ := first
  cases kind with
  | punct mark => cases mark <;> first | exact whole | cases opens
  | keyword word => cases word <;> first | exact whole | cases opens
  | _ => exact whole

theorem statement_begins (ahead : state.lookahead = some first)
    (begins : Begins begun (Parse.table depth) (plainStatement first) state) :
    Begins begun (Parse.table depth) statement state := by
  refine Yields.peek_bind ahead (begins.bind fun node => ?_)
  apply InStep.andThen
  intro label
  extract_lets modified
  have modified_agrees (reported : Unit) :
      InStep (.begun begun) (Parse.table depth) (modified reported) := by
    apply InStep.loop
    intro node
    apply InStep.andThen
    intro token
    apply InStep.andThen
    intro shape
    split
    · infer_instance
    · infer_instance
  clear_value modified
  split
  · infer_instance
  · infer_instance

theorem program_begins {before : State}
    (peeks : Succeeds (Parse.table depth) peekKind state fun kind after =>
      kind = first.kind ∧ after = before)
    (ahead : before.lookahead = some first) (opens : first.kind.opensOperand = true)
    (begins : Begins begun (Parse.table depth) statement before) :
    Begins begun (Parse.table depth) program state := by
  have terminators : Yields (Parse.table depth) skipTerminators state
      (fun _ after => after = before) fun _ after => begun <:+ after.tokens := by
    refine skipTerminators_before (peeks.unexcused.mono ?_)
    rintro _ after ⟨rfl, same⟩
    exact ⟨(TokenKind.goesOn_of_opensOperand opens).1, same⟩
  apply program_shows
  refine Shows.bind (Shows.repeatUntil (terminators.bind ?_) inferInstance) inferInstance
  rintro _ _ rfl
  refine Yields.peekKind_bind ahead ?_
  rw [(TokenKind.goesOn_of_opensOperand opens).2]
  exact begins.bind inferInstance

end Parse

/-- What a program begins with has been read at its end. -/
theorem tokensRead_of_begins {begun : List Token} {source : Bytes} {options : ParseOptions}
    {symbols : SymbolTable}
    (begins : ∀ depth, Parse.Begins begun (Parse.table depth) Parse.program
      (State.start source options symbols)) :
    begun.reverse <+: tokensRead source options symbols := by
  unfold tokensRead
  rcases runProgram_yields begins with ⟨root, after, known, run⟩ | ⟨error, after, known, run⟩
  · rw [run]
    exact List.reverse_prefix.mpr known
  · rw [run]
    exact List.reverse_prefix.mpr known

end RubySyntax
