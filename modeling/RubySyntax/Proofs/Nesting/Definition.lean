/-
Definitions, blocks and lambdas. Each enters one scope and leaves it, and a
block in braces is closed by the brace that its own opener asks for.
-/

import RubySyntax.Grammar.Definition
import RubySyntax.Proofs.Nesting.Control
import RubySyntax.Proofs.Nesting.Literal
import RubySyntax.Proofs.Nesting.Parameter

namespace RubySyntax.Parse

set_option synthInstance.maxSize 512

variable {table : RuleTable} [Serves table] {kind : TokenKind}

/-! ### Methods -/

instance : Steady table methodName := by
  unfold methodName
  apply Settles.peek
  intro kind span
  dsimp only
  split
  · infer_instance
  · infer_instance
  · infer_instance
  · infer_instance
  · infer_instance
  · infer_instance
  · infer_instance
  · split
    · next names =>
        have := TokenKind.flat_of_isMethodName names
        infer_instance
    · infer_instance
  · infer_instance

instance : Steady table methodNameAfterDot := by
  unfold methodNameAfterDot
  infer_instance

instance (written : Bytes) (name : Symbol) (known : Bool) :
    (receiverShape written name known).Proper := by
  unfold receiverShape
  infer_instance

theorem parenthesizedReceiver_settlesAt (isParen : kind.isLeftParen) :
    SettlesAt table kind [] 0 parenthesizedReceiver := by
  unfold parenthesizedReceiver
  apply SettlesAt.takeOpening (TokenKind.bracketMark_of_isLeftParen isParen)
  intro opening _
  apply Settles.andThen
  intro receiver
  apply Settles.expect rfl
  intro close
  infer_instance

instance : Steady table methodHead := by
  unfold methodHead
  apply Settles.peekingKind
  intro kind
  split
  · next isParen => exact (parenthesizedReceiver_settlesAt isParen).finish inferInstance
  · apply SettlesAt.ofSettles
    apply Settles.andThen
    intro named
    apply Settles.peekingKind
    intro following
    split
    · infer_instance
    · infer_instance
    · infer_instance

instance : Steady table methodParameters := by
  unfold methodParameters
  apply Settles.peekingKind
  intro kind
  split
  · next isParen => exact parenthesizedParameters_settlesAt isParen
  · infer_instance

theorem methodDefinition_settlesAt (word : Keyword) :
    SettlesAt table (.keyword word) [] 0 methodDefinition := by
  unfold methodDefinition
  apply SettlesAt.takeFlat
  intro token _
  apply Settles.andThen
  intro _
  apply Settles.andThen
  intro head
  dsimp only
  apply Settles.andThen
  intro defined
  split
  · infer_instance
  · infer_instance

/-! ### Classes and modules -/

instance (word : Span) : Steady table (classBody word) := by
  unfold classBody
  infer_instance

instance : Steady table constantPath := by
  unfold constantPath
  apply Settles.andThen
  intro operand
  apply Settles.andThen
  intro node
  split <;> infer_instance

theorem classDefinition_settlesAt (word : Keyword) :
    SettlesAt table (.keyword word) [] 0 classDefinition := by
  unfold classDefinition
  apply SettlesAt.takeFlat
  intro token _
  apply Settles.andThen
  intro _
  apply Settles.andThen
  intro singleton
  split
  · infer_instance
  · apply Settles.andThen
    intro state
    extract_lets named
    have named_steady (checked : Unit) : Steady table (named checked) := by
      unfold named
      infer_instance
    clear_value named
    infer_instance

theorem moduleDefinition_settlesAt (word : Keyword) :
    SettlesAt table (.keyword word) [] 0 moduleDefinition := by
  unfold moduleDefinition
  apply SettlesAt.takeFlat
  intro token _
  infer_instance

/-! ### Blocks and lambdas -/

theorem blockBody_steady {opening : Token} (words : opening.kind.isLeftBrace = false) :
    Steady table (blockBody opening) := by
  unfold blockBody
  rw [words]
  simp only [Bool.false_eq_true, if_false]
  infer_instance

/-- A block in braces ends at the brace of its own. -/
theorem blockBody_settles {opening : Token} (braces : opening.kind.isLeftBrace) :
    Settles table [.brace] 0 (blockBody opening) := by
  unfold blockBody
  rw [braces]
  simp only [if_true, id]
  apply Settles.andThen
  intro _
  apply Settles.finish _ inferInstance
  apply Settles.inScope
  intro _
  apply Settles.andThen
  intro list
  apply Settles.andThen
  intro inner
  apply Settles.expect rfl
  intro close
  infer_instance

theorem block_settlesAt (opens : kind.isLeftBrace ∨ kind.isDo) :
    SettlesAt table kind [] 0 block := by
  unfold block
  cases braces : kind.isLeftBrace with
  | true =>
      apply SettlesAt.takeOpening (TokenKind.bracketMark_of_isLeftBrace braces)
      intro opening same
      have : Settles table [.brace] 0 (blockBody opening) := blockBody_settles (same ▸ braces)
      infer_instance
  | false =>
      rw [braces] at opens
      have : kind.Flat := ⟨TokenKind.bracketMark_of_isDo (opens.resolve_left nofun)⟩
      apply SettlesAt.takeFlat
      intro opening same
      have : Steady table (blockBody opening) := blockBody_steady (same ▸ braces)
      infer_instance

instance : Steady table lambdaBody := by
  unfold lambdaBody
  apply Settles.peek
  intro kind span
  split
  · next braces =>
      apply SettlesAt.skipOpening (TokenKind.bracketMark_of_isLeftBrace braces)
      intro _
      apply Settles.andThen
      intro inner
      apply Settles.expect rfl
      intro close
      infer_instance
  · split
    · next isDo =>
        have : kind.Flat := ⟨TokenKind.bracketMark_of_isDo isDo⟩
        infer_instance
    · infer_instance

theorem lambda_settlesAt : SettlesAt table (.punct .arrow) [] 0 lambda := by
  unfold lambda
  apply SettlesAt.takeFlat
  intro arrow _
  apply Settles.andThen
  intro _
  apply Settles.inScope
  intro _
  apply Settles.peekingKind
  intro kind
  extract_lets after
  have after_settles (list : Option NodeId) : Settles table [] 1 (after list) := by
    unfold after
    infer_instance
  clear_value after
  split
  · next isParen => exact (parenthesizedParameters_settlesAt isParen).before inferInstance
  · infer_instance

/-! ### Statements on names -/

instance : Steady table methodItem := by
  unfold methodItem
  apply Settles.peek
  intro kind span
  dsimp only
  split
  · infer_instance
  · apply SettlesAt.finish (literal_settlesAt .symbol)
    intro node
    apply Settles.andThen
    intro shape
    split
    · infer_instance
    · infer_instance
  · infer_instance
  · infer_instance
  · infer_instance
  · infer_instance

instance (newName : Symbol) : Steady table (globalAliasShape newName) := by
  unfold globalAliasShape
  apply Settles.peek
  intro kind span
  dsimp only
  split
  · infer_instance
  · infer_instance
  · infer_instance
  · infer_instance

omit [Serves table] in
/-- A placeholder stands for an old name that has been complained about. -/
theorem globalAliasShape_returns (newName : Symbol) (state : State) :
    Returns table (globalAliasShape newName) state fun shape after =>
      shape.Proper ∨ 0 < after.report.errors := by
  unfold globalAliasShape
  apply Returns.after
  intro token reached
  split
  · apply Returns.after
    intro _ _
    apply Returns.after
    intro _ _
    apply Returns.after
    intro _ _
    exact returns_pure (.inl inferInstance)
  · apply Returns.after
    intro _ _
    apply Returns.after
    intro _ _
    apply Returns.after
    intro _ _
    exact returns_pure (.inl inferInstance)
  · apply Returns.after
    intro _ _
    apply (returns_lift (Scan.report_returns rfl _ _)).bind
    intro _ _ reported
    exact returns_pure (.inr reported)
  · apply (returns_lift (Scan.report_returns rfl _ _)).bind
    intro _ _ reported
    exact returns_pure (.inr reported)

theorem globalAlias_settlesAt [kind.Flat] (start : Nat) :
    SettlesAt table kind [] 0 (globalAlias start) := by
  unfold globalAlias
  apply SettlesAt.takeFlat
  intro token _
  apply Settles.andThen
  intro written
  apply Settles.andThen
  intro newName
  apply Settles.unlessReported (globalAliasShape_returns newName)
  · intro shape proper
    split
    · infer_instance
    · infer_instance
  · intro shape
    split
    · infer_instance
    · infer_instance

instance (start : Nat) : Steady table (methodAlias start) := by
  unfold methodAlias
  infer_instance

theorem aliasStatement_settlesAt (word : Keyword) :
    SettlesAt table (.keyword word) [] 0 aliasStatement := by
  unfold aliasStatement
  apply SettlesAt.takeFlat
  intro token _
  apply Settles.peekingKind
  intro kind
  split
  · exact globalAlias_settlesAt token.span.start
  · exact globalAlias_settlesAt token.span.start
  · exact globalAlias_settlesAt token.span.start
  · infer_instance

theorem undefStatement_settlesAt (word : Keyword) :
    SettlesAt table (.keyword word) [] 0 undefStatement := by
  unfold undefStatement undefTurn
  infer_instance

instance : Steady table bracedStatements := by
  unfold bracedStatements
  apply Settles.peek
  intro kind span
  extract_lets after
  have after_settles (value : Unit) : Settles table [.brace] 0 (after value) := by
    unfold after
    apply Settles.andThen
    intro _
    apply Settles.andThen
    intro inner
    apply Settles.expect rfl
    intro close
    infer_instance
  have after_recovers (value : Unit) : Recovers table (after value) := by
    unfold after
    infer_instance
  clear_value after
  split
  · next braces =>
      exact .skipOpening (TokenKind.bracketMark_of_isLeftBrace braces) after_settles
  · infer_instance

theorem atStart_settlesAt (word : Keyword) :
    SettlesAt table (.keyword word) [] 0 atStart := by
  unfold atStart
  infer_instance

theorem atExit_settlesAt (word : Keyword) :
    SettlesAt table (.keyword word) [] 0 atExit := by
  unfold atExit
  infer_instance

end RubySyntax.Parse
