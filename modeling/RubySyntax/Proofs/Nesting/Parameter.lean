/-
Formal parameters. A list of parameters stops before what closes it; a
parameter that is taken apart is closed where it was opened.
-/

import RubySyntax.Grammar.Parameter
import RubySyntax.Proofs.Nesting.Argument

namespace RubySyntax.Parse

variable {table : RuleTable} [Serves table] {kind : TokenKind}

instance (name : Symbol) (span : Span) : Quiet (declareParameter name span) := by
  unfold declareParameter
  infer_instance

instance : Steady table parameterName? := by
  unfold parameterName?
  apply Settles.peek
  intro kind span
  dsimp only
  split
  · infer_instance
  · infer_instance

theorem restParameter_settlesAt (form : RestForm) [kind.Flat] :
    SettlesAt table kind [] 0 (restParameter form) := by
  unfold restParameter
  infer_instance

instance (stop : ParametersEnd) : Steady table (defaultValue stop) := by
  unfold defaultValue
  infer_instance

theorem namedParameter_settlesAt (stop : ParametersEnd) (reached : ParameterStage)
    (name : Symbol) :
    SettlesAt table (.identifier name) [] 0 (namedParameter stop reached name) := by
  unfold namedParameter
  apply SettlesAt.takeFlat
  intro token _
  apply Settles.andThen
  intro _
  infer_instance

theorem keywordParameter_settlesAt (stop : ParametersEnd) (name : Symbol) :
    SettlesAt table (.label name) [] 0 (keywordParameter stop name) := by
  unfold keywordParameter
  apply SettlesAt.takeFlat
  intro label _
  apply Settles.andThen
  intro _
  apply Settles.andThen
  intro next
  infer_instance

theorem blockParameter_settlesAt [kind.Flat] : SettlesAt table kind [] 0 blockParameter := by
  unfold blockParameter
  apply SettlesAt.takeFlat
  intro mark _
  apply Settles.andThen
  intro name?
  split
  · infer_instance
  · infer_instance

instance (list : PatternList) : Steady table (patternItem list) := by
  unfold patternItem
  apply Settles.peek
  intro kind span
  dsimp only
  have nested (isParen : kind.isLeftParen) :
      SettlesAt table kind [] 0 (deeper span.start (descend .pattern)) :=
    (pattern_settlesAt isParen).deeper
  split
  · infer_instance
  · exact (nested rfl).finish inferInstance
  · exact (nested rfl).finish inferInstance
  · exact (nested rfl).finish inferInstance
  · exact (restParameter_settlesAt .positional).finish inferInstance
  · exact (restParameter_settlesAt .positional).finish inferInstance
  · infer_instance

instance patternTurn_steady (list : PatternList) : Steady table (do
    let (list, more) ← patternItem list
    if !more then return Turn.done list
    if ← accept (.punct .comma) then return .again list else return .done list) := by
  apply Settles.andThen
  intro read
  infer_instance

theorem pattern_keeps (isParen : kind.isLeftParen) : SettlesAt table kind [] 0 pattern := by
  unfold pattern patternTurn
  apply SettlesAt.takeOpening (TokenKind.bracketMark_of_isLeftParen isParen)
  intro opening _
  apply Settles.andThen
  intro list
  apply Settles.expect rfl
  intro close
  infer_instance

instance (stop : ParametersEnd) (reached : ParameterStage) :
    Steady table (parameter? stop reached) := by
  unfold parameter?
  apply Settles.peekingKind
  intro kind
  split
  · exact (namedParameter_settlesAt stop reached _).finish inferInstance
  · exact (keywordParameter_settlesAt stop _).finish inferInstance
  · exact (restParameter_settlesAt .positional).finish inferInstance
  · exact (restParameter_settlesAt .positional).finish inferInstance
  · exact (restParameter_settlesAt .keyword).finish inferInstance
  · exact (restParameter_settlesAt .keyword).finish inferInstance
  · exact blockParameter_settlesAt.finish inferInstance
  · exact blockParameter_settlesAt.finish inferInstance
  · exact (pattern_keeps rfl).finish inferInstance
  · exact (pattern_keeps rfl).finish inferInstance
  · exact (pattern_keeps rfl).finish inferInstance
  · infer_instance

instance (progress : ParameterProgress) (node : NodeId) (stage : ParameterStage) :
    Quiet (addParameter progress node stage) := by
  unfold addParameter
  infer_instance

instance (stop : ParametersEnd) (progress : ParameterProgress) :
    Steady table (afterParameter stop progress) := by
  unfold afterParameter
  infer_instance

instance (stop : ParametersEnd) : Steady table (parameters stop) := by
  unfold parameters parameterTurn
  apply Settles.andThen
  intro first
  refine Settles.finish (Steady.loop fun progress => ?_) ?_
  · extract_lets turn
    have turn_steady (skipped : Unit) : Steady table (turn skipped) := by
      apply Settles.andThen
      intro token
      split
      · infer_instance
      · apply Settles.andThen
        intro parameter
        split
        · infer_instance
        · infer_instance
    clear_value turn
    infer_instance
  · intro list
    infer_instance

theorem parenthesizedParameters_settlesAt (isParen : kind.isLeftParen) :
    SettlesAt table kind [] 0 parenthesizedParameters := by
  unfold parenthesizedParameters
  apply SettlesAt.skipOpening (TokenKind.bracketMark_of_isLeftParen isParen)
  intro _
  apply Settles.andThen
  intro list
  apply Settles.expect rfl
  intro _
  infer_instance

instance : Steady table blockLocals := by
  unfold blockLocals blockLocalTurn
  apply Steady.loop
  intro _
  apply Settles.peek
  intro kind span
  dsimp only
  split
  · infer_instance
  · infer_instance

instance : Steady table blockParameters := by
  unfold blockParameters
  apply Settles.peekingKind
  intro kind
  split
  · infer_instance
  · apply SettlesAt.skipFlat
    intro _
    infer_instance
  · infer_instance

end RubySyntax.Parse
