/-
Definitions of methods, classes and modules, blocks and lambdas.

The body of a definition is a scope, its parameters are one node, and what
takes a block takes a node that this module makes.
-/

import RubySyntax.Proofs.Schema.Control
import RubySyntax.Proofs.Schema.Literal
import RubySyntax.Proofs.Schema.Parameter

namespace RubySyntax

namespace Parse

variable {α : Type} {outcome : Arena} {known : Prop} {table : RuleTable} [served : table.Upholds outcome]

/-! ### Names -/

omit served in
theorem Upholds.isolated {step : Parse α} {post : α → Prop}
    (upholds : Upholds outcome table known step post) :
    Upholds outcome table known (isolated step) post := by
  unfold Parse.isolated
  apply Upholds.andThen
  intro state
  apply Upholds.andThen
  intro _
  apply (upholds.given fun given => given.2.2).bind
  intro result
  apply Upholds.andThen
  intro _
  exact upholds_pure fun given => given.2.1

omit served in
instance [Judged α] (step : Parse α) [Conforming outcome table known step] :
    Conforming outcome table known (isolated step) :=
  ⟨Conforming.upholds.isolated⟩

instance : Conforming outcome table known methodName := by
  unfold methodName
  apply Conforming.andThen
  intro token
  split <;> infer_instance

instance : Conforming outcome table known methodNameAfterDot := by
  unfold methodNameAfterDot
  infer_instance

omit served in
theorem conforms_of_receiver (written : Bytes) (name : Symbol) (isLocal : Bool) :
    (receiverShape written name isLocal).Conforms outcome := by
  unfold receiverShape
  split
  · exact Shape.Free.conforms outcome
  split
  · exact Shape.Free.conforms outcome
  split
  · exact Shape.Free.conforms outcome
  split
  · exact Shape.Free.conforms outcome
  split
  · exact Shape.Free.conforms outcome
  split
  · exact Shape.Free.conforms outcome
  split
  · exact Shape.Free.conforms outcome
  split
  · exact Shape.Free.conforms outcome
  split
  · exact Shape.Free.conforms outcome
  · exact Scan.conforms_of_blockless rfl

omit served in
instance (written : Bytes) (name : Symbol) (isLocal : Bool) :
    Entails known ((receiverShape written name isLocal).Conforms outcome) :=
  ⟨fun _ => conforms_of_receiver written name isLocal⟩

instance : Conforming outcome table known parenthesizedReceiver := by
  unfold parenthesizedReceiver
  infer_instance

instance : Conforming outcome table known methodHead := by
  unfold methodHead
  apply Conforming.andThen
  intro kind
  split
  · infer_instance
  · apply Conforming.andThen
    intro read
    obtain ⟨span, name⟩ := read
    apply Conforming.andThen
    intro kind
    split
    · infer_instance
    · infer_instance
    · infer_instance

/-! ### Definitions -/

theorem methodParameters_upholds :
    Upholds outcome table known methodParameters (outcome.Tagged? ["args"]) := by
  unfold methodParameters
  apply Upholds.andThen
  intro kind
  split
  · exact parenthesizedParameters_upholds
  split
  · exact upholds_none
  · exact parameters_upholds .line

def IsDefinition (outcome : Arena) (parts : Option NodeId × NodeId × Span) : Prop :=
  outcome.Tagged? ["args"] parts.1 ∧ outcome.Tagged ["scope"] parts.2.1

instance : Conforming outcome table known methodDefinition := by
  constructor
  unfold methodDefinition
  apply Upholds.andThen
  intro word
  apply Upholds.andThen
  intro _
  apply Upholds.andThen
  intro head
  obtain ⟨receiver, name⟩ := head
  have inner {known : Prop} : Upholds outcome table known (isolated do
      Scan.enterScope .method
      let list ← methodParameters
      let inner ← body
      let span := word.span.hull (← expectEnd)
      return (list, ← Scan.leaveScope inner span, span)) (IsDefinition outcome) := by
    apply Upholds.isolated
    apply Upholds.andThen
    intro _
    apply methodParameters_upholds.bind
    intro list
    apply Upholds.andThen
    intro inner
    apply Upholds.andThen
    intro close
    apply (upholds_lift (Scan.leaveScope_upholds inner _)).bind
    intro scope
    exact upholds_pure fun given => ⟨given.2.2.2.1, given.1⟩
  apply inner.bind
  intro made
  obtain ⟨list, scope, span⟩ := made
  apply Upholds.andThen
  intro _
  split
  · apply upholds_lift
    apply Scan.alloc_upholds
    exact fun given => .of_places rfl trivial rfl given.2.1.1.toList given.2.1.2.singleton
  · apply upholds_lift
    apply Scan.alloc_upholds
    exact fun given => .of_places rfl trivial rfl given.2.1.1.toList given.2.1.2.singleton

theorem classBody_upholds (word : Span) :
    Upholds outcome table known (classBody word) fun made => outcome.Tagged ["scope"] made.1 := by
  unfold classBody
  have inner {known : Prop} : Upholds outcome table known (isolated do
      Scan.enterScope .classBody
      let inner ← body
      let span := word.hull (← expectEnd)
      return (← Scan.leaveScope inner span, span))
      fun made => outcome.Tagged ["scope"] made.1 := by
    apply Upholds.isolated
    apply Upholds.andThen
    intro _
    apply Upholds.andThen
    intro inner
    apply Upholds.andThen
    intro close
    apply (upholds_lift (Scan.leaveScope_upholds inner _)).bind
    intro scope
    exact upholds_pure And.left
  apply Upholds.andThen
  intro _
  apply inner.bind
  intro made
  apply Upholds.andThen
  intro _
  exact upholds_pure fun given => given.2.1

instance : Conforming outcome table known constantPath := by
  unfold constantPath
  apply Conforming.andThen
  intro operand
  apply Conforming.andThen
  intro node
  split <;> infer_instance

theorem classFrom_upholds (word : Span) (shape : NodeId → Shape NodeId)
    (conforms : ∀ scope, outcome.Tagged ["scope"] scope → (shape scope).Conforms outcome) :
    Upholds outcome table known (do
      let (scope, span) ← classBody word
      Scan.alloc (shape scope) span) fun _ => True := by
  apply (classBody_upholds word).bind
  intro made
  apply upholds_lift
  apply Scan.alloc_upholds
  exact fun given => conforms made.1 given.1

theorem opening_upholds (form : OpeningForm) (path : NodeId) (word : Span) :
    Upholds outcome table known (do
      let (scope, span) ← classBody word
      Scan.alloc (.opening form path scope) span) fun _ => True :=
  classFrom_upholds word (.opening form path) fun _ scope =>
    .of_place rfl trivial rfl scope.singleton

instance : Conforming outcome table known classDefinition := by
  constructor
  unfold classDefinition
  apply Upholds.andThen
  intro word
  apply Upholds.andThen
  intro _
  apply Upholds.andThen
  intro isSingleton
  split
  · apply Upholds.andThen
    intro target
    exact opening_upholds .singletonClass target _
  · apply Upholds.andThen
    intro state
    extract_lets named
    have named_upholds (reported : Unit) {known : Prop} :
        Upholds outcome table known (named reported) fun _ => True := by
      apply Upholds.andThen
      intro path
      apply Upholds.andThen
      intro inherits
      split
      · apply Upholds.andThen
        intro value
        apply Upholds.andThen
        intro superclass
        exact classFrom_upholds _ (.classDefinition path superclass) fun _ scope =>
          .of_place rfl trivial rfl scope.singleton
      · apply Upholds.andThen
        intro superclass
        exact classFrom_upholds _ (.classDefinition path superclass) fun _ scope =>
          .of_place rfl trivial rfl scope.singleton
    clear_value named
    split
    · apply Upholds.andThen
      intro reported
      exact named_upholds reported
    · exact named_upholds _

instance : Conforming outcome table known moduleDefinition := by
  constructor
  unfold moduleDefinition
  apply Upholds.andThen
  intro word
  apply Upholds.andThen
  intro _
  apply Upholds.andThen
  intro state
  extract_lets named
  have named_upholds (reported : Unit) {known : Prop} :
      Upholds outcome table known (named reported) fun _ => True := by
    apply Upholds.andThen
    intro path
    exact opening_upholds .module path _
  clear_value named
  split
  · apply Upholds.andThen
    intro reported
    exact named_upholds reported
  · exact named_upholds _

/-! ### Blocks and lambdas -/

/-- The parts of a block: its statements and its end depend on how it is
opened. -/
theorem blockParts_upholds (opening : Token) {statements : Parse (Option NodeId)}
    {closing : Parse Span} [∀ known, Conforming outcome table known statements]
    [∀ known, Conforming outcome table known closing] :
    Upholds outcome table known (do
      Scan.enterScope .block
      let list ← blockParameters
      let inner ← statements
      let close ← closing
      let span := opening.span.hull close
      return (list, ← Scan.leaveScope inner span, span)) (IsDefinition outcome) := by
  apply Upholds.andThen
  intro _
  apply blockParameters_upholds.bind
  intro list
  apply Upholds.andThen
  intro inner
  apply Upholds.andThen
  intro close
  apply (upholds_lift (Scan.leaveScope_upholds inner _)).bind
  intro scope
  exact upholds_pure fun given => ⟨given.2.2.2.1, given.1⟩

theorem blockBody_upholds (opening : Token) :
    Upholds outcome table known (blockBody opening) (outcome.Tagged ["iter", "block-pass"]) := by
  unfold blockBody
  extract_lets inBraces
  have parts {known : Prop} : Upholds outcome table known
      ((if inBraces then id else isolated) do
        Scan.enterScope .block
        let list ← blockParameters
        let inner ← if inBraces then descend .statements else body
        let close ← if inBraces then expect (.punct .rightBrace) else expectEnd
        let span := opening.span.hull close
        return (list, ← Scan.leaveScope inner span, span)) (IsDefinition outcome) := by
    split
    · exact blockParts_upholds opening
    · exact (blockParts_upholds opening).isolated
  apply Upholds.andThen
  intro _
  apply parts.bind
  intro made
  obtain ⟨list, scope, span⟩ := made
  apply Upholds.andThen
  intro _
  apply upholds_lift
  apply Scan.alloc_tagged rfl rfl List.mem_cons_self
  exact fun given => .of_places rfl trivial rfl given.2.1.1.toList given.2.1.2.singleton

theorem block_upholds :
    Upholds outcome table known block (outcome.Tagged ["iter", "block-pass"]) := by
  unfold block
  apply Upholds.andThen
  intro opening
  exact (blockBody_upholds opening).deeper _

instance : Conforming outcome table known lambdaBody := by
  unfold lambdaBody
  infer_instance

theorem lambdaFrom_upholds (arrow : Token) (list : Option NodeId)
    (tagged : known → outcome.Tagged? ["args"] list) :
    Upholds outcome table known (do
      let (inner, close) ← lambdaBody
      let span := arrow.span.hull close
      let scope ← Scan.leaveScope inner span
      Scan.leaveConstruct
      Scan.alloc (.closure .lambda list scope) span) fun _ => True := by
  apply Upholds.andThen
  intro read
  obtain ⟨inner, close⟩ := read
  apply (upholds_lift (Scan.leaveScope_upholds inner _)).bind
  intro scope
  apply Upholds.andThen
  intro _
  apply upholds_lift
  apply Scan.alloc_upholds
  exact fun given => .of_places rfl trivial rfl (tagged given.2.2.2).toList given.2.1.singleton

instance : Conforming outcome table known lambda := by
  constructor
  unfold lambda
  apply Upholds.andThen
  intro arrow
  apply Upholds.andThen
  intro _
  apply Upholds.andThen
  intro _
  apply Upholds.andThen
  intro kind
  split
  · apply parenthesizedParameters_upholds.bind
    intro list
    exact lambdaFrom_upholds arrow list And.left
  · apply (parameters_upholds .lambdaBody).bind
    intro list
    exact lambdaFrom_upholds arrow list And.left

/-! ### Names alone -/

instance : Conforming outcome table known methodItem := by
  unfold methodItem
  apply Conforming.andThen
  intro token
  split
  · infer_instance
  · apply Conforming.andThen
    intro node
    apply Conforming.andThen
    intro shape
    split <;> infer_instance
  · infer_instance
  · infer_instance
  · infer_instance
  · infer_instance

instance (newName : Symbol) : Conforming outcome table known (globalAliasShape newName) := by
  unfold globalAliasShape
  apply Conforming.andThen
  intro token
  split <;> infer_instance

instance (start : Nat) : Conforming outcome table known (globalAlias start) := by
  unfold globalAlias
  apply Conforming.andThen
  intro token
  apply Conforming.andThen
  intro written
  apply Conforming.andThen
  intro newName
  apply Conforming.andThen
  intro shape
  split <;> infer_instance

instance (start : Nat) : Conforming outcome table known (methodAlias start) := by
  unfold methodAlias
  infer_instance

instance : Conforming outcome table known aliasStatement := by
  unfold aliasStatement
  apply Conforming.andThen
  intro word
  apply Conforming.andThen
  intro kind
  split <;> infer_instance

instance : Conforming outcome table known undefStatement := by
  unfold undefStatement undefTurn
  infer_instance

instance : Conforming outcome table known bracedStatements := by
  unfold bracedStatements
  infer_instance

instance : Conforming outcome table known atStart := by
  unfold atStart
  infer_instance

instance : Conforming outcome table known atExit := by
  constructor
  unfold atExit
  apply Upholds.andThen
  intro word
  apply Upholds.andThen
  intro state
  extract_lets body
  have body_upholds (reported : Unit) {known : Prop} :
      Upholds outcome table known (body reported) fun _ => True := by
    apply Upholds.andThen
    intro _
    apply Upholds.andThen
    intro inner
    apply Upholds.andThen
    intro span
    apply (upholds_lift (Scan.leaveScope_upholds (some inner) span)).bind
    intro scope
    apply upholds_lift
    apply Scan.alloc_upholds
    exact fun given => .of_place rfl trivial rfl given.1.singleton
  clear_value body
  split
  · apply Upholds.andThen
    intro reported
    exact body_upholds reported
  · exact body_upholds _

end Parse

end RubySyntax
