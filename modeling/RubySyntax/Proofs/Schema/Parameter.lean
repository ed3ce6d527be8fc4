/-
Formal parameters.

Each stage of a list of parameters has its kinds, and a parameter is added
under the stage that it is of. A parameter that is taken apart is a list of
targets.
-/

import RubySyntax.Grammar.Parameter
import RubySyntax.Proofs.Schema.Argument

namespace RubySyntax

variable {outcome : Arena} {known : Prop}

/-! ### Stages -/

def ParameterStage.tags : ParameterStage → List String
  | .required => ["arg", "mlhs"]
  | .optional => ["optarg"]
  | .rest => ["restarg"]
  | .post => ["arg", "mlhs"]
  | .keyword => ["kwarg"]
  | .keywordRest => ["kwrest"]
  | .block => ["blockarg"]

theorem ParameterStage.tags_plain (reached : ParameterStage) :
    reached.plain.tags = ["arg", "mlhs"] := by
  unfold plain
  split
  · rfl
  · rfl

namespace Parameters

def of {α : Type} (list : Parameters α) : ParameterStage → List α
  | .required => list.required
  | .optional => list.optional
  | .rest => list.rest.toList
  | .post => list.post
  | .keyword => list.keywords
  | .keywordRest => list.keywordRest.toList
  | .block => list.block.toList

theorem mem_of_add {α : Type} {list : Parameters α} {stage other : ParameterStage} {item new : α}
    (member : item ∈ (list.add stage new).of other) :
    item ∈ list.of other ∨ (item = new ∧ other = stage) := by
  cases stage <;> cases other <;> simp_all [add, of]

end Parameters

instance : Judged (Parameters NodeId) :=
  ⟨fun outcome list => ∀ stage : ParameterStage, ∀ item ∈ list.of stage,
    outcome.Tagged stage.tags item⟩

instance : Judged Parse.ParameterProgress := ⟨fun outcome progress => Judged.good outcome progress.list⟩

theorem Parameters.good_add {list : Parameters NodeId} {stage : ParameterStage} {item : NodeId}
    (good : Judged.good outcome list) (tagged : outcome.Tagged stage.tags item) :
    Judged.good outcome (list.add stage item) := by
  intro other node member
  cases mem_of_add member with
  | inl old => exact good other node old
  | inr new =>
      obtain ⟨rfl, rfl⟩ := new
      exact tagged

theorem Shape.conforms_of_formals {list : Parameters NodeId} (good : Judged.good outcome list) :
    (Shape.formals list).Conforms outcome where
  kinds := by
    intro place member
    have stage : ∃ stage : ParameterStage, place = (list.of stage, stage.tags) := by
      simp only [places, List.mem_cons, List.not_mem_nil, or_false] at member
      obtain same | same | same | same | same | same | same := member
      · exact ⟨.required, same⟩
      · exact ⟨.optional, same⟩
      · exact ⟨.rest, same⟩
      · exact ⟨.post, same⟩
      · exact ⟨.keyword, same⟩
      · exact ⟨.keywordRest, same⟩
      · exact ⟨.block, same⟩
    obtain ⟨stage, rfl⟩ := stage
    exact good stage
  filled := trivial
  joined := .nil

instance : Entails known (Judged.good outcome ({} : Parse.ParameterProgress)) := by
  constructor
  intro _ stage item member
  cases stage <;> cases member

/-! ### Patterns -/

instance : Judged Parse.PatternList :=
  ⟨fun outcome list => outcome.Tagged? ["splat", "restarg"] list.rest⟩

instance : Entails known (Judged.good outcome ({} : Parse.PatternList)) := ⟨fun _ => nofun⟩

namespace Parse

variable {table : RuleTable} [served : table.Upholds outcome]

omit served in
instance (name : Symbol) (span : Span) :
    Conforming outcome table known (declareParameter name span) := by
  unfold declareParameter
  infer_instance

instance : Conforming outcome table known parameterName? := by
  unfold parameterName?
  apply Conforming.andThen
  intro token
  split
  · infer_instance
  · infer_instance

theorem restParameter_upholds (form : RestForm) :
    Upholds outcome table known (restParameter form) (outcome.Tagged [form.tag]) := by
  unfold restParameter
  apply Upholds.andThen
  intro mark
  apply Upholds.andThen
  intro name
  apply Upholds.andThen
  intro span
  exact alloc_tagged rfl rfl List.mem_cons_self span

instance (stop : ParametersEnd) : Conforming outcome table known (defaultValue stop) := by
  unfold defaultValue
  infer_instance

instance (list : PatternList) [given : Entails known (Judged.good outcome list)] :
    Conforming outcome table known (patternItem list) := by
  unfold patternItem
  apply Conforming.andThen
  intro token
  extract_lets push
  have pushed (item : NodeId) {known : Prop} [given : Entails known (Judged.good outcome list)] :
      Entails known (Judged.good outcome (push item)) := by
    constructor
    intro holds
    refine ⟨?_, trivial⟩
    unfold push
    split
    · exact given.holds holds
    · exact given.holds holds
  have splat {known : Prop} [given : Entails known (Judged.good outcome list)] :
      Conforming outcome table known (do
        let splat ← restParameter .positional
        if list.rest.isSome then Scan.unexpected token none
        return ({ list with rest := some splat }, true)) := by
    constructor
    apply (restParameter_upholds .positional).bind
    intro splat
    extract_lets finished
    have finished_upholds (reported : Unit) {known : Prop}
        (tagged : known → outcome.Tagged ["restarg"] splat) :
        Upholds outcome table known (finished reported) (Judged.good outcome) := by
      apply upholds_pure
      intro given
      refine ⟨?_, trivial⟩
      intro other same
      cases same
      exact (tagged given).mono (List.subset_cons_self _ _)
    clear_value finished
    split
    · apply Upholds.andThen
      intro reported
      exact finished_upholds reported fun given => given.2.1
    · exact finished_upholds _ And.left
  clear_value push
  split
  · infer_instance
  · infer_instance
  · infer_instance
  · infer_instance
  · exact splat
  · exact splat
  · infer_instance

instance gathersPattern :
    Conforming outcome table known (repeatUntil {} patternTurn) := by
  apply Conforming.loop
  intro list
  apply Conforming.andThen
  intro read
  obtain ⟨list, more⟩ := read
  infer_instance

theorem pattern_tagged : Upholds outcome table known pattern (outcome.Tagged ["mlhs"]) := by
  unfold pattern
  apply Upholds.andThen
  intro opening
  apply Upholds.andThen
  intro list
  apply Upholds.andThen
  intro close
  apply upholds_lift
  apply Scan.alloc_tagged rfl rfl List.mem_cons_self
  exact fun given => Shape.conforms_of_targets _ _ given.2.1

/-! ### Lists of parameters -/

theorem namedParameter_upholds (stop : ParametersEnd) (reached : ParameterStage) (name : Symbol) :
    Upholds outcome table known (namedParameter stop reached name) fun read =>
      outcome.Tagged read.2.tags read.1 := by
  unfold namedParameter
  apply Upholds.andThen
  intro token
  apply Upholds.andThen
  intro _
  apply Upholds.andThen
  intro hasDefault
  split
  · apply Upholds.andThen
    intro default
    apply Upholds.andThen
    intro span
    apply (alloc_tagged rfl rfl List.mem_cons_self _).bind
    intro node
    exact upholds_pure And.left
  · apply (alloc_tagged rfl rfl List.mem_cons_self _).bind
    intro node
    apply upholds_pure
    intro given
    rw [ParameterStage.tags_plain]
    exact given.1

theorem keywordParameter_upholds (stop : ParametersEnd) (name : Symbol) :
    Upholds outcome table known (keywordParameter stop name) (outcome.Tagged ["kwarg"]) := by
  unfold keywordParameter
  apply Upholds.andThen
  intro label
  apply Upholds.andThen
  intro _
  apply Upholds.andThen
  intro kind
  extract_lets finished
  have finished_upholds (default : Option NodeId) {known : Prop} :
      Upholds outcome table known (finished default) (outcome.Tagged ["kwarg"]) := by
    apply Upholds.andThen
    intro span
    exact alloc_tagged rfl rfl List.mem_cons_self span
  clear_value finished
  split
  · apply Upholds.andThen
    intro default
    exact finished_upholds default
  · apply Upholds.andThen
    intro value
    apply Upholds.andThen
    intro default
    exact finished_upholds default

theorem blockParameter_upholds :
    Upholds outcome table known blockParameter (outcome.Tagged ["blockarg"]) := by
  unfold blockParameter
  apply Upholds.andThen
  intro mark
  apply Upholds.andThen
  intro name?
  extract_lets finished
  have finished_upholds (name : Symbol) {known : Prop} :
      Upholds outcome table known (finished name) (outcome.Tagged ["blockarg"]) := by
    apply Upholds.andThen
    intro span
    exact alloc_tagged rfl rfl List.mem_cons_self span
  clear_value finished
  split
  · apply Upholds.andThen
    intro name
    exact finished_upholds name
  · apply Upholds.andThen
    intro token
    apply Upholds.andThen
    intro _
    apply Upholds.andThen
    intro name
    exact finished_upholds name

theorem parameter?_upholds (stop : ParametersEnd) (reached : ParameterStage) :
    Upholds outcome table known (parameter? stop reached) fun read? =>
      ∀ read ∈ read?, outcome.Tagged read.2.tags read.1 := by
  have staged {known : Prop} {step : Parse NodeId} {stage : ParameterStage} {tags : List String}
      (upholds : Upholds outcome table known step (outcome.Tagged tags))
      (fewer : tags ⊆ stage.tags) :
      Upholds outcome table known (do return some (← step, stage)) fun read? =>
        ∀ read ∈ read?, outcome.Tagged read.2.tags read.1 := by
    apply upholds.bind
    intro node
    exact upholds_some fun given => given.1.mono fewer
  have taken {known : Prop} : Upholds outcome table known (do
      return some (← pattern, reached.plain)) fun read? =>
        ∀ read ∈ read?, outcome.Tagged read.2.tags read.1 := by
    apply staged pattern_tagged
    rw [ParameterStage.tags_plain]
    exact List.subset_cons_self _ _
  unfold parameter?
  apply Upholds.andThen
  intro kind
  split
  · apply (namedParameter_upholds stop reached _).bind
    intro read
    exact upholds_some And.left
  · exact staged (keywordParameter_upholds stop _) (List.Subset.refl _)
  · exact staged (restParameter_upholds .positional) (List.Subset.refl _)
  · exact staged (restParameter_upholds .positional) (List.Subset.refl _)
  · exact staged (restParameter_upholds .keyword) (List.Subset.refl _)
  · exact staged (restParameter_upholds .keyword) (List.Subset.refl _)
  · exact staged blockParameter_upholds (List.Subset.refl _)
  · exact staged blockParameter_upholds (List.Subset.refl _)
  · exact taken
  · exact taken
  · exact taken
  · exact upholds_none

omit served in
theorem addParameter_upholds {progress : ParameterProgress} {node : NodeId}
    {stage : ParameterStage} (good : known → Judged.good outcome progress)
    (tagged : known → outcome.Tagged stage.tags node) :
    Upholds outcome table known (addParameter progress node stage) (Judged.good outcome) := by
  unfold addParameter
  extract_lets finished
  have finished_upholds (reported : Unit) {given : Prop} (implies : given → known) :
      Upholds outcome table given (finished reported) (Judged.good outcome) := by
    apply upholds_pure
    intro holds
    exact Parameters.good_add (good (implies holds)) (tagged (implies holds))
  clear_value finished
  split
  · apply Upholds.andThen
    intro span
    apply Upholds.andThen
    intro reported
    exact finished_upholds reported fun given => given.2.2
  · exact finished_upholds _ id

instance (stop : ParametersEnd) (progress : ParameterProgress)
    [given : Entails known (Judged.good outcome progress)] :
    Conforming outcome table known (afterParameter stop progress) := by
  have list {known : Prop} [given : Entails known (Judged.good outcome progress)] :
      Entails known (Judged.good outcome progress.list) := ⟨given.holds⟩
  have unnamed {known : Prop} [given : Entails known (Judged.good outcome progress)] :
      Conforming outcome table known (do
        let rest ← Scan.alloc (.restParameter .positional none)
          (Span.point (← get).previousStop)
        return (Turn.done { progress.list with rest := some rest } :
          Turn ParameterProgress (Parameters NodeId))) := by
    constructor
    apply Upholds.andThen
    intro state
    apply (alloc_tagged rfl rfl List.mem_cons_self _).bind
    intro rest
    apply upholds_pure
    intro holds
    have tagged : outcome.Tagged ParameterStage.rest.tags rest := holds.1
    exact Parameters.good_add (given.holds holds.2.2) tagged
  unfold afterParameter
  apply Conforming.andThen
  intro comma
  extract_lets again
  have again_upholds (passed : Unit) {known : Prop}
      [Entails known (Judged.good outcome progress)] :
      Conforming outcome table known (again passed) := by
    unfold again
    infer_instance
  clear_value again
  split
  · infer_instance
  · split
    · apply Conforming.andThen
      intro kind
      split
      · exact unnamed
      · infer_instance
    · infer_instance

instance gathersParameters (stop : ParametersEnd) :
    Conforming outcome table known (repeatUntil {} (parameterTurn stop)) := by
  apply Conforming.loop
  intro progress
  unfold parameterTurn
  extract_lets turn
  have turn_upholds (skipped : Unit) {known : Prop}
      [given : Entails known (Judged.good outcome progress)] :
      Conforming outcome table known (turn skipped) := by
    have list {known : Prop} [given : Entails known (Judged.good outcome progress)] :
        Entails known (Judged.good outcome progress.list) := ⟨given.holds⟩
    unfold turn
    apply Conforming.andThen
    intro token
    split
    · infer_instance
    · constructor
      apply (parameter?_upholds stop progress.reached).bind
      intro read?
      split
      · exact Conforming.upholds
      · next node stage =>
          apply (addParameter_upholds (fun holds => given.holds holds.2.2)
            fun holds => holds.1 (node, stage) rfl).bind
          intro added
          exact Conforming.upholds
  clear_value turn
  infer_instance

theorem parameters_upholds (stop : ParametersEnd) :
    Upholds outcome table known (parameters stop) (outcome.Tagged? ["args"]) := by
  unfold parameters
  apply Upholds.andThen
  intro first
  apply Upholds.andThen
  intro list
  extract_lets finished
  have finished_upholds (skipped : Unit) {given : Prop} (good : given → Judged.good outcome list) :
      Upholds outcome table given (finished skipped) (outcome.Tagged? ["args"]) := by
    unfold finished
    split
    · exact upholds_none
    · apply Upholds.andThen
      intro span
      apply (upholds_lift (Scan.alloc_tagged rfl rfl List.mem_cons_self
        (fun holds => Shape.conforms_of_formals (good holds.2)) span)).bind
      intro node
      exact upholds_some And.left
  clear_value finished
  split
  · apply Upholds.andThen
    intro skipped
    exact finished_upholds skipped fun given => given.2.1
  · exact finished_upholds _ And.left

theorem parenthesizedParameters_upholds :
    Upholds outcome table known parenthesizedParameters (outcome.Tagged? ["args"]) := by
  unfold parenthesizedParameters
  apply Upholds.andThen
  intro _
  apply (parameters_upholds .parenthesis).bind
  intro list
  apply Upholds.andThen
  intro _
  exact upholds_pure fun given => given.2.1

instance : Conforming outcome table known blockLocals := by
  unfold blockLocals blockLocalTurn
  apply Conforming.loop
  intro _
  apply Conforming.andThen
  intro token
  split
  · infer_instance
  · infer_instance

theorem blockParameters_upholds :
    Upholds outcome table known blockParameters (outcome.Tagged? ["args"]) := by
  unfold blockParameters
  apply Upholds.andThen
  intro kind
  split
  · apply Upholds.andThen
    intro _
    exact upholds_none
  · apply Upholds.andThen
    intro _
    apply (parameters_upholds .bar).bind
    intro list
    apply Upholds.andThen
    intro hasLocals
    extract_lets finished
    have finished_upholds (declared : Unit) {given : Prop}
        (tagged : given → outcome.Tagged? ["args"] list) :
        Upholds outcome table given (finished declared) (outcome.Tagged? ["args"]) := by
      apply Upholds.andThen
      intro _
      exact upholds_pure fun holds => tagged holds.2
    clear_value finished
    split
    · apply Upholds.andThen
      intro declared
      exact finished_upholds declared fun given => given.2.2.1
    · exact finished_upholds _ fun given => given.2.1
  · exact upholds_none

end Parse

end RubySyntax
