/-
Expressions, arguments and targets.

The block argument of a list of arguments becomes the block of the call. The
rest of a list of targets is a splat.
-/

import RubySyntax.Grammar.Argument
import RubySyntax.Proofs.Schema.Token

namespace RubySyntax.Parse

variable {outcome : Arena} {known : Prop} {table : RuleTable} [served : table.Upholds outcome]

/-! ### Expressions -/

instance (rule : CommandRule) : Conforming outcome table known (argument rule) := by
  unfold argument
  infer_instance

instance : Conforming outcome table known argumentValue := by
  unfold argumentValue
  infer_instance

instance (rule : CommandRule) : Conforming outcome table known (expression rule) := by
  unfold expression expressionTurn
  apply Conforming.andThen
  intro first
  apply Conforming.loop
  intro left
  apply Conforming.andThen
  intro kind
  dsimp only
  split
  · infer_instance
  · next form found =>
      have free (left right : NodeId) : Shape.Free (.binary form left right) := by
        split at found
        · cases found
          infer_instance
        · cases found
          infer_instance
        · cases found
      infer_instance

instance : Conforming outcome table known expressionValue := by
  unfold expressionValue
  infer_instance

instance : Conforming outcome table known conditionValue := by
  unfold conditionValue
  infer_instance

instance (operand : Operand) (rule : CommandRule) (allowBlock : Bool)
    [Entails known (Judged.good outcome operand)] :
    Conforming outcome table known (finishCommand operand rule allowBlock) := by
  unfold finishCommand
  infer_instance

instance : Conforming outcome table known splatItem := by
  unfold splatItem
  infer_instance

instance : Conforming outcome table known listItem := by
  unfold listItem
  infer_instance

/-! ### Arguments -/

instance (name : Symbol) (span : Span) : Conforming outcome table known (labelKey name span) := by
  unfold labelKey
  infer_instance

end RubySyntax.Parse

namespace RubySyntax

variable {outcome : Arena} {known : Prop}

instance : Judged Parse.ArgumentList :=
  ⟨fun outcome list => outcome.Tagged? ["iter", "block-pass"] list.block⟩

section

variable {list : Parse.ArgumentList} [given : Entails known (Judged.good outcome list)]

instance (item : NodeId) (span : Span) : Entails known (Judged.good outcome (list.push item span)) :=
  ⟨given.holds⟩

instance (entry : HashEntry NodeId) (span : Span) :
    Entails known (Judged.good outcome (list.pushPair entry span)) :=
  ⟨given.holds⟩

instance (items : List NodeId) (span : Span) :
    Entails known (Judged.good outcome ({ items, block := list.block, span } : Arguments)) :=
  ⟨given.holds⟩

end

instance : Entails known (Judged.good outcome ({} : Parse.ArgumentList)) :=
  ⟨fun _ => nofun⟩

namespace Parse

variable {table : RuleTable} [served : table.Upholds outcome] {list : ArgumentList}
  [given : Entails known (Judged.good outcome list)]

instance (item : NodeId) : Conforming outcome table known (pushPositional list item) := by
  unfold pushPositional
  infer_instance

instance (key : NodeId) (keySpan : Span) :
    Conforming outcome table known (pushPairFrom list key keySpan) := by
  unfold pushPairFrom
  infer_instance

set_option synthInstance.maxSize 512 in
instance : Conforming outcome table known (plainArgument list) := by
  unfold plainArgument
  apply Conforming.andThen
  intro operand
  apply Conforming.andThen
  intro label
  split
  · infer_instance
  · infer_instance

omit served given in
theorem blockArgument_upholds (value : NodeId) (span : Span) :
    Upholds outcome table known (do
      let block ← Scan.alloc (.unary .blockPass value) span
      return { list with span := list.span.hull span, block := some block })
      (Judged.good outcome) := by
  apply (alloc_tagged rfl rfl (List.mem_cons_of_mem _ List.mem_cons_self) span).bind
  intro block
  apply upholds_pure
  intro known other same
  cases same
  exact known.1

instance : Conforming outcome table known (argumentItem list) := by
  unfold argumentItem
  apply Conforming.andThen
  intro token
  extract_lets rest
  have rest_upholds (refused : Unit) {known : Prop} [Entails known (Judged.good outcome list)] :
      Conforming outcome table known (rest refused) := by
    unfold rest
    split
    · infer_instance
    · infer_instance
    · constructor
      apply Upholds.andThen
      intro _
      apply Upholds.andThen
      intro value
      apply Upholds.andThen
      intro span
      exact blockArgument_upholds value _
    · infer_instance
    · infer_instance
  clear_value rest
  infer_instance

instance : Conforming outcome table known (finishArguments list) := by
  unfold finishArguments
  infer_instance

omit given in
instance (closer : Option Punct) : Conforming outcome table known (atCloser closer) := by
  unfold atCloser
  split
  · infer_instance
  · infer_instance

omit given in
set_option synthInstance.maxSize 512 in
instance (closer : Option Punct) : Conforming outcome table known (arguments closer) := by
  unfold arguments argumentTurn
  infer_instance

omit given in
instance : Conforming outcome table known parenthesized := by
  unfold parenthesized
  infer_instance

end Parse

/-! ### Targets -/

instance : Judged TargetList :=
  ⟨fun outcome list => outcome.Tagged? ["splat", "restarg"] list.rest⟩

theorem TargetList.good_push {list : TargetList} (good : Judged.good outcome list)
    (target : NodeId) : Judged.good outcome (list.push target) := by
  unfold push
  split
  · exact good
  · exact good

instance (list : TargetList) (target : NodeId) [given : Entails known (Judged.good outcome list)] :
    Entails known (Judged.good outcome (list.push target)) :=
  ⟨fun holds => TargetList.good_push (given.holds holds) target⟩

instance (before : List NodeId) : Entails known (Judged.good outcome ({ before } : TargetList)) :=
  ⟨fun _ => nofun⟩

theorem Shape.conforms_of_targets {rest : Option NodeId} (before after : List NodeId)
    (good : outcome.Tagged? ["splat", "restarg"] rest) :
    (Shape.targets before rest after).Conforms outcome :=
  .of_place rfl trivial rfl good.toList

namespace Parse

variable {table : RuleTable} [served : table.Upholds outcome]

omit served in
theorem splatTarget_upholds {list : TargetList} (star : Token) (target : Option NodeId)
    (span : Span) (good : known → Judged.good outcome list) :
    Upholds outcome table known (do
      let splat ← Scan.alloc (.optional .splat target) span
      if list.rest.isSome then
        Scan.unexpected star none
        return list
      else return { list with rest := some splat }) (Judged.good outcome) := by
  apply (alloc_tagged rfl rfl List.mem_cons_self span).bind
  intro splat
  split
  · apply Upholds.andThen
    intro _
    exact upholds_pure fun given => good given.2.2
  · apply upholds_pure
    intro given other same
    cases same
    exact given.1

instance (list : TargetList) [given : Entails known (Judged.good outcome list)] :
    Conforming outcome table known (targetSplat list) := by
  constructor
  unfold targetSplat
  apply Upholds.andThen
  intro star
  apply Upholds.andThen
  intro kind
  extract_lets finished
  have finished_upholds (target : Option NodeId) {known : Prop}
      [given : Entails known (Judged.good outcome list)] :
      Conforming outcome table known (finished target) := by
    constructor
    unfold finished
    apply Upholds.andThen
    intro span
    exact splatTarget_upholds star target _ fun holds => given.holds holds.2
  clear_value finished
  exact Conforming.upholds

instance (list : TargetList) [given : Entails known (Judged.good outcome list)] :
    Conforming outcome table known (targetItem? list) := by
  unfold targetItem?
  infer_instance

instance gathersTargets (first : TargetList) (starting : Bool)
    [given : Entails known (Judged.good outcome first)] :
    Conforming outcome table known (repeatUntil (first, starting) targetTurn) := by
  apply Conforming.loop
  intro progress
  unfold targetTurn
  split
  next list starting =>
    extract_lets after
    have after_upholds (continues : Bool) {known : Prop}
        [Entails known (Judged.good outcome list)] : Conforming outcome table known (after continues) := by
      unfold after
      split
      · infer_instance
      · apply Conforming.andThen
        intro item
        split
        · infer_instance
        · infer_instance
    clear_value after
    infer_instance

theorem targetsRest_upholds (read : List NodeId) (start : Span) :
    Upholds outcome table known (targetsRest read start) (outcome.Tagged ["mlhs"]) := by
  unfold targetsRest
  apply Upholds.andThen
  intro list
  apply Upholds.andThen
  intro span
  apply upholds_lift
  apply Scan.alloc_tagged rfl rfl List.mem_cons_self
  exact fun given => Shape.conforms_of_targets _ _ given.2.1

theorem nestedTargets_upholds (opening : Span) :
    Upholds outcome table known (nestedTargets opening) (outcome.Tagged ["mlhs"]) := by
  unfold nestedTargets
  apply Upholds.andThen
  intro kind
  split
  · exact targetsRest_upholds [] opening
  · apply Upholds.andThen
    intro first
    exact targetsRest_upholds [first] opening

instance (read : List NodeId) (start : Span) :
    Conforming outcome table known (targetsRest read start) :=
  ⟨(targetsRest_upholds read start).mono fun _ _ _ => trivial⟩

instance (opening : Span) : Conforming outcome table known (nestedTargets opening) :=
  ⟨(nestedTargets_upholds opening).mono fun _ _ _ => trivial⟩

instance : Conforming outcome table known target := by
  unfold target
  infer_instance

end Parse

end RubySyntax
