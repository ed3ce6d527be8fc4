/-
Bodies with handlers, conditionals and loops.

A body that handles something has a clause, and all its clauses are ones; the
same goes for the clauses of a `case`.
-/

import RubySyntax.Grammar.Control
import RubySyntax.Proofs.Schema.Argument

namespace RubySyntax.Parse

variable {outcome : Arena} {known : Prop} {table : RuleTable} [served : table.Upholds outcome]

/-! ### Clauses -/

instance : Conforming outcome table known rescuedClasses := by
  unfold rescuedClasses
  apply Conforming.andThen
  intro kind
  split <;> infer_instance

theorem rescueClause_upholds :
    Upholds outcome table known rescueClause (outcome.Tagged ["resbody"]) := by
  unfold rescueClause
  apply Upholds.andThen
  intro word
  apply Upholds.andThen
  intro exceptions
  apply Upholds.andThen
  intro named
  extract_lets finished
  have finished_upholds (variableTarget : Option NodeId) {known : Prop} :
      Upholds outcome table known (finished variableTarget) (outcome.Tagged ["resbody"]) := by
    apply Upholds.andThen
    intro _
    apply Upholds.andThen
    intro inner
    apply Upholds.andThen
    intro span
    exact alloc_tagged rfl rfl List.mem_cons_self span
  clear_value finished
  split
  · apply Upholds.andThen
    intro target
    apply Upholds.andThen
    intro variableTarget
    exact finished_upholds variableTarget
  · apply Upholds.andThen
    intro variableTarget
    exact finished_upholds variableTarget

theorem gatherRescues_upholds :
    Upholds outcome table known (repeatUntil #[] rescueTurn) (outcome.AllTagged ["resbody"]) := by
  apply upholds_loop (outcome.AllTagged ["resbody"])
  · exact fun _ => Arena.AllTagged.empty
  · intro clauses
    apply Upholds.andThen
    intro kind
    split
    · apply rescueClause_upholds.bind
      intro clause
      exact upholds_pure fun given => given.2.2.1.push given.1
    · exact upholds_pure fun given => given.2.1

theorem rescueClauses_upholds :
    Upholds outcome table known rescueClauses fun clauses =>
      ∀ clause ∈ clauses, outcome.Tagged ["resbody"] clause := by
  apply gatherRescues_upholds.bind
  intro clauses
  exact upholds_pure fun given => given.1.toList

instance (body otherwise : Option NodeId) :
    Conforming outcome table known (uselessElse body otherwise) := by
  unfold uselessElse
  infer_instance

instance (body : Option NodeId) : Conforming outcome table known (handledBody body) := by
  constructor
  unfold handledBody
  apply rescueClauses_upholds.bind
  intro clauses
  apply Upholds.andThen
  intro word
  extract_lets handled
  have handled_upholds (otherwise : Option NodeId) {given : Prop}
      (tagged : given → ∀ clause ∈ clauses, outcome.Tagged ["resbody"] clause) :
      Upholds outcome table given (handled otherwise) (Judged.good outcome) := by
    unfold handled
    split
    · exact Conforming.upholds
    · exact Conforming.upholds
    · next without useless =>
        have handles : clauses ≠ [] := by
          intro empty
          cases word with
          | none => exact without empty rfl
          | some word => exact useless word empty rfl
        have conforms (holds : given) : (Shape.rescue body clauses otherwise).Conforms outcome :=
          .of_place rfl handles rfl (tagged holds)
        have stores {more : Prop} : Entails (more ∧ given)
            ((Shape.rescue body clauses otherwise).Conforms outcome) := ⟨fun both => conforms both.2⟩
        exact Conforming.upholds
  clear_value handled
  split
  · apply Upholds.andThen
    intro otherwise
    exact handled_upholds otherwise fun given => given.2.2.1
  · apply Upholds.andThen
    intro otherwise
    exact handled_upholds otherwise fun given => given.2.2.1

instance : Conforming outcome table known body := by
  unfold body
  apply Conforming.andThen
  intro statements
  apply Conforming.andThen
  intro handled
  apply Conforming.andThen
  intro found
  split
  · infer_instance
  · infer_instance

instance : Conforming outcome table known beginBlock := by
  unfold beginBlock
  infer_instance

/-! ### Branches and loops -/

instance : Conforming outcome table known elseBranch := by
  unfold elseBranch
  infer_instance

instance : Conforming outcome table known ifTail := by
  unfold ifTail
  infer_instance

instance : Conforming outcome table known ifBlock := by
  unfold ifBlock
  infer_instance

instance : Conforming outcome table known unlessBlock := by
  unfold unlessBlock
  apply Conforming.andThen
  intro word
  apply Conforming.andThen
  intro _
  apply Conforming.andThen
  intro condition
  apply Conforming.andThen
  intro _
  apply Conforming.andThen
  intro whenFalse
  apply Conforming.andThen
  intro found
  dsimp only
  split
  · infer_instance
  · infer_instance

instance : Conforming outcome table known loopHead := by
  unfold loopHead
  infer_instance

instance (form : LoopForm) : Conforming outcome table known (loopBlock form) := by
  unfold loopBlock
  infer_instance

theorem whenClause_upholds (word : Token) :
    Upholds outcome table known (whenClause word) (outcome.Tagged ["when"]) := by
  unfold whenClause
  apply Upholds.andThen
  intro conditions
  apply Upholds.andThen
  intro _
  apply Upholds.andThen
  intro inner
  apply Upholds.andThen
  intro span
  exact alloc_tagged rfl rfl List.mem_cons_self span

theorem gatherWhens_upholds :
    Upholds outcome table known (repeatUntil #[] whenTurn) (outcome.AllTagged ["when"]) := by
  apply upholds_loop (outcome.AllTagged ["when"])
  · exact fun _ => Arena.AllTagged.empty
  · intro clauses
    apply Upholds.andThen
    intro word
    split
    · next word =>
        apply (whenClause_upholds word).bind
        intro clause
        exact upholds_pure fun given => given.2.2.1.push given.1
    · exact upholds_pure fun given => given.2.1

theorem whenClauses_upholds :
    Upholds outcome table known whenClauses fun clauses =>
      ∀ clause ∈ clauses, outcome.Tagged ["when"] clause := by
  apply gatherWhens_upholds.bind
  intro clauses
  exact upholds_pure fun given => given.1.toList

theorem closeCase_upholds (word : Token) (subject : Option NodeId) {clauses : List NodeId}
    (tagged : known → ∀ clause ∈ clauses, outcome.Tagged ["when"] clause) :
    Upholds outcome table known (do
      let otherwise ← elseBranch
      let close ← expectEnd
      Scan.leaveConstruct
      Scan.alloc (.caseOf subject clauses otherwise) (word.span.hull close)) fun _ => True := by
  apply Upholds.andThen
  intro otherwise
  apply Upholds.andThen
  intro close
  apply Upholds.andThen
  intro _
  apply upholds_lift
  apply Scan.alloc_upholds
  intro given
  exact .of_place rfl trivial rfl (tagged given.2.2.2)

instance : Conforming outcome table known caseBlock := by
  constructor
  unfold caseBlock
  apply Upholds.andThen
  intro word
  apply Upholds.andThen
  intro _
  apply Upholds.andThen
  intro kind
  extract_lets clausesOf
  have clausesOf_upholds (subject : Option NodeId) {known : Prop} :
      Upholds outcome table known (clausesOf subject) fun _ => True := by
    apply Upholds.andThen
    intro _
    apply whenClauses_upholds.bind
    intro clauses
    extract_lets closes
    have closes_upholds (reported : Unit) {given : Prop}
        (tagged : given → ∀ clause ∈ clauses, outcome.Tagged ["when"] clause) :
        Upholds outcome table given (closes reported) fun _ => True :=
      closeCase_upholds word subject tagged
    clear_value closes
    split
    · apply Upholds.andThen
      intro token
      apply Upholds.andThen
      intro reported
      exact closes_upholds reported fun given => given.2.2.1
    · exact closes_upholds _ And.left
  clear_value clausesOf
  split
  · apply Upholds.andThen
    intro subject
    exact clausesOf_upholds subject
  · apply Upholds.andThen
    intro value
    apply Upholds.andThen
    intro subject
    exact clausesOf_upholds subject

instance : Conforming outcome table known forTarget := by
  unfold forTarget
  infer_instance

instance : Conforming outcome table known forBlock := by
  unfold forBlock
  infer_instance

end RubySyntax.Parse
