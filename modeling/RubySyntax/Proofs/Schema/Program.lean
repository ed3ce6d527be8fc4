/-
Whole programs agree with the schema.

Every rule of the grammar upholds the schema, by induction on the depth of the
table that serves its calls. A run that returns a tree is its own outcome.
-/

import RubySyntax.Proofs.Dump
import RubySyntax.Proofs.Nesting.Program
import RubySyntax.Proofs.Schema.Operator

namespace RubySyntax

open Relation (ReflTransGen)

variable {outcome : Arena}

namespace Parse

/-! ### The table -/

theorem rule_upholds {table : RuleTable} [table.Upholds outcome] (name : Nonterminal) :
    name.Upholds outcome (rule name table) := by
  have plain {α : Type} {known : Prop} (step : Parse α) [Judged α]
      [conforming : Conforming outcome table known step] :
      Scan.Upholds outcome known (step table) (Judged.good outcome) := conforming.upholds
  have any {α : Type} {known : Prop} (step : Parse α) [Judged α]
      [Conforming outcome table known step] :
      Scan.Upholds outcome known (step table) fun _ => True :=
    Scan.Upholds.mono (plain step) fun _ _ _ => trivial
  cases name with
  | heredocBodies => exact heredocBodies_upholds
  | statements => exact any statements
  | negation rule => exact any (negation rule)
  | argument rule => exact plain (argumentOperand rule)
  | binary rule level => exact plain (binary rule level)
  | minus rule => exact plain (minus rule)
  | unary rule => exact plain (unary rule)
  | chain => exact plain chain
  | command head allowBlock =>
      have given : Entails (Judged.good outcome head) (Judged.good outcome head) := ⟨id⟩
      exact any (command head allowBlock)
  | ifTail => exact any ifTail
  | target => exact any target
  | pattern => exact pattern_tagged

instance table_upholds (depth : Nat) : (Parse.table depth).Upholds outcome := by
  induction depth with
  | zero =>
      constructor
      intro name
      cases name with
      | heredocBodies => exact fun _ _ _ _ _ => Scan.returns_throw .starved
      | _ => exact Scan.upholds_throw .starved
  | succ depth ih =>
      constructor
      intro name
      exact rule_upholds name

/-! ### Programs -/

variable {known : Prop} {table : RuleTable} [table.Upholds outcome]

instance : Conforming outcome table known programItems := by
  unfold programItems programTurn
  infer_instance

theorem program_upholds :
    Upholds outcome table known program (outcome.Tagged ["scope"]) := by
  unfold program
  apply Upholds.andThen
  intro items
  apply Upholds.andThen
  intro span
  apply Upholds.andThen
  intro inner
  apply Upholds.andThen
  intro state
  exact alloc_tagged rfl rfl List.mem_cons_self _

end Parse

/-! ### Runs -/

variable (source : Bytes) (options : ParseOptions) (symbols : SymbolTable)

theorem State.start_orderly : (State.start source options symbols).Orderly where
  reads := (State.start_sound source options symbols True).reads
  free := (State.start_sound source options symbols True).store.free
  waiting := nofun
  distinct := List.nodup_nil
  ahead := nofun

theorem State.start_conforms : (State.start source options symbols).Conforms outcome := by
  intro id node found
  change (Arena.withLimit options.maxNodes).get? id = some node at found
  rw [Arena.get?_withLimit] at found
  cases found

theorem Arena.follows_self (loose : NodeId → Prop) (state : State) :
    state.arena.Follows loose state := by
  intro id shape settled _
  obtain ⟨node, found, rfl⟩ := settled.found
  exact ⟨node, found, .refl node.shape⟩

variable {source options symbols} {root id : NodeId}

theorem runProgram_conforms {after : State}
    (run : runProgram source options symbols = .ok root after) :
    after.Conforms after.arena ∧ after.arena.Tagged ["scope"] root := by
  have start := State.start_orderly source options symbols
  have nothing : (State.start source options symbols).Holds fun _ => False := nofun
  have program : Parse.Upholds after.arena
      (Parse.table (ruleDepth (State.start source options symbols).input)) True Parse.program
      (after.arena.Tagged ["scope"]) := Parse.program_upholds
  have leads := (program _ _ start nothing).post run
  exact leads.conforms trivial (Arena.follows_self _ after)
    (State.start_conforms source options symbols)

/-- Trees agree with the schema, with errors or without. The root of a program is
a scope, and all nodes below it have only such children as their places are for;
no list of statements is too short, and no texts in a literal are left apart. -/
theorem parse_conforms_to_schema (given : (parse source options symbols).tree = some root) :
    (parse source options symbols).arena.Tagged ["scope"] root ∧
    ∀ id, ReflTransGen (parse source options symbols).arena.Child root id →
      ∃ node, (parse source options symbols).arena.get? id = some node ∧
        node.shape.Conforms (parse source options symbols).arena := by
  obtain ⟨after, run, -⟩ := runProgram_read source options symbols given
  obtain ⟨conforms, scope⟩ := runProgram_conforms run
  have reached (id : NodeId) (path : ReflTransGen (parse source options symbols).arena.Child root id) :
      (parse source options symbols).arena.Live id := parse_reaches_live given path
  rw [parse_of_run run] at reached ⊢
  refine ⟨scope, ?_⟩
  intro id path
  obtain ⟨node, found⟩ := reached id path
  exact ⟨node, found, conforms id node found⟩

/-- What is assigned to several targets is one node of targets. -/
theorem parse_conforms_to_schema_assignment :
    (parse (ascii "a, b = f") {} {}).tree = some ⟨5⟩ ∧
      (parse (ascii "a, b = f") {} {}).arena.Tagged ["scope"] ⟨5⟩ ∧
      ReflTransGen (parse (ascii "a, b = f") {} {}).arena.Child ⟨5⟩ ⟨4⟩ ∧
      ∃ node, (parse (ascii "a, b = f") {} {}).arena.get? ⟨4⟩ = some node ∧
        node.shape.tag = "masgn" ∧
        node.shape.Conforms (parse (ascii "a, b = f") {} {}).arena := by
  have given : (parse (ascii "a, b = f") {} {}).tree = some ⟨5⟩ := by decide +kernel
  have child : (parse (ascii "a, b = f") {} {}).arena.Child ⟨5⟩ ⟨4⟩ :=
    Arena.child_of_stored (by decide +kernel)
  obtain ⟨scope, conforms⟩ := parse_conforms_to_schema given
  obtain ⟨node, found, agrees⟩ := conforms ⟨4⟩ (.single child)
  have kind : ((parse (ascii "a, b = f") {} {}).arena.get? ⟨4⟩).map (·.shape.tag) =
      some "masgn" := by
    decide +kernel
  rw [found] at kind
  exact ⟨given, scope, .single child, node, found, Option.some.inj kind, agrees⟩

end RubySyntax
