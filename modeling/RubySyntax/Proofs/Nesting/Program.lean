/-
Whole programs: brackets, placeholders and the variables of the top level.

Every rule of the grammar keeps its brackets and scopes balanced, by induction
on the depth of the table that serves its calls. A program is read up to the
end of the input, so nothing is open there unless an error was reported.
-/

import RubySyntax.Proofs.Declaration
import RubySyntax.Proofs.Nesting.Operator
import RubySyntax.Proofs.Program

namespace RubySyntax

open State (Passage)
open Relation (ReflTransGen)

namespace Parse

variable {table : RuleTable} [Serves table]

/-! ### The table -/

theorem rule_keeps (name : Nonterminal) : name.Keeps (rule name table) := by
  have steady {α : Type} (step : Parse α) [Steady table step] (state : State) :
      Returns table step state fun _ after => Passage {} {} state after :=
    Steady.returns state
  cases name with
  | heredocBodies => exact heredocBodies_keeps
  | statements => exact steady statements
  | negation rule => exact steady (negation rule)
  | argument rule => exact steady (argumentOperand rule)
  | binary rule level => exact steady (binary rule level)
  | minus rule => exact steady (minus rule)
  | unary rule => exact steady (unary rule)
  | chain => exact steady chain
  | command head allowBlock => exact steady (command head allowBlock)
  | ifTail => exact steady ifTail
  | target => exact steady target
  | pattern =>
      intro state token ahead isParen
      exact (pattern_keeps isParen).returns state token ahead rfl

instance table_serves (depth : Nat) : Serves (Parse.table depth) := by
  induction depth with
  | zero =>
      constructor
      intro name
      cases name with
      | heredocBodies => exact fun _ _ => Scan.returns_throw .starved
      | pattern => exact fun _ _ _ _ => Scan.returns_throw .starved
      | _ => exact fun _ => Scan.returns_throw .starved
  | succ depth ih =>
      constructor
      intro name
      exact rule_keeps name

/-! ### Programs -/

def AtEnd (state : State) : Prop :=
  ∃ token, state.lookahead = some token ∧ token.kind = .endOfInput

theorem programItems_returns (state : State) :
    Returns table programItems state fun _ after => Passage {} {} state after ∧ AtEnd after := by
  have loop : Returns table (repeatUntil #[] programTurn) state fun _ after =>
      Passage {} {} state after ∧ AtEnd after := by
    apply repeatUntil_returns (fun _ reached => Passage {} {} state reached) (.refl {} state)
    intro items current before
    apply (Steady.returns current).bind
    intro more read passage
    apply (peekToken_returns read).bind
    intro token looked peeked
    have reading := (before.trans passage).trans peeked.1
    split
    · next ended => exact returns_pure ⟨reading, token, peeked.2, ended⟩
    · have stray : Returns table (do
          Scan.unexpected token none
          skip
          return Turn.again (items.append more.toArray)) looked fun result after =>
            Passage {} {} looked after ∧
              ∃ next, result = (.again next : Turn _ (Array NodeId)) := by
        apply (Steady.returns looked).and
        apply Returns.after
        intro _ _
        apply Returns.after
        intro _ _
        exact returns_pure ⟨_, rfl⟩
      apply stray.mono
      intro result after later
      obtain ⟨passed, next, rfl⟩ := later
      exact reading.trans passed
  apply loop.bind
  intro items reached read
  exact returns_pure read

structure ProgramRead (before : State) (root : NodeId) (after : State) : Prop where
  passage : Passage {} {} before after
  ended : AtEnd after
  root : before.Accounted → ∃ node inner, after.arena.get? root = some node ∧
    node.shape = .scope after.scopes.locals inner

theorem program_returns (state : State) :
    Returns table program state fun root after => ProgramRead state root after := by
  unfold program
  apply (programItems_returns state).bind
  intro items listed read
  apply (Quiet.returns table listed).bind
  intro span spanned first
  apply (Quiet.returns table spanned).bind
  intro inner joined second
  apply Returns.get_bind
  apply (returns_lift ((Scan.Quiet.returns joined).and (Scan.alloc_result _ _ joined))).mono
  intro root after allocated
  obtain ⟨third, node, arena, shape, stored, rfl⟩ := allocated
  have unmoved := (first.trans second).trans third
  obtain ⟨passage, token, ahead, ended⟩ := read
  refine ⟨passage.trans unmoved.passage, ⟨token, unmoved.lookahead.trans ahead, ended⟩, ?_⟩
  intro accounted
  have sound := ((passage.trans first.passage).trans second.passage).accounted accounted
  have held := (Arena.alloc_spec sound.free stored).2.2 root
  rw [if_pos rfl] at held
  exact ⟨node, inner, held, shape⟩

end Parse

/-! ### Runs -/

variable (source : Bytes) (options : ParseOptions) (symbols : SymbolTable)

theorem State.start_accounted : (State.start source options symbols).Accounted where
  free := (State.start_sound source options symbols True).store.free
  reported id node found := by
    change (Arena.withLimit options.maxNodes).get? id = some node at found
    rw [Arena.get?_withLimit] at found
    cases found

theorem State.start_open : (State.start source options symbols).Open [] :=
  ⟨[], rfl, rfl⟩

def tokensRead : List Token :=
  match runProgram source options symbols with
  | .ok _ state => state.tokens.reverse
  | .error _ state => state.tokens.reverse

theorem runProgram_read {root : NodeId} (given : (parse source options symbols).tree = some root) :
    ∃ after, runProgram source options symbols = .ok root after ∧
      Parse.ProgramRead (State.start source options symbols) root after := by
  unfold parse at given
  cases run : runProgram source options symbols with
  | ok tree after =>
      rw [run] at given
      cases given
      exact ⟨after, rfl, (Parse.program_returns _).post run⟩
  | error halt after =>
      rw [run] at given
      cases halt with
      | fatal error => cases given
      | starved => cases given
      | fault fault => cases given

variable {source options symbols} {root : NodeId}

theorem parse_of_run {after : State} (run : runProgram source options symbols = .ok root after) :
    parse source options symbols = Parsed.ofState after (some root) none := by
  unfold parse
  rw [run]

/-- Where a program has been read without an error, no bracket is open. -/
theorem openBrackets_of_read {after : State}
    (read : Parse.ProgramRead (State.start source options symbols) root after)
    (flawless : after.report.errors = 0) : openBrackets? after.tokens = some [] := by
  obtain ⟨passage, ⟨token, ahead, ended⟩, -⟩ := read
  obtain ⟨taken, tokens, known⟩ :=
    passage.brackets flawless [] (State.start_open source options symbols)
  have last : token.kind.bracketMark? = none := by
    rw [ended]
    rfl
  rw [tokens, ahead]
  change openBrackets? (token :: taken) = some []
  unfold openBrackets?
  rw [known, last]
  rfl

/-- Programs that are accepted are balanced. The brackets among the tokens that
the lexer returns, in order, are well nested, and each is closed by one of its own
kind. -/
theorem parse_brackets_nested (accepted : (parse source options symbols).isOk = true) :
    WellNested (bracketWord (tokensRead source options symbols)) := by
  obtain ⟨built, flawless⟩ := Bool.and_eq_true_iff.mp accepted
  obtain ⟨root, given⟩ := Option.isSome_iff_exists.mp built
  obtain ⟨after, run, read⟩ := runProgram_read source options symbols given
  rw [parse_of_run run] at flawless
  unfold tokensRead
  rw [run]
  exact wellNested_of_openBrackets (openBrackets_of_read read (beq_iff_eq.mp flawless))

/-- A call with a block and an interpolation is such a program. -/
theorem parse_brackets_nested_call :
    (parse (ascii "f([1]) \x7b \"#\x7bx\x7d\" \x7d") {} {}).isOk = true ∧
      bracketWord (tokensRead (ascii "f([1]) \x7b \"#\x7bx\x7d\" \x7d") {} {}) =
        [.opening .round, .opening .square, .closing .square, .closing .round,
          .opening .brace, .opening .interpolation, .closing .interpolation,
          .closing .brace] ∧
      WellNested (bracketWord (tokensRead (ascii "f([1]) \x7b \"#\x7bx\x7d\" \x7d") {} {})) := by
  have accepted : (parse (ascii "f([1]) \x7b \"#\x7bx\x7d\" \x7d") {} {}).isOk = true := by
    decide +kernel
  exact ⟨accepted, by decide +kernel, parse_brackets_nested accepted⟩

theorem parse_placeholder_reported (given : (parse source options symbols).tree = some root)
    {id : NodeId} {node : Node}
    (found : (parse source options symbols).arena.get? id = some node)
    (placeholder : node.shape = .leaf .error) :
    0 < (parse source options symbols).report.errors := by
  obtain ⟨after, run, read⟩ := runProgram_read source options symbols given
  rw [parse_of_run run] at found ⊢
  have accounted := read.passage.accounted (State.start_accounted source options symbols)
  exact accounted.reported id node found placeholder

/-- Placeholders in a tree are accounted for: where one is reached from the
root, an error has been counted, so an accepted program has none. -/
theorem parse_accounts_for_placeholders :
    (∀ root id node, (parse source options symbols).tree = some root →
      ReflTransGen (parse source options symbols).arena.Child root id →
      (parse source options symbols).arena.get? id = some node → node.shape = .leaf .error →
      1 ≤ (parse source options symbols).report.errors) ∧
    ((parse source options symbols).isOk = true →
      ∀ root id node, (parse source options symbols).tree = some root →
      ReflTransGen (parse source options symbols).arena.Child root id →
      (parse source options symbols).arena.get? id = some node →
      node.shape ≠ .leaf .error) := by
  constructor
  · intro root id node given _ found placeholder
    exact parse_placeholder_reported given found placeholder
  · intro accepted root id node given _ found placeholder
    have counted := parse_placeholder_reported given found placeholder
    obtain ⟨-, flawless⟩ := Bool.and_eq_true_iff.mp accepted
    rw [beq_iff_eq.mp flawless] at counted
    cases counted

theorem Arena.child_of_stored {arena : Arena} {parent child : NodeId}
    (stored : (arena.get? parent).any (fun node => child ∈ node.shape.children) = true) :
    arena.Child parent child := by
  obtain ⟨node, found, member⟩ := (Option.any_eq_true _ _).mp stored
  exact ⟨node, found, of_decide_eq_true member⟩

/-- The operand that is missing in one sum has a placeholder and an error; in
the other one it is there. -/
theorem parse_accounts_for_placeholders_sum :
    (∃ node, (parse (ascii "1 +") {} {}).tree = some ⟨3⟩ ∧
      ReflTransGen (parse (ascii "1 +") {} {}).arena.Child ⟨3⟩ ⟨1⟩ ∧
      (parse (ascii "1 +") {} {}).arena.get? ⟨1⟩ = some node ∧ node.shape = .leaf .error ∧
      1 ≤ (parse (ascii "1 +") {} {}).report.errors) ∧
    ∃ node, (parse (ascii "1 + 2") {} {}).isOk = true ∧
      (parse (ascii "1 + 2") {} {}).tree = some ⟨3⟩ ∧
      ReflTransGen (parse (ascii "1 + 2") {} {}).arena.Child ⟨3⟩ ⟨1⟩ ∧
      (parse (ascii "1 + 2") {} {}).arena.get? ⟨1⟩ = some node ∧ node.shape ≠ .leaf .error := by
  constructor
  · have given : (parse (ascii "1 +") {} {}).tree = some ⟨3⟩ := by decide +kernel
    have call : (parse (ascii "1 +") {} {}).arena.Child ⟨3⟩ ⟨2⟩ :=
      Arena.child_of_stored (by decide +kernel)
    have operand : (parse (ascii "1 +") {} {}).arena.Child ⟨2⟩ ⟨1⟩ :=
      Arena.child_of_stored (by decide +kernel)
    have path := (ReflTransGen.single call).tail operand
    have found : (parse (ascii "1 +") {} {}).arena.get? ⟨1⟩ =
        some ⟨.leaf .error, ⟨3, 3⟩, 1, 0⟩ := by
      decide +kernel
    exact ⟨_, given, path, found, rfl,
      parse_accounts_for_placeholders.1 ⟨3⟩ ⟨1⟩ _ given path found rfl⟩
  · have accepted : (parse (ascii "1 + 2") {} {}).isOk = true := by decide +kernel
    have given : (parse (ascii "1 + 2") {} {}).tree = some ⟨3⟩ := by decide +kernel
    have call : (parse (ascii "1 + 2") {} {}).arena.Child ⟨3⟩ ⟨2⟩ :=
      Arena.child_of_stored (by decide +kernel)
    have operand : (parse (ascii "1 + 2") {} {}).arena.Child ⟨2⟩ ⟨1⟩ :=
      Arena.child_of_stored (by decide +kernel)
    have path := (ReflTransGen.single call).tail operand
    have found : (parse (ascii "1 + 2") {} {}).arena.get? ⟨1⟩ =
        some ⟨.integer 2, ⟨4, 5⟩, 1, 0⟩ := by
      decide +kernel
    exact ⟨_, accepted, given, path, found,
      parse_accounts_for_placeholders.2 accepted ⟨3⟩ ⟨1⟩ _ given path found⟩

/-! ### Variables of the top level -/

/-- A tree comes with the variables of the top level: those that were given,
each once and where it came first, and then those that the program declares.
They are the names of the scope at the root. -/
theorem parse_tree_locals (given : (parse source options symbols).tree = some root) :
    (∃ more, (parse source options symbols).locals =
      options.locals.eraseDups ++ more) ∧
    ∃ node inner, (parse source options symbols).arena.get? root = some node ∧
      node.shape = .scope (parse source options symbols).locals inner := by
  obtain ⟨after, run, read⟩ := runProgram_read source options symbols given
  rw [parse_of_run run]
  refine ⟨?_, read.root (State.start_accounted source options symbols)⟩
  have outermost : (State.start source options symbols).scopes.Holds 0
      { kind := .program, locals := options.locals.eraseDups } [] := by
    refine ⟨[], rfl, ?_⟩
    change (options.locals.foldl ScopeStack.declare {}).frames = _
    rw [ScopeStack.frames_foldl_declare _ _ rfl]
    rfl
  obtain ⟨more, newer, empty, frames⟩ := read.passage.scopes _ [] outermost
  obtain rfl := List.length_eq_zero_iff.mp empty
  have innermost := (List.cons.inj frames).1
  refine ⟨more, ?_⟩
  change after.scopes.current.locals = _
  rw [innermost]
  rfl

/-- After a fatal error the names are those of the scope where it happened. -/
example :
    let (name, symbols) := ({} : SymbolTable).intern (ascii "x")
    let parsed := parse (ascii "def f\n\"") { locals := [name] } symbols
    parsed.tree = none ∧ parsed.locals = [] := by
  decide +kernel

end RubySyntax
