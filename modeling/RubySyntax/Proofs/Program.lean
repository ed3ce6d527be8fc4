/-
Whole programs.

A parse ends with a tree or with a fatal error, for every source and every
answer to requests for more: no bound on turns or on depth is ever used up,
and nothing that the parser takes for granted fails.

One induction on the depth of the table covers all rules, as each of them was
shown to do its part when those below it do. The run that is not watched may
use a deeper table: within the limit it takes the same steps.
-/

import RubySyntax.Proofs.Grammar.Operator
import RubySyntax.Program

namespace RubySyntax

namespace Parse

variable {guarded : Bool} {depth extra : Nat} {state : State}

/-! ### The table -/

def watchedRule (guarded : Bool) : (name : Nonterminal) → Parse name.Result
  | .heredocBodies => watchedBodies guarded
  | name => rule name

def watchedTable (guarded : Bool) : Nat → RuleTable
  | 0, _ => throw .starved
  | depth + 1, name => watchedRule guarded name (watchedTable guarded depth)

/-- A guarded table of a depth, and the table of a program that is at least as
deep. -/
def watching (guarded : Bool) (depth extra : Nat) : Tables where
  watched := watchedTable guarded depth
  plain := table (extra + depth)
  stoppable := guarded = true

theorem descend_ends {name : Nonterminal} {post : name.Result → State → Prop}
    (unguarded : watchedRule guarded name = rule name)
    (ends : Ends (watching guarded depth extra) (rule name) state post) :
    Ends (watching guarded (depth + 1) extra) (descend name) state post := by
  change Outcome (guarded = true) (watchedRule guarded name (watchedTable guarded depth) state)
    (rule name (table (extra + depth)) state) post
  rw [unguarded]
  exact ends

theorem watching_meets (guarded : Bool) (extra : Nat) :
    ∀ depth, Meets (watching guarded depth extra) depth
  | 0 => by constructor <;> intros <;> omega
  | depth + 1 => by
      have calls := watching_meets guarded extra depth
      constructor
      case heredocBodies =>
        intro state sound due noVariable enough
        exact heredocBodies_ends calls sound due noVariable (by omega) Iff.rfl
      case statements =>
        exact fun state sound enough => descend_ends rfl (statements_ends calls sound (by omega))
      case negation =>
        exact fun rule state sound enough =>
          descend_ends rfl (negation_ends calls sound (by omega) rule)
      case argument =>
        exact fun rule state sound enough =>
          descend_ends rfl (argumentOperand_ends calls sound (by omega) rule)
      case binary =>
        exact fun rule level state sound enough =>
          descend_ends rfl (binary_ends calls sound (by omega) rule level)
      case minus =>
        exact fun rule state sound enough =>
          descend_ends rfl (minus_ends calls sound (by omega) rule)
      case unary =>
        exact fun rule state sound enough =>
          descend_ends rfl (unary_ends calls sound (by omega) rule)
      case chain =>
        exact fun state sound enough => descend_ends rfl (chain_ends calls sound (by omega))
      case command =>
        exact fun head allowBlock base handles state held mine enough =>
          descend_ends rfl (command_ends calls held mine (by omega) allowBlock)
      case ifTail =>
        exact fun state sound enough => descend_ends rfl (ifTail_ends calls sound (by omega))
      case target =>
        exact fun state sound enough => descend_ends rfl (target_ends calls sound (by omega))
      case pattern =>
        exact fun state sound ahead enough => descend_ends rfl
          ((pattern_ends calls sound ahead (by omega)).mono fun _ _ _ _ => trivial)

/-! ### Programs -/

variable {tables : Tables} {limit : Nat}

theorem programTurn_ends (calls : Meets tables limit) {base : State} {items : Array NodeId}
    (held : Held tables.stoppable base (handlesOf items) state)
    (enough : 8 * state.measure + 7 < limit) :
    Ends tables (programTurn items) state (TurnHeld tables.stoppable base state) := by
  refine (statements_ends calls held.sound (by omega)).bind held ?_
  rintro more read held made -
  have later := made.keeps.onward
  have grown : Held tables.stoppable base (handlesOf (items.append more.toArray)) read :=
    held.weaken (by cases more <;> simp [or_comm])
  dsimp only
  refine (peekToken_ends calls held.sound (by omega)).bind grown ?_
  rintro token peeked held made ⟨seen, -⟩
  have further := made.keeps.onward
  refine Ends.ite (fun _ => ends_pure (held.weaken fun _ => List.mem_append_right _)) fun kind => ?_
  refine Ends.lift_bind (Scan.unexpected_builds held token none) ?_
  rintro _ reported ⟨held, still, -⟩
  have calm := still.calm
  refine (skip_ends held.sound ⟨token, still.lookahead.trans seen, kind⟩).bind held ?_
  rintro _ skipped held - ⟨past, -⟩
  exact ends_pure ⟨held.weaken fun _ member => List.mem_append_right _
    (List.mem_append_right _ (List.mem_append_right _ member)), by omega⟩

theorem programItems_ends (calls : Meets tables limit) (sound : state.Sound tables.stoppable)
    (enough : 8 * state.measure + 7 < limit) :
    Makes tables programItems state fun _ _ => True :=
  Ends.bind (loop_makes sound rfl fun _ _ held onward =>
    programTurn_ends calls held (by omega)) fun _ _ made => makes_pure made.1 trivial

theorem program_ends (calls : Meets tables limit) (sound : state.Sound tables.stoppable)
    (enough : 8 * state.measure + 7 < limit) :
    Makes tables program state fun id after => after.arena.Rooted id := by
  refine Ends.bind (programItems_ends calls sound enough) ?_
  rintro items read ⟨held, -⟩
  refine Ends.bind (spanOfEnds_looks fun id member => held.live (by simp [member])) ?_
  rintro span _ rfl
  refine Ends.bind (sequence_ends held (fun id member => by simp [member]) span) ?_
  rintro inner listed ⟨held, -⟩
  refine Ends.get_bind ?_
  exact (extends_lift (Scan.alloc_ends held (by simp +contextual) _)).makes
    fun _ _ _ rooted => rooted

end Parse

/-! ### The start -/

theorem Arena.get?_withLimit (limit : Nat) (id : NodeId) :
    (Arena.withLimit limit).get? id = none := by
  simp [Arena.withLimit, Arena.get?]

theorem Arena.sound_withLimit (strict : Prop) (limit : Nat) :
    (Arena.withLimit limit).Sound strict := by
  have unlinked (parts : Shape NodeId → List NodeId) (parent child : NodeId) :
      ¬(Arena.withLimit limit).Links parts parent child := by
    rintro ⟨node, found, -⟩
    rw [get?_withLimit] at found
    cases found
  have acyclic (parts : Shape NodeId → List NodeId) :
      Acyclic ((Arena.withLimit limit).Links parts) := by
    intro id cycle
    obtain ⟨child, step, -⟩ := Relation.TransGen.head'_iff.mp cycle
    exact unlinked parts id child step
  exact ⟨⟨List.nodup_nil, nofun⟩, fun parent child linked => absurd linked (unlinked _ _ _),
    acyclic _, fun _ => acyclic _⟩

variable (source : Bytes) (options : ParseOptions) (symbols : SymbolTable)

theorem State.measure_start :
    (State.start source options symbols).measure =
      2 * (Input.ofBytes source options.answers).unread := by
  rfl

theorem State.start_sound (strict : Prop) :
    (State.start source options symbols).Sound strict where
  reads :=
    { input := ⟨by simp [State.start, Input.ofBytes], by simp [State.start, Input.ofBytes]⟩
      map := SourceMap.Sound.addChunk ⟨by simp, by simp⟩ 0 source options.fileName options.line
      pendingVariable := nofun
      regexp := nofun
      turns := by
        change 2 * (Input.ofBytes source options.answers).unread + 0 + 65 ≤
          4 * (Input.ofBytes source options.answers).unread + 128
        omega }
  store := Arena.sound_withLimit strict options.maxNodes
  waiting := nofun
  distinct := List.nodup_nil
  key := nofun
  called id node found := by
    change (Arena.withLimit options.maxNodes).get? id = some node at found
    rw [Arena.get?_withLimit] at found
    cases found
  ahead := nofun

/-! ### Runs -/

/-- A run ends as `Parse.program_ends` says, and so does one with a deeper
table, which takes the same steps. -/
theorem program_outcome (guarded : Bool) (extra depth : Nat) {state : State}
    (sound : state.Sound (guarded = true)) (enough : 8 * state.measure + 7 < depth) :
    Outcome (guarded = true) (Parse.program (Parse.watchedTable guarded depth) state)
      (Parse.program (Parse.table (extra + depth)) state)
      fun id after => after.Sound (guarded = true) ∧ after.arena.Live id := by
  have ends := Parse.program_ends (Parse.watching_meets guarded extra depth) sound enough
  unfold Parse.Makes Parse.Ends at ends
  exact ends.mono fun _ _ made => ⟨made.1.sound, made.2.live⟩

theorem measure_lt_ruleDepth :
    8 * (State.start source options symbols).measure + 7 <
      ruleDepth (State.start source options symbols).input := by
  rw [State.measure_start]
  change _ < 16 * (Input.ofBytes source options.answers).unread + 256
  omega

/-- A run that is never stopped ends as the watched one does. -/
theorem Outcome.unwatched {α : Type} {stoppable : Prop}
    {watched plain : EStateM.Result Halt State α} {post : α → State → Prop}
    (outcome : Outcome stoppable watched plain post) (never : ¬stoppable) :
    watched = plain ∧ Outcome False plain plain post := by
  unfold Outcome at outcome
  split at outcome
  · obtain ⟨rfl, holds⟩ := outcome
    exact ⟨rfl, rfl, holds⟩
  · obtain ⟨rfl, located⟩ := outcome
    exact ⟨rfl, rfl, located⟩
  · exact absurd outcome never
  · exact outcome.elim

def State.allow (more : Nat) (state : State) : State :=
  { state with limits := { state.limits with turns := state.limits.turns + more } }

theorem State.Sound.allow {strict : Prop} {state : State} (sound : state.Sound strict)
    (more : Nat) : (state.allow more).Sound strict where
  reads :=
    { input := sound.reads.input
      map := sound.reads.map
      pendingVariable := sound.reads.pendingVariable
      regexp := sound.reads.regexp
      turns := Nat.le_trans sound.reads.turns (Nat.le_add_right _ _) }
  store := sound.store
  waiting := sound.waiting
  distinct := sound.distinct
  key := sound.key
  called := sound.called
  ahead token read := ⟨(sound.ahead token read).known, (sound.ahead token read).pending⟩

/-- A run gives a tree or ends with a fatal error, and a deeper table makes no
difference to it. -/
theorem program_unwatched {state : State} (sound : state.Sound (false = true)) {depth : Nat}
    (enough : 8 * state.measure + 7 < depth) (extra : Nat) :
    Parse.program (Parse.table (extra + depth)) state = Parse.program (Parse.table depth) state ∧
      Scan.Ends (Parse.program (Parse.table (extra + depth))) state fun id after =>
        after.Sound (false = true) ∧ after.arena.Live id := by
  obtain ⟨same, ends⟩ := (program_outcome false extra depth sound enough).unwatched
    Bool.noConfusion
  have plain := ((program_outcome false 0 depth sound enough).unwatched Bool.noConfusion).1
  rw [Nat.zero_add] at plain
  exact ⟨same.symm.trans plain, ends⟩

theorem runProgram_ends :
    Outcome False (runProgram source options symbols) (runProgram source options symbols)
      fun id after => after.Sound (false = true) ∧ after.arena.Live id := by
  have ends := (program_unwatched (State.start_sound source options symbols _)
    (measure_lt_ruleDepth source options symbols) 0).2
  rw [Nat.zero_add] at ends
  exact ends

theorem tree_or_fatal :
    (parse source options symbols).tree.isSome = true ∨
      (parse source options symbols).fatal.isSome = true := by
  have ends := runProgram_ends source options symbols
  unfold parse
  cases run : runProgram source options symbols with
  | ok tree after => exact .inl rfl
  | error halt after =>
      rw [run] at ends
      cases halt with
      | fatal error => exact .inr rfl
      | starved => exact ends.elim
      | fault fault => exact ends.elim

/-- The bodies that are due use up what the marker before them did not. -/
theorem heredocBodies_progress {state : State} (sound : state.Sound (false = true))
    (due : state.lexer.heredocsDue = true) (noVariable : ¬state.Sees .variableInterpolation)
    (extra : Nat) :
    Scan.Ends (Parse.heredocBodies (Parse.table (extra + 8 * state.measure))) state
      fun _ after => after.Sound (false = true) ∧ after.measure < state.measure := by
  have ends := Parse.heredocBodies_ends
    (Parse.watching_meets false extra (8 * state.measure)) sound due noVariable
    (Nat.le_refl _) Iff.rfl
  exact (ends.unwatched Bool.noConfusion).2.mono fun _ _ made => ⟨made.1.sound, made.2.1⟩

/-! ### Loops -/

/-- From every state in which a loop can start a turn, with what it carries held,
the turn ends. Another one follows only if it took a token and left less to be
read, and can start in the state that was reached. -/
def Parse.TurnsTake {σ α : Type} (turn : σ → Parse (Turn σ α)) (handles : σ → List Handle)
    (ready : σ → State → Prop) : Prop :=
  ∀ (base state : State) (carried : σ) (levels : Nat),
    Held (false = true) base (handles carried) state → ready carried state →
    8 * state.measure + 7 < levels →
    Scan.Ends (turn carried (Parse.table levels)) state fun result after =>
      ∀ next, result = .again next →
        Held (false = true) base (handles next) after ∧ ready next after ∧
          after.measure < state.measure ∧ state.ordinal < after.ordinal

theorem Parse.turnsTake {σ α : Type} {turn : σ → Parse (Turn σ α)} {handles : σ → List Handle}
    {ready : σ → State → Prop}
    (ends : ∀ (levels : Nat) (base state : State) (carried : σ),
      Meets (watching false levels 0) levels →
      Held (watching false levels 0).stoppable base (handles carried) state →
      ready carried state → 8 * state.measure + 7 < levels →
      ∃ (again : σ → State → Prop) (done : α → State → Prop),
        (∀ next after, again next after →
          Held (watching false levels 0).stoppable base (handles next) after ∧
            ready next after) ∧
          Ends (watching false levels 0) (turn carried) state (Turned again done state)) :
    Parse.TurnsTake turn handles ready := by
  intro base state carried levels held begins enough
  obtain ⟨again, done, goesOn, turned⟩ :=
    ends levels base state carried (watching_meets false 0 levels) held begins enough
  have plain := (turned.unwatched Bool.noConfusion).2
  unfold watching at plain
  dsimp only at plain
  rw [Nat.zero_add] at plain
  refine plain.mono ?_
  rintro _ after turned next rfl
  obtain ⟨held, begins⟩ := goesOn next after turned.1
  exact ⟨held, begins, turned.2⟩

open Parse in
/-- No loop of the grammar goes on without taking a token. A turn of the loop
over the heredocs of a line reads the body of one, if only an empty one. -/
structure LoopsTake : Prop where
  read : TurnsTake (fun _ : Unit => readTurn) handlesOf fun _ state =>
    ¬state.Sees .variableInterpolation
  skip : ∀ skipped, skipped .endOfInput = false →
    TurnsTake (fun _ : Unit => skipTurn skipped) handlesOf fun _ _ => True
  separator : ∀ word, TurnsTake (separatorTurn word) handlesOf fun _ _ => True
  commas : ∀ breakable, TurnsTake (commaTurn listItem breakable) handlesOf fun _ _ => True
  expression : ∀ rule, TurnsTake (expressionTurn rule) handlesOf fun left state =>
    state.arena.Rooted left
  arguments : ∀ closer, TurnsTake (argumentTurn closer) handlesOf fun _ _ => True
  modifiers : ∀ first, TurnsTake (modifierTurn first) handlesOf fun node state =>
    state.arena.Rooted node
  statements : TurnsTake statementTurn handlesOf fun items state =>
    ∀ id ∈ items.toList, state.arena.Rooted id
  program : TurnsTake programTurn handlesOf fun _ _ => True
  chain : TurnsTake chainTurn handlesOf fun operand state => operand.Rooted state.arena
  binary : ∀ least, TurnsTake (binaryTurn least) (fun left => handlesOf left.1)
    fun left state => left.1.Rooted state.arena
  rescues : TurnsTake rescueTurn handlesOf fun _ _ => True
  whens : TurnsTake whenTurn handlesOf fun _ _ => True
  targets : TurnsTake targetTurn handlesOf fun list state =>
    list.2 = true → state.Sees (.punct .splatStar)
  hash : TurnsTake hashTurn handlesOf fun _ _ => True
  patterns : TurnsTake patternTurn handlesOf fun _ _ => True
  parameters : ∀ stop, TurnsTake (parameterTurn stop) handlesOf fun _ _ => True
  blockLocals : TurnsTake (fun _ : Unit => blockLocalTurn) handlesOf fun _ _ => True
  undefined : TurnsTake undefTurn (fun _ => []) fun _ _ => True
  parts : TurnsTake partTurn handlesOf fun parts state => Loose state (Part.codes parts.toList)
  words : ∀ element, TurnsTake (wordTurn element) handlesOf fun _ _ => True
  strings : TurnsTake stringTurn handlesOf fun node state => Joinable state node
  heredocs : ∀ (base state : State) (levels : Nat), Held (false = true) base [] state →
    ¬state.Sees .variableInterpolation → 8 * state.measure ≤ levels →
    Scan.Ends (heredocTurn (Parse.table levels)) state fun result after =>
      ∀ next, result = .again next → Held (false = true) base [] after ∧
        ¬after.Sees .variableInterpolation ∧ after.measure < state.measure

theorem loops_take : LoopsTake where
  read := Parse.turnsTake fun _ _ _ _ calls held noVariable enough =>
    have seeking : Parse.Seeking _ _ _ := ⟨Held.refl held.sound, noVariable, id⟩
    ⟨_, _, fun _ _ seeking => ⟨(held.trans seeking.held).forget, seeking.noVariable⟩,
      Parse.readTurn_ends calls seeking (by omega)⟩
  skip _ more := Parse.turnsTake fun _ _ _ _ calls held _ enough =>
    ⟨_, _, fun _ _ held => ⟨held, trivial⟩, Parse.skipTurn_ends calls held (by omega) more⟩
  separator word := Parse.turnsTake fun _ _ _ separated calls held _ enough =>
    ⟨_, _, fun _ _ held => ⟨held, trivial⟩,
      Parse.separatorTurn_ends calls held (by omega) word separated⟩
  commas breakable := Parse.turnsTake fun _ _ _ _ calls held _ enough =>
    ⟨_, _, fun _ _ held => ⟨held, trivial⟩,
      Parse.commaTurn_ends calls held (by omega) (fun _ => Parse.listItem_ends calls) breakable⟩
  expression rule := Parse.turnsTake fun _ _ _ _ calls held rooted enough =>
    ⟨_, _, fun _ _ made => made,
      Parse.expressionTurn_ends calls held rooted (by omega) rule⟩
  arguments closer := Parse.turnsTake fun _ _ _ _ calls held _ enough =>
    ⟨_, _, fun _ _ held => ⟨held, trivial⟩, Parse.argumentTurn_ends calls held (by omega) closer⟩
  modifiers first := Parse.turnsTake fun _ _ _ _ calls held rooted enough =>
    ⟨_, _, fun _ _ made => made,
      Parse.modifierTurn_ends calls held rooted (by omega) first⟩
  statements := Parse.turnsTake fun _ _ _ _ calls held rooted enough =>
    ⟨_, _, fun _ _ made => made,
      Parse.statementTurn_ends calls held rooted (by omega)⟩
  program := Parse.turnsTake fun _ _ _ _ calls held _ enough =>
    ⟨_, _, fun _ _ held => ⟨held, trivial⟩, Parse.programTurn_ends calls held (by omega)⟩
  chain := Parse.turnsTake fun _ _ _ operand calls held rooted enough =>
    have own : Held _ _ (handlesOf operand ++ []) _ := held.weaken (by simp)
    ⟨_, _, fun _ _ made => ⟨made.1.weaken (by simp), made.2⟩,
      Parse.chainTurn_ends calls own rooted (by omega)⟩
  binary least := Parse.turnsTake fun _ _ _ (_, previous) calls held rooted enough =>
    ⟨_, _, fun _ _ made => ⟨made.1, made.2.rooted⟩,
      Parse.binaryTurn_ends calls held rooted (by omega) least previous⟩
  rescues := Parse.turnsTake fun _ _ _ _ calls held _ enough =>
    ⟨_, _, fun _ _ held => ⟨held, trivial⟩, Parse.rescueTurn_ends calls held (by omega)⟩
  whens := Parse.turnsTake fun _ _ _ _ calls held _ enough =>
    ⟨_, _, fun _ _ held => ⟨held, trivial⟩, Parse.whenTurn_ends calls held (by omega)⟩
  targets := Parse.turnsTake fun _ _ state (list, starting) calls held begins enough =>
    have own : Held _ _ (handlesOf list ++ []) _ := held.weaken (by simp +contextual)
    ⟨_, _, fun (_, _) _ made => ⟨made.2.weaken (by simp +contextual),
        fun again => nomatch made.1.symm.trans again⟩,
      Parse.targetTurn_ends calls (.refl state) own begins (by omega)⟩
  hash := Parse.turnsTake fun _ _ _ _ calls held _ enough =>
    ⟨_, _, fun _ _ held => ⟨held, trivial⟩, Parse.hashTurn_ends calls held (by omega)⟩
  patterns := Parse.turnsTake fun _ _ _ _ calls held _ enough =>
    ⟨_, _, fun _ _ held => ⟨held, trivial⟩, Parse.patternTurn_ends calls held (by omega)⟩
  parameters stop := Parse.turnsTake fun _ _ _ _ calls held _ enough =>
    ⟨_, _, fun _ _ held => ⟨held, trivial⟩, Parse.parameterTurn_ends calls held (by omega) stop⟩
  blockLocals := Parse.turnsTake fun _ _ _ _ calls held _ enough =>
    ⟨_, _, fun _ _ held => ⟨held, trivial⟩, Parse.blockLocalTurn_ends calls held (by omega)⟩
  undefined := Parse.turnsTake fun _ _ _ names calls held _ enough =>
    ⟨_, _, fun _ _ held => ⟨held, trivial⟩,
      Parse.undefTurn_ends calls held.forget (by omega) names⟩
  parts := Parse.turnsTake fun _ _ _ _ calls held loose enough =>
    ⟨_, _, fun _ _ made => made, Parse.partTurn_ends calls held loose (by omega)⟩
  words element := Parse.turnsTake fun _ _ _ _ calls held _ enough =>
    ⟨_, _, fun _ _ held => ⟨held, trivial⟩, Parse.wordTurn_ends calls held (by omega) element⟩
  strings := Parse.turnsTake fun _ _ _ _ calls held joinable enough =>
    ⟨_, _, fun _ _ made => made,
      Parse.stringTurn_ends calls held joinable (by omega)⟩
  heredocs base state levels held noVariable enough := by
    have ends := Parse.heredocTurn_ends (Parse.watching_meets false 0 levels) held noVariable
      enough Iff.rfl
    have plain := (ends.unwatched Bool.noConfusion).2
    unfold Parse.watching at plain
    dsimp only at plain
    rw [Nat.zero_add] at plain
    exact plain.mono fun _ _ turned next again =>
      ⟨turned.1, turned.2.1, turned.2.2.2 next again⟩

/-- Reading a token uses up a byte or leaves a state without width, unless it
is at the end or at the marker before the bodies of heredocs. -/
theorem nextToken_progress {state : State} (reads : state.Reads) :
    Scan.Ends Scan.nextToken state fun token after =>
      after.Reads ∧ (token.kind = .endOfInput ∨ after.remaining < state.remaining ∨
        (token.kind = .heredocBodies ∧ after.lexer.heredocsDue = true ∧
          after.remaining ≤ state.remaining)) := by
  refine (Scan.nextToken_ends reads).mono ?_
  rintro token after ⟨next, -⟩
  refine ⟨next.reads, ?_⟩
  rcases next.progress with ended | marker | less
  · exact .inl ended
  · exact .inr (.inr ⟨marker, next.due marker, next.remaining⟩)
  · exact .inr (.inl less)

/-- Every parse comes to an end, with a tree or with a fatal error. However
many more turns its loops and more levels its rules are allowed, it ends, and
the levels make no difference. So does every reading of a token, which leaves
less to be read unless it is at the end; the marker before the bodies of
heredocs uses up nothing, but the bodies that follow it do. No loop of the
grammar goes on without taking a token. -/
theorem parse_terminates :
    ((parse source options symbols).tree.isSome = true ∨
      (parse source options symbols).fatal.isSome = true) ∧
    (∀ levels, Parse.program
        (Parse.table (levels + ruleDepth (State.start source options symbols).input))
        (State.start source options symbols) = runProgram source options symbols) ∧
    (∀ turns levels, Scan.Ends (Parse.program
        (Parse.table (levels + ruleDepth (State.start source options symbols).input)))
        ((State.start source options symbols).allow turns) fun _ _ => True) ∧
    (∀ state : State, state.Reads → Scan.Ends Scan.nextToken state fun token after =>
      after.Reads ∧ (token.kind = .endOfInput ∨ after.remaining < state.remaining ∨
        (token.kind = .heredocBodies ∧ after.lexer.heredocsDue = true ∧
          after.remaining ≤ state.remaining))) ∧
    (∀ (state : State) (levels : Nat), state.Sound (false = true) →
      state.lexer.heredocsDue = true → ¬state.Sees .variableInterpolation →
      Scan.Ends (Parse.heredocBodies (Parse.table (levels + 8 * state.measure))) state
        fun _ after => after.Sound (false = true) ∧ after.measure < state.measure) ∧
    LoopsTake := by
  have sound := State.start_sound source options symbols (false = true)
  have enough := measure_lt_ruleDepth source options symbols
  refine ⟨tree_or_fatal source options symbols, fun levels => ?_, fun turns levels => ?_,
    fun state reads => nextToken_progress reads,
    fun state levels sound due noVariable => heredocBodies_progress sound due noVariable levels,
    loops_take⟩
  · exact (program_unwatched sound enough levels).1
  · have longer : 8 * ((State.start source options symbols).allow turns).measure + 7 <
        ruleDepth (State.start source options symbols).input := enough
    exact (program_unwatched (sound.allow turns) longer levels).2.mono fun _ _ _ => trivial

/-- Nothing that a parse takes for granted fails: no byte, line or file is
asked for beyond its end, no token is taken before one has been read, no empty
slot is looked into and no unknown name asked for. The place of a fatal error
can be found as well. -/
theorem parse_meets_no_fault :
    (∀ fault after, runProgram source options symbols ≠ .error (.fault fault) after) ∧
      ∀ error after, runProgram source options symbols = .error (.fatal error) after →
        after.report.map.canLocate (error.position?.getD after.input.position) = true := by
  have ends := runProgram_ends source options symbols
  refine ⟨fun fault after run => ?_, fun error after run => ?_⟩
  · rw [run] at ends
    exact ends
  · rw [run] at ends
    exact ends.2.canLocate _

end RubySyntax
